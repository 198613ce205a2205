/-
# LinuxNet.ServerSetUp — the servers, from their first call to the beginning of their loops

Every server resolves an address of its own, makes a socket, prepares it, binds it to the first address that
can be bound, and listens. What differs is how the socket is prepared, what `listen` may answer, and the order
in which things are given back when something fails. `HTTPServer::setup_socket` gives the list back in any
case, and the TLS server makes a context as well.

The set-up is all or nothing (`set_up_or_given_back`): either the loop begins with a socket that is bound and
listens, and nothing else is open but what the server gives back after the loop; or everything was given back.
In the first two servers `setsockopt` may fail; that is reported, but does not matter, because `rc` is set again
by `bind`.
-/
import LinuxNet.Openssl.RunClient

namespace LinuxNet.ServerSetUp

open LinuxNet.Lib LinuxNet.Lib.Calls LinuxNet.Lib.FdLedger LinuxNet.Posix
open LinuxNet.Tutorials.RunClient (Tutorial serverPort both closeFirst freeFirst sock_mem_both
  list_mem_both forall_mem_both
  needs_close needs_freeaddrinfo GivesBack givesBack_closeFirst givesBack_freeFirst)

variable {A : Type}

/-! ## The programs -/

/-- A server up to `listen`; `none` when it has returned. `prepare` returns what `rc` is before the loop with
`bind`. -/
def bound (protocol : String) (host : Option Bytes) (service : Bytes) (prepare : Int → Program A Int)
    (listenFails : Int → Program A Bool) (giveBack : AddrInfo A → Int → Program A Unit) :
    Program A (Option (AddrInfo A × Int)) := do
  let found ← getprotobyname (ofText protocol)
  if found = false then return none
  let some addr_server ← getaddrinfo host service | return none
  let sock_server ← socket addr_server
  if sock_server < 0 then
    freeaddrinfo addr_server
    return none
  let rc ← prepare sock_server
  let rc ← tryAll (bind sock_server addr_server) rc addr_server.addrs
  if rc ≠ 0 then
    giveBack addr_server sock_server
    return none
  let failed ← listenFails sock_server
  if failed = true then
    giveBack addr_server sock_server
    return none
  return some (addr_server, sock_server)

/-- `set_non_blocking`; `rc` is 0 from `getaddrinfo`. -/
def nonBlocking (sock_server : Int) : Program A Int := do
  setNonBlocking sock_server
  return 0

/-- The TLS server sets an option as well, and does not look whether it could. -/
def nonBlockingReuse (sock_server : Int) : Program A Int := do
  setNonBlocking sock_server
  let _rc ← setsockopt sock_server
  return 0

/-- `listen(sock_server, …) < 0`. -/
def listenNegative (sock_server : Int) : Program A Bool := do
  let rc ← listen sock_server
  return rc < 0

/-- `listen(sock_server, …) != 0`. -/
def listenNonzero (sock_server : Int) : Program A Bool := do
  let rc ← listen sock_server
  return rc ≠ 0

/-- `run_server` of a tutorial, up to its loop. -/
def setUpTutorial : Tutorial → Program A (Option (AddrInfo A × Int))
  | .simple => bound "tcp" none serverPort setsockopt listenNegative closeFirst
  | .multithread => bound "tcp" none serverPort setsockopt listenNegative freeFirst
  -- UDP does not listen
  | .peerToPeer => bound "udp" none serverPort (fun _ => pure 0) (fun _ => pure false) freeFirst
  | .nonBlocking | .select | .poll =>
    bound "tcp" (some (ofText "localhost")) serverPort ServerSetUp.nonBlocking listenNonzero freeFirst

/-- `HTTPServer::setup_socket`: the value of `sock_server` afterwards. -/
def setupSocket (port : Int) : Program A Int := do
  let some (addr_server, sock_server) ←
    bound "tcp" (some (ofText "localhost")) (intText port) nonBlocking listenNonzero freeFirst | return -1
  freeaddrinfo addr_server
  return sock_server

/-- `SSL_CTX_free`, `freeaddrinfo`, `close`. -/
def contextFirst (p_ssl_context : ℕ) (addr_server : AddrInfo A) (sock_server : Int) : Program A Unit := do
  sslCtxFree p_ssl_context
  freeFirst addr_server sock_server

/-- `run_server` of `ssl_client_server.c`, up to its loop. -/
def setUpTls : Program A (Option (AddrInfo A × Int × ℕ)) := do
  let some (addr_server, sock_server) ←
    bound "tcp" (some (ofText "localhost")) (ofText "4443") nonBlockingReuse listenNonzero freeFirst
      | return none
  let some p_ssl_context ← sslCtxNew
    | freeFirst addr_server sock_server
      return none
  let rc ← sslCtxUseFile p_ssl_context (ofText "server.crt")
  if rc ≤ 0 then
    contextFirst p_ssl_context addr_server sock_server
    return none
  let rc ← sslCtxUseFile p_ssl_context (ofText "server.key")
  if rc ≤ 0 then
    contextFirst p_ssl_context addr_server sock_server
    return none
  return some (addr_server, sock_server, p_ssl_context)

/-! ## What the parts do -/

section Parts

variable {held : Finset Resource} {addr_server : AddrInfo A} {sock_server : Int} {trace : List (Answered A)}

theorem keeps_setsockopt (hsock : .sock sock_server ∈ held) :
    Keeps Call.Needs held (setsockopt (A := A) sock_server) :=
  retains_plain (fun _ => rfl) (needs_of_uses_singleton rfl hsock)

theorem keeps_set_non_blocking (hsock : .sock sock_server ∈ held) :
    Keeps Call.Needs held (setNonBlocking (A := A) sock_server) :=
  keeps_setNonBlocking (needs_of_uses_singleton rfl hsock) fun _ => needs_of_uses_singleton rfl hsock

theorem keeps_nonBlocking (hsock : .sock sock_server ∈ held) :
    Keeps Call.Needs held (nonBlocking (A := A) sock_server) :=
  (keeps_set_non_blocking hsock).bind fun _ => retains_pure 0

theorem keeps_nonBlockingReuse (hsock : .sock sock_server ∈ held) :
    Keeps Call.Needs held (nonBlockingReuse (A := A) sock_server) :=
  (keeps_set_non_blocking hsock).bind fun _ => (keeps_setsockopt hsock).bind fun _ => retains_pure 0

/-- The socket is bound to an address of the list. -/
def Bound (addr_server : AddrInfo A) (sock_server : Int) (trace : List (Answered A)) : Prop :=
  ∃ addr ∈ addr_server.addrs, (⟨.bind sock_server addr_server.name addr, (0 : Int)⟩ : Answered A) ∈ trace

/-- The addresses are tried until one can be bound: `rc` is 0 only if one could. -/
theorem wp_tryAll_bind {ps : List A} (hsub : ∀ p ∈ ps, p ∈ addr_server.addrs) (rc : Int)
    (hrc : rc = 0 → ps ≠ []) (h : Has Call.Needs (both addr_server sock_server) trace) :
    wp Fresh (tryAll (bind sock_server addr_server) rc ps)
      (fun rc t => Has Call.Needs (both addr_server sock_server) t ∧
        (rc = 0 → Bound addr_server sock_server t)) trace := by
  induction ps generalizing rc trace with
  | nil => exact ⟨h, fun hzero => absurd rfl (hrc hzero)⟩
  | cons p ps ih =>
      obtain ⟨hp, hps⟩ := List.forall_mem_cons.mp hsub
      refine wp_bind.mpr (wp_plain h (fun _ => rfl) forall_mem_both fun (rc : Int) h => ?_)
      split
      next hzero =>
        rw [hzero] at h ⊢
        exact ⟨h, fun _ => ⟨p, hp, List.mem_cons_self⟩⟩
      next hfail => exact ih hps rc (fun hzero => absurd hzero hfail) h

/-- **`Listens listenFails ok`** — `listenFails` keeps everything, and says no only if `ok` holds then. -/
def Listens (listenFails : Int → Program A Bool) (ok : Int → List (Answered A) → Prop) : Prop :=
  ∀ (addr_server : AddrInfo A) sock_server trace, Has Call.Needs (both addr_server sock_server) trace →
    wp Fresh (listenFails sock_server)
      (fun failed t => Has Call.Needs (both addr_server sock_server) t ∧ (failed = false → ok sock_server t))
      trace

/-- The socket listens. -/
def Listening (sock_server : Int) (trace : List (Answered A)) : Prop :=
  ∃ rc : Int, 0 ≤ rc ∧ (⟨.listen sock_server, rc⟩ : Answered A) ∈ trace

theorem listens_negative : Listens (listenNegative (A := A)) Listening := by
  intro addr_server sock_server trace h
  have hmay : Call.Needs (A := A) (.listen sock_server) (both addr_server sock_server) :=
    needs_of_uses_singleton rfl sock_mem_both
  refine wp_bind.mpr (wp_plain h (fun _ => rfl) hmay fun (rc : Int) h => ⟨h, fun hok => ?_⟩)
  exact ⟨rc, Int.not_lt.mp (of_decide_eq_false hok), List.mem_cons_self⟩

theorem listens_nonzero : Listens (listenNonzero (A := A)) Listening := by
  intro addr_server sock_server trace h
  have hmay : Call.Needs (A := A) (.listen sock_server) (both addr_server sock_server) :=
    needs_of_uses_singleton rfl sock_mem_both
  refine wp_bind.mpr (wp_plain h (fun _ => rfl) hmay fun (rc : Int) h => ⟨h, fun hok => ?_⟩)
  have hzero : rc = 0 := not_not.mp (of_decide_eq_false hok)
  exact ⟨rc, hzero.ge, List.mem_cons_self⟩

/-- Nothing is left, or there are a socket that is bound and its list. -/
def AllOrNothing (ok : Int → List (Answered A) → Prop) (r : Option (AddrInfo A × Int))
    (trace : List (Answered A)) : Prop :=
  match r with
  | none => Has Call.Needs ∅ trace
  | some (addr_server, sock_server) =>
    0 ≤ sock_server ∧ Has Call.Needs (both addr_server sock_server) trace ∧
      Bound addr_server sock_server trace ∧ ok sock_server trace

/-- **The set-up is all or nothing.** -/
theorem wp_bound {protocol : String} {host : Option Bytes} {service : Bytes} {prepare : Int → Program A Int}
    {listenFails : Int → Program A Bool} {giveBack : AddrInfo A → Int → Program A Unit}
    {ok : Int → List (Answered A) → Prop}
    (hprepare : ∀ (addr_server : AddrInfo A) sock_server,
      Keeps Call.Needs (both addr_server sock_server) (prepare sock_server))
    (hlistens : Listens listenFails ok) (hgiveBack : GivesBack giveBack) :
    wp Fresh (bound protocol host service prepare listenFails giveBack) (AllOrNothing ok) [] := by
  have hstart : Has (A := A) Call.Needs ∅ [] := holds_nil
  refine wp_bind.mpr (wp_plain hstart (fun _ => rfl) (needs_of_uses_nil rfl _) fun found h => ?_)
  split
  · exact h
  refine wp_bind.mpr (wp_getaddrinfo h (needs_of_uses_nil rfl _) (fun h => h) fun addr_server _ h => ?_)
  refine wp_bind.mpr (wp_socket h (needs_of_uses_singleton rfl (Finset.mem_insert_self _ _)) ?_ ?_)
  · -- there is a list only
    intro fd hneg h
    rw [if_pos hneg]
    exact wp_bind.mpr (wp_freeaddrinfo h (Finset.notMem_empty _) needs_freeaddrinfo fun _ h => h)
  intro fd hpos _ h
  rw [if_neg hpos]
  refine wp_bind.mpr (wp_mono (hprepare addr_server fd _ h) fun rc t h => ?_)
  have htry := wp_tryAll_bind (fun _ hp => hp) rc (fun _ => List.cons_ne_nil _ _) h
  refine wp_bind.mpr (wp_mono htry fun rc t ⟨h, hbound⟩ => ?_)
  split
  · exact wp_bind.mpr (wp_mono (hgiveBack _ _ _ h) fun _ _ h => h)
  next hzero =>
    obtain ⟨addr, haddr, hin⟩ := hbound (not_not.mp hzero)
    refine wp_bind.mpr (wp_mono (wp_suffix (hlistens _ _ _ h)) fun failed t ⟨⟨h, hok⟩, hsuffix⟩ => ?_)
    split
    · exact wp_bind.mpr (wp_mono (hgiveBack _ _ _ h) fun _ _ h => h)
    next hlistening =>
      exact ⟨Int.not_lt.mp hpos, h, ⟨addr, haddr, hsuffix.subset hin⟩,
        hok (Bool.eq_false_of_not_eq_true hlistening)⟩

end Parts

/-! ## The servers -/

/-- All servers. -/
inductive Server where
  | tutorial (t : Tutorial)
  | tls
  | http (port : Int)
  deriving DecidableEq

/-- The set-up of a server: the socket its loop begins with, if it does. `HTTPServer::start` returns at once if
`sock_server` is negative. -/
def Server.setUp : Server → Program A (Option Int)
  | .tutorial t => do
    let some (_, sock_server) ← setUpTutorial t | return none
    return some sock_server
  | .tls => do
    let some (_, sock_server, _) ← setUpTls | return none
    return some sock_server
  | .http port => do
    let sock_server ← setupSocket port
    return if sock_server < 0 then none else some sock_server

/-- What is open when the loop of a server begins. -/
def Server.Opens : Server → Int → Finset Resource → Prop
  | .tutorial _, sock_server, held => ∃ list, held = {.sock sock_server, .list list}
  | .tls, sock_server, held => ∃ list context, held = {.context context, .sock sock_server, .list list}
  | .http _, sock_server, held => held = {.sock sock_server}

/-- The socket is ready for the loop. -/
structure Ready (server : Server) (sock_server : Int) (trace : List (Answered A)) : Prop where
  nonneg : 0 ≤ sock_server
  bound : ∃ list, ∃ addr, (⟨.bind sock_server list addr, (0 : Int)⟩ : Answered A) ∈ trace
  listening : server ≠ .tutorial .peerToPeer → Listening sock_server trace

/-- Everything was given back, or the loop can begin. -/
def ReadyOrNothing (server : Server) (r : Option Int) (trace : List (Answered A)) : Prop :=
  match r with
  | none => Has Call.Needs ∅ trace
  | some sock_server =>
    ∃ held, Has Call.Needs held trace ∧ server.Opens sock_server held ∧ Ready server sock_server trace

section Servers

variable {trace : List (Answered A)}

/-- What a socket is ready for stays so. -/
theorem Ready.suffix {server : Server} {sock_server : Int} {later : List (Answered A)}
    (h : Ready server sock_server trace) (hsuffix : trace <:+ later) : Ready server sock_server later := by
  obtain ⟨list, addr, hin⟩ := h.bound
  refine ⟨h.nonneg, ⟨list, addr, hsuffix.subset hin⟩, fun hlistens => ?_⟩
  obtain ⟨rc, hrc, hin⟩ := h.listening hlistens
  exact ⟨rc, hrc, hsuffix.subset hin⟩

theorem ready_of_listening {server : Server} {addr_server : AddrInfo A} {sock_server : Int}
    (hpos : 0 ≤ sock_server) (hbound : Bound addr_server sock_server trace)
    (hok : Listening sock_server trace) :
    Ready server sock_server trace := by
  obtain ⟨addr, -, hin⟩ := hbound
  exact ⟨hpos, ⟨_, addr, hin⟩, fun _ => hok⟩

/-- A server of the tutorials that listens. -/
theorem wp_tutorial {tutorial : Tutorial}
    (h : wp Fresh (setUpTutorial (A := A) tutorial) (AllOrNothing Listening) []) :
    wp Fresh ((Server.tutorial tutorial).setUp (A := A)) (ReadyOrNothing (.tutorial tutorial)) [] := by
  refine wp_bind.mpr (wp_mono h fun r t hr => ?_)
  rcases r with _ | ⟨addr_server, sock_server⟩
  · exact hr
  · obtain ⟨hpos, h, hbound, hok⟩ := hr
    exact ⟨_, h, ⟨_, rfl⟩, ready_of_listening hpos hbound hok⟩

/-- A socket that does not block. -/
theorem wp_nonBlocking (service : Bytes) : wp Fresh
    (bound (A := A) "tcp" (some (ofText "localhost")) service nonBlocking listenNonzero freeFirst)
    (AllOrNothing Listening) [] :=
  wp_bound (fun _ _ => keeps_nonBlocking sock_mem_both) listens_nonzero givesBack_freeFirst

theorem wp_setupSocket (port : Int) :
    wp Fresh ((Server.http port).setUp (A := A)) (ReadyOrNothing (.http port)) [] := by
  refine wp_bind.mpr (wp_bind.mpr (wp_mono (wp_nonBlocking _) fun r t hr => ?_))
  rcases r with _ | ⟨addr_server, sock_server⟩
  · exact hr
  · obtain ⟨hpos, h, hbound, hok⟩ := hr
    have h : Has Call.Needs (insert (.list addr_server.name) {.sock sock_server}) t := by
      rw [← Finset.pair_comm]
      exact h
    have hready : Ready (.http port) sock_server t := ready_of_listening hpos hbound hok
    refine wp_bind.mpr (wp_takesBack h (by simp) (fun _ => rfl) needs_freeaddrinfo fun _ h => ?_)
    show ReadyOrNothing _ (if sock_server < 0 then none else some sock_server) _
    rw [if_neg (Int.not_lt.mpr hpos)]
    exact ⟨_, h, rfl, hready.suffix (List.suffix_cons _ _)⟩

/-- The server over UDP. -/
theorem wp_peerToPeer : wp Fresh ((Server.tutorial .peerToPeer).setUp (A := A))
    (ReadyOrNothing (.tutorial .peerToPeer)) [] := by
  have hlistens : Listens (A := A) (fun _ => pure false) fun _ _ => True := fun _ _ _ h => ⟨h, fun _ => trivial⟩
  refine wp_bind.mpr (wp_mono (wp_bound (fun _ _ => retains_pure 0) hlistens givesBack_freeFirst)
    fun r t hr => ?_)
  rcases r with _ | ⟨addr_server, sock_server⟩
  · exact hr
  · obtain ⟨hpos, h, ⟨addr, -, hin⟩, -⟩ := hr
    exact ⟨_, h, ⟨_, rfl⟩, hpos, ⟨_, addr, hin⟩, fun hother => absurd rfl hother⟩

/-- The context, the list and the socket are given back. -/
theorem wp_contextFirst {p_ssl_context : ℕ} {addr_server : AddrInfo A} {sock_server : Int}
    (h : Has Call.Needs (insert (.context p_ssl_context) (both addr_server sock_server)) trace) :
    wp Fresh (contextFirst p_ssl_context addr_server sock_server) (fun _ t => Has Call.Needs ∅ t) trace := by
  have hmay : Call.Needs (A := A) (.sslCtxFree p_ssl_context)
      (insert (.context p_ssl_context) (both addr_server sock_server)) :=
    needs_of_uses_singleton rfl (Finset.mem_insert_self _ _)
  have hnew : Resource.context p_ssl_context ∉ both addr_server sock_server := by simp [both]
  exact wp_bind.mpr (wp_takesBack h hnew (fun _ => rfl) hmay fun _ h => givesBack_freeFirst _ _ _ h)

theorem wp_setUpTls : wp Fresh (Server.tls.setUp (A := A)) (ReadyOrNothing .tls) [] := by
  refine wp_bind.mpr (wp_bind.mpr (wp_mono (wp_bound (fun _ _ => keeps_nonBlockingReuse sock_mem_both)
    listens_nonzero givesBack_freeFirst) fun r t hr => ?_))
  rcases r with _ | ⟨addr_server, sock_server⟩
  · exact hr
  obtain ⟨hpos, h, hbound, hok⟩ := hr
  have hready : Ready .tls sock_server t := ready_of_listening hpos hbound hok
  refine wp_bind.mpr (wp_sslCtxNew h (needs_of_uses_nil rfl _) (fun h => ?_) fun p_ssl_context _ h => ?_)
  · exact wp_bind.mpr (wp_mono (givesBack_freeFirst _ _ _ h) fun _ _ h => h)
  have huse : ∀ file, Call.Needs (A := A) (.sslCtxUseFile p_ssl_context file)
      (insert (.context p_ssl_context) (both addr_server sock_server)) :=
    fun _ => needs_of_uses_singleton rfl (Finset.mem_insert_self _ _)
  -- the certificate
  refine wp_bind.mpr (wp_plain h (fun _ => rfl) (huse _) fun rc h => ?_)
  split
  · exact wp_bind.mpr (wp_mono (wp_contextFirst h) fun _ _ h => h)
  -- the key
  refine wp_bind.mpr (wp_plain h (fun _ => rfl) (huse _) fun rc h => ?_)
  split
  · exact wp_bind.mpr (wp_mono (wp_contextFirst h) fun _ _ h => h)
  refine ⟨_, h, ⟨_, _, rfl⟩, hready.suffix ?_⟩
  exact ((List.suffix_cons _ t).trans (List.suffix_cons _ _)).trans (List.suffix_cons _ _)

theorem wp_setUp (server : Server) : wp Fresh (server.setUp (A := A)) (ReadyOrNothing server) [] := by
  have hreuse : ∀ (addr_server : AddrInfo A) sock_server,
      Keeps Call.Needs (both addr_server sock_server) (setsockopt (A := A) sock_server) :=
    fun _ _ => keeps_setsockopt sock_mem_both
  rcases server with t | _ | port
  · rcases t with _ | _ | _ | _ | _ | _
    case simple => exact wp_tutorial (wp_bound hreuse listens_negative givesBack_closeFirst)
    case multithread => exact wp_tutorial (wp_bound hreuse listens_negative givesBack_freeFirst)
    case peerToPeer => exact wp_peerToPeer
    all_goals exact wp_tutorial (wp_nonBlocking serverPort)
  · exact wp_setUpTls
  · exact wp_setupSocket port

end Servers

end LinuxNet.ServerSetUp
