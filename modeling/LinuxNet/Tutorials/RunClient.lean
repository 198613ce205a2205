/-
# LinuxNet.Tutorials.RunClient — the clients of the tutorials, from their first call to their last

`run_client` of `08_simple_client_server.c` to `13_multiplexing_poll_client_server.c` resolves its server, makes
a socket, connects it (except for UDP), talks to the server until its user leaves, and gives both back. What
differs is the conversation and the order in which things are given back; every path on which something fails
has to give back what there is by then.

None of them forgets anything, whatever fails and whatever is typed (`gives_back`), and none uses a socket or a
list that it does not have.
-/
import LinuxNet.Posix.SysCalls
import LinuxNet.Tutorials.Conversation

namespace LinuxNet.Tutorials.RunClient

open LinuxNet.Lib LinuxNet.Lib.Calls LinuxNet.Lib.FdLedger LinuxNet.Posix
open LinuxNet.Tutorials.Conversation (requestOf leaves)

variable {A : Type}

/-! ## The conversations -/

/-- `htons` on a little-endian machine. -/
def htons (x : UInt16) : UInt16 := x <<< 8 ||| x >>> 8

/-- `sprintf(server_port, "%d", htons(TCP_PORT))`. -/
def serverPort : Bytes := intText (htons 45123).toNat

/-- The request in a line for `08_simple_client_server.c`: only a line feed is cut off. -/
def lineOf (line : Bytes) : Bytes := (cString line).takeWhile fun b => b ≠ lf

/-- A round of a client that asks its user: the request in the line (`request`) is sent, and the answer is
waited for unless `send` has failed. The round is the last one after "exit", "quit" or "shutdown". -/
def interactive (request : Bytes → Bytes) (failed : Int → Bytes → Bool) (sock_client : Int) (_ : Unit) :
    Program A (Unit ⊕ Unit) := do
  let line ← fgets
  let sent_bytes ← send sock_client (request line)
  if failed sent_bytes (request line) then return .inl ()
  let _received ← recv sock_client
  return if leaves (request line) then .inr () else .inl ()

/-- A round of the client of `10_peer_to_peer_client_server.c`. -/
def asksByUdp (addr_server : AddrInfo A) (sock_client : Int) (_ : Unit) : Program A (Unit ⊕ Unit) := do
  let line ← fgets
  let rc ← sendto sock_client addr_server (requestOf line)
  if rc ≠ (requestOf line).length then return .inl ()
  let received ← recvfrom sock_client addr_server
  if received.received ≤ 0 then return .inl ()
  return if leaves (requestOf line) then .inr () else .inl ()

/-- The text of the client of `11_non_blocking_sockets.c`. `%d` shows the low 32 bits of the time. -/
def clientTime (time : Int) : Bytes := ofText "Client time: " ++ intText (BitVec.ofInt 32 time).toInt

/-- Whether the client of `11_non_blocking_sockets.c` goes on after a call: `errno` is looked at when the call
has failed. -/
def goesOn (failed : Prop) [Decidable failed] : Program A Bool := if failed then wouldBlock else pure true

/-- A round of the client of `11_non_blocking_sockets.c`: only an error other than `EAGAIN` ends the loop. -/
def tellsTime (sock_client : Int) (_ : Unit) : Program A (Unit ⊕ Unit) := do
  let now ← time
  let sent_bytes ← send sock_client (clientTime now)
  let goesOnAfterSend ← goesOn (sent_bytes ≠ (clientTime now).length)
  if goesOnAfterSend = false then return .inr ()
  let received ← recv sock_client
  let goesOnAfterRecv ← goesOn (received.received < 0)
  return if goesOnAfterRecv = false then .inr () else .inl ()

/-! ## The programs -/

/-- A client before, around and after its conversation; `n` is the number of rounds after which it is
stopped. -/
def connected (protocol : String) (dial : AddrInfo A → Int → Program A Int)
    (conversation : AddrInfo A → Int → Unit → Program A (Unit ⊕ Unit))
    (giveBack : AddrInfo A → Int → Program A Unit) (n : ℕ) : Program A (Option Unit) := do
  let found ← getprotobyname (ofText protocol)
  if found = false then return some ()
  let some addr_server ← getaddrinfo (some (ofText "localhost")) serverPort | return some ()
  let sock_client ← socket addr_server
  if sock_client < 0 then
    freeaddrinfo addr_server
    return some ()
  let rc ← dial addr_server sock_client
  if rc ≠ 0 then
    giveBack addr_server sock_client
    return some ()
  let some () ← loop (conversation addr_server sock_client) n () | return none
  giveBack addr_server sock_client
  return some ()

/-- The loop with `connect`; `rc` is 0 before it, from `getaddrinfo`. -/
def connectAny (addr_server : AddrInfo A) (sock_client : Int) : Program A Int :=
  tryAll (connect sock_client addr_server) 0 addr_server.addrs

/-- `close(sock_client); freeaddrinfo(addr_server);` -/
def closeFirst (addr_server : AddrInfo A) (sock_client : Int) : Program A Unit := do
  close sock_client
  freeaddrinfo addr_server

/-- `freeaddrinfo(addr_server); close(sock_client);` -/
def freeFirst (addr_server : AddrInfo A) (sock_client : Int) : Program A Unit := do
  freeaddrinfo addr_server
  close sock_client

/-- The tutorials with a client and a server. -/
inductive Tutorial where
  | simple
  | multithread
  | peerToPeer
  | nonBlocking
  | select
  | poll
  deriving DecidableEq, Repr

/-- `send` has not sent the whole request. -/
def sentShort (sent_bytes : Int) (request : Bytes) : Bool := sent_bytes ≠ request.length

/-- **`run_client` of a tutorial.** -/
def Tutorial.runClient : Tutorial → ℕ → Program A (Option Unit)
  | .simple =>
    connected "tcp" connectAny (fun _ => interactive lineOf fun sent_bytes _ => sent_bytes ≤ 0) closeFirst
  | .multithread | .select | .poll =>
    connected "tcp" connectAny (fun _ => interactive requestOf sentShort) freeFirst
  -- `connect` is commented out
  | .peerToPeer => connected "udp" (fun _ _ => pure 0) asksByUdp freeFirst
  | .nonBlocking => connected "tcp" connectAny (fun _ => tellsTime) freeFirst

/-! ## What the parts keep -/

section Parts

variable {held : Finset Resource} {addr_server : AddrInfo A} {sock_client : Int}

theorem keeps_fgets : Keeps Call.Needs held (fgets (A := A)) :=
  retains_plain (fun _ => rfl) (needs_of_uses_nil rfl held)

theorem keeps_send (hsock : .sock sock_client ∈ held) (bytes : Bytes) :
    Keeps Call.Needs held (send (A := A) sock_client bytes) :=
  retains_plain (fun _ => rfl) (needs_of_uses_singleton rfl hsock)

theorem keeps_recv (hsock : .sock sock_client ∈ held) : Keeps Call.Needs held (recv (A := A) sock_client) :=
  retains_plain (fun _ => rfl) (needs_of_uses_singleton rfl hsock)

theorem keeps_goesOn (failed : Prop) [Decidable failed] : Keeps Call.Needs held (goesOn (A := A) failed) :=
  .ite (retains_plain (fun _ => rfl) (needs_of_uses_nil rfl held)) (retains_pure true)

theorem keeps_interactive {request : Bytes → Bytes} {failed : Int → Bytes → Bool}
    (hsock : .sock sock_client ∈ held) (s : Unit) :
    Keeps Call.Needs held (interactive (A := A) request failed sock_client s) := by
  refine keeps_fgets.bind fun line => (keeps_send hsock _).bind fun _ => .ite (retains_pure _) ?_
  exact (keeps_recv hsock).bind fun _ => retains_pure _

theorem keeps_tellsTime (hsock : .sock sock_client ∈ held) (s : Unit) :
    Keeps Call.Needs held (tellsTime (A := A) sock_client s) := by
  have htime : Keeps Call.Needs held (time (A := A)) :=
    retains_plain (fun _ => rfl) (needs_of_uses_nil rfl held)
  refine htime.bind fun now => (keeps_send hsock _).bind fun _ => (keeps_goesOn _).bind fun _ => ?_
  exact .ite (retains_pure _) ((keeps_recv hsock).bind fun _ => (keeps_goesOn _).bind fun _ => retains_pure _)

/-- What a client has while it is connected. -/
def both (addr_server : AddrInfo A) (sock_client : Int) : Finset Resource :=
  {.sock sock_client, .list addr_server.name}

theorem sock_mem_both : .sock sock_client ∈ both addr_server sock_client := Finset.mem_insert_self _ _

theorem list_mem_both : .list addr_server.name ∈ both addr_server sock_client :=
  Finset.mem_insert_of_mem (Finset.mem_singleton_self _)

/-- Calls that need the socket and the list. -/
theorem forall_mem_both : ∀ n ∈ [Resource.sock sock_client, .list addr_server.name],
    n ∈ both addr_server sock_client :=
  List.forall_mem_cons.mpr ⟨sock_mem_both, List.forall_mem_singleton.mpr list_mem_both⟩

theorem keeps_asksByUdp (s : Unit) :
    Keeps Call.Needs (both addr_server sock_client) (asksByUdp addr_server sock_client s) := by
  have hsendto : ∀ bytes, Keeps Call.Needs (both addr_server sock_client)
      (sendto sock_client addr_server bytes) :=
    fun _ => retains_plain (fun _ => rfl) forall_mem_both
  have hrecvfrom : Keeps Call.Needs (both addr_server sock_client) (recvfrom sock_client addr_server) :=
    retains_plain (fun _ => rfl) forall_mem_both
  refine keeps_fgets.bind fun line => (hsendto _).bind fun _ => .ite (retains_pure _) ?_
  exact hrecvfrom.bind fun _ => .ite (retains_pure _) (retains_pure _)

theorem keeps_connectAny :
    Keeps Call.Needs (both addr_server sock_client) (connectAny addr_server sock_client) := by
  have hconnect : ∀ addr, Keeps Call.Needs (both addr_server sock_client)
      (connect sock_client addr_server addr) :=
    fun _ => retains_plain (fun _ => rfl) forall_mem_both
  exact keeps_tryAll hconnect 0 _

/-- **`GivesBack giveBack`** — what is had while connected is given back. -/
def GivesBack (giveBack : AddrInfo A → Int → Program A Unit) : Prop :=
  ∀ addr_server sock_client trace, Has Call.Needs (both addr_server sock_client) trace →
    wp Fresh (giveBack addr_server sock_client) (fun _ t => Has Call.Needs ∅ t) trace

theorem needs_freeaddrinfo : Call.Needs (A := A) (.freeaddrinfo addr_server.name)
    (insert (.list addr_server.name) held) :=
  needs_of_uses_singleton rfl (Finset.mem_insert_self _ _)

theorem needs_close : Call.Needs (A := A) (.close sock_client) (insert (.sock sock_client) held) :=
  needs_of_uses_singleton rfl (Finset.mem_insert_self _ _)

theorem givesBack_closeFirst : GivesBack (closeFirst (A := A)) := by
  intro addr_server sock_client trace h
  have h : Has Call.Needs (insert (.sock sock_client) {.list addr_server.name}) trace := h
  refine wp_bind.mpr (wp_close h (by simp) needs_close fun t h => ?_)
  have h : Has Call.Needs (insert (.list addr_server.name) ∅) t := h
  exact wp_freeaddrinfo h (Finset.notMem_empty _) needs_freeaddrinfo fun _ h => h

theorem givesBack_freeFirst : GivesBack (freeFirst (A := A)) := by
  intro addr_server sock_client trace h
  have h : Has Call.Needs (insert (.list addr_server.name) {.sock sock_client}) trace := by
    rw [← Finset.pair_comm]
    exact h
  refine wp_bind.mpr (wp_freeaddrinfo h (by simp) needs_freeaddrinfo fun t h => ?_)
  have h : Has Call.Needs (insert (.sock sock_client) ∅) t := h
  exact wp_close h (Finset.notMem_empty _) needs_close fun _ h => h

end Parts

/-! ## The programs as a whole -/

/-- What a client has when it returns, and when it is stopped. -/
def Left (r : Option Unit) (trace : List (Answered A)) : Prop :=
  ∃ held, Has Call.Needs held trace ∧ (r = some () → held = ∅)

theorem left_of_has {r : Option Unit} {trace : List (Answered A)} (h : Has Call.Needs ∅ trace) : Left r trace :=
  ⟨∅, h, fun _ => rfl⟩

/-- **Every path gives back what there is.** -/
theorem wp_connected {protocol : String} {dial : AddrInfo A → Int → Program A Int}
    {conversation : AddrInfo A → Int → Unit → Program A (Unit ⊕ Unit)}
    {giveBack : AddrInfo A → Int → Program A Unit} {n : ℕ}
    (hdial : ∀ addr_server sock_client,
      Keeps Call.Needs (both addr_server sock_client) (dial addr_server sock_client))
    (hconversation : ∀ addr_server sock_client s,
      Keeps Call.Needs (both addr_server sock_client) (conversation addr_server sock_client s))
    (hgiveBack : GivesBack giveBack) : wp Fresh (connected protocol dial conversation giveBack n) Left [] := by
  have hstart : Has (A := A) Call.Needs ∅ [] := holds_nil
  refine wp_bind.mpr (wp_plain hstart (fun _ => rfl) (needs_of_uses_nil rfl _) fun found h => ?_)
  split
  · exact left_of_has h
  refine wp_bind.mpr (wp_getaddrinfo h (needs_of_uses_nil rfl _) left_of_has fun addr_server _ h => ?_)
  refine wp_bind.mpr (wp_socket h (needs_of_uses_singleton rfl (Finset.mem_insert_self _ _)) ?_ ?_)
  · -- there is a list only
    intro fd hneg h
    rw [if_pos hneg]
    exact wp_bind.mpr (wp_freeaddrinfo h (Finset.notMem_empty _) needs_freeaddrinfo fun _ => left_of_has)
  · intro fd hpos _ h
    rw [if_neg hpos]
    refine wp_bind.mpr (wp_mono (hdial addr_server fd _ h) fun rc t h => ?_)
    split
    · exact wp_bind.mpr (wp_mono (hgiveBack _ _ _ h) fun _ _ => left_of_has)
    refine wp_bind.mpr (wp_mono (retains_loop (hconversation addr_server fd) n () _ h) fun r t h => ?_)
    rcases r with _ | ⟨⟩
    · exact ⟨_, h, fun hr => by cases hr⟩
    · exact wp_bind.mpr (wp_mono (hgiveBack _ _ _ h) fun _ _ => left_of_has)

theorem wp_runClient (tutorial : Tutorial) (n : ℕ) : wp Fresh (tutorial.runClient (A := A) n) Left [] := by
  rcases tutorial with _ | _ | _ | _ | _ | _
  case simple =>
    exact wp_connected (fun _ _ => keeps_connectAny) (fun _ _ => keeps_interactive sock_mem_both)
      givesBack_closeFirst
  case peerToPeer =>
    exact wp_connected (fun _ _ => retains_pure 0) (fun _ _ => keeps_asksByUdp) givesBack_freeFirst
  case nonBlocking =>
    exact wp_connected (fun _ _ => keeps_connectAny) (fun _ _ => keeps_tellsTime sock_mem_both)
      givesBack_freeFirst
  all_goals
    exact wp_connected (fun _ _ => keeps_connectAny) (fun _ _ => keeps_interactive sock_mem_both)
      givesBack_freeFirst

/-- **The clients clean up.** Whatever the system answers (as long as it hands out nothing that is in use) and
whatever is typed: at any time every socket and every list was open when it was used, and when `run_client`
returns, each of them has been given back exactly once. -/
theorem gives_back (tutorial : Tutorial) (n : ℕ)
    (env : List (Answered A) → (c : Call A) → c.Answer)
    (henv : EachCall (fun d earlier => Fresh earlier d) (exec env (tutorial.runClient n) []).2) :
    InOrder op Call.Needs (exec env (tutorial.runClient n) []).2 ∧
      ((exec env (tutorial.runClient n) []).1 = some () →
        ClosedOnce (history op (exec env (tutorial.runClient n) []).2)) := by
  obtain ⟨held, h, hnone⟩ := wp_exec (wp_runClient tutorial n) henv
  exact ⟨h.inOrder, fun hr => h.closedOnce_iff.mpr (hnone hr)⟩

/-- A system with one address and a user who types "exit". -/
def exits (_ : List (Answered Unit)) : (c : Call Unit) → c.Answer
  | .getprotobyname _ | .wouldBlock => true
  | .getaddrinfo _ _ => some ⟨1, (), []⟩
  | .socket _ => (3 : Int)
  | .fgets => ofText "exit\n"
  | .send _ bytes | .sendto _ _ bytes | .sslWrite _ bytes => (bytes.length : Int)
  | .setsockopt _ | .getFl _ | .setFl _ _ | .bind _ _ _ | .listen _ | .connect _ _ _ | .time => (0 : Int)
  | .sslCtxUseFile _ _ | .sslConnect _ => (1 : Int)
  | .recv _ | .recvfrom _ _ | .sslRead _ _ => .data (ofText "OK")
  | .sslCtxNew | .sslNew _ => some 1
  | .freeaddrinfo _ | .close _ | .sslCtxFree _ | .sslSetFd _ _ | .sslShutdown _ | .sslFree _ => ()

theorem gives_back_exits :
    ClosedOnce (history op (exec exits (Tutorial.multithread.runClient 1) []).2) :=
  (gives_back .multithread 1 exits (by decide)).2 (by decide)

end LinuxNet.Tutorials.RunClient
