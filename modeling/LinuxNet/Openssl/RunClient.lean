/-
# LinuxNet.Openssl.RunClient — the TLS clients, from their first call to their last

`run_client` of `ssl_client_server.c` and `perform_https_request` of `https_client.c` connect a socket, make a
TLS context and a TLS object, talk, and give the four things back. They are as careful as the clients of the
tutorials from the moment they are connected on; but if no address can be connected they return at once, and
`perform_https_request` does so also if there is no socket. So everything is given back exactly when a
connection was made, or there was nothing to give back (`gives_back_iff`).

In all of this the socket is closed before `SSL_shutdown` is called, so no `close_notify` ever leaves the
program (`shutdown_finds_no_socket`): the other side sees the connection end as if it were cut off.
-/
import LinuxNet.Tutorials.RunClient

namespace LinuxNet.Openssl.RunClient

open LinuxNet.Lib LinuxNet.Lib.Calls LinuxNet.Lib.FdLedger LinuxNet.Posix
open LinuxNet.Tutorials.Conversation (requestOf leaves)
open LinuxNet.Tutorials.RunClient (connectAny freeFirst both forall_mem_both)

variable {A : Type}

/-! ## The programs -/

/-- `freeaddrinfo`, `close`, `SSL_CTX_free`, `SSL_shutdown`, `SSL_free`. -/
def cleanUp (addr_server : AddrInfo A) (sock_client : Int) (ssl_context ssl : ℕ) : Program A Unit := do
  freeaddrinfo addr_server
  close sock_client
  sslCtxFree ssl_context
  sslShutdown ssl
  sslFree ssl

/-- From `SSL_CTX_new` on; `withoutSsl` is what is done when `SSL_new` fails. -/
def overTls (withoutSsl : AddrInfo A → Int → ℕ → Program A Unit) (conversation : ℕ → Program A (Option Unit))
    (addr_server : AddrInfo A) (sock_client : Int) : Program A (Option Unit) := do
  let some ssl_context ← sslCtxNew
    | freeFirst addr_server sock_client
      return some ()
  let some ssl ← sslNew ssl_context
    | withoutSsl addr_server sock_client ssl_context
      return some ()
  sslSetFd ssl sock_client
  let rc ← sslConnect ssl
  if rc ≤ 0 then
    cleanUp addr_server sock_client ssl_context ssl
    return some ()
  let some () ← conversation ssl | return none
  cleanUp addr_server sock_client ssl_context ssl
  return some ()

/-- A round of the loop of `run_client`. -/
def asks (ssl : ℕ) (_ : Unit) : Program A (Unit ⊕ Unit) := do
  let line ← fgets
  if leaves (requestOf line) then return .inr ()
  let sent_bytes ← sslWrite ssl (requestOf line)
  if sent_bytes ≤ 0 then return .inl ()
  let _received ← sslRead ssl 1024
  return .inl ()

/-- The programs up to `SSL_CTX_new`; `withoutSocket` is what is done when `socket` fails. When no address can
be connected, nothing is given back. -/
def dialled (host service : Bytes) (withoutSocket : AddrInfo A → Program A Unit)
    (talk : AddrInfo A → Int → Program A (Option Unit)) : Program A (Option Unit) := do
  let found ← getprotobyname (ofText "tcp")
  if found = false then return some ()
  let some addr_server ← getaddrinfo (some host) service | return some ()
  let sock_client ← socket addr_server
  if sock_client < 0 then
    withoutSocket addr_server
    return some ()
  let rc ← connectAny addr_server sock_client
  if rc ≠ 0 then return some ()
  talk addr_server sock_client

/-- What `run_client` does when `SSL_new` fails. -/
def contextFirst (addr_server : AddrInfo A) (sock_client : Int) (p_ssl_context : ℕ) : Program A Unit := do
  sslCtxFree p_ssl_context
  freeaddrinfo addr_server
  close sock_client

/-- `run_client` of `ssl_client_server.c`; `n` is the number of rounds after which it is stopped. -/
def runClient (n : ℕ) : Program A (Option Unit) :=
  dialled (ofText "localhost") (ofText "4443") freeaddrinfo
    (overTls contextFirst fun p_ssl => loop (asks p_ssl) n ())

/-- `http_request`. -/
def httpRequest (hostname : Bytes) : Bytes :=
  ofText "GET / HTTP/1.1\r\nHost: " ++ hostname ++ ofText "\r\nConnection: close\r\n\r\n"

/-- A round of the receive loop, with `total_received_bytes`. -/
def reads (ssl : ℕ) (total_received_bytes : ℕ) : Program A (ℕ ⊕ Unit) := do
  let received ← sslRead ssl (4096 - total_received_bytes)
  return if 0 < received.received then .inl (total_received_bytes + received.bytes.length) else .inr ()

/-- The request and the response; what follows is the same if `SSL_write` has failed. -/
def asksForRoot (hostname : Bytes) (n : ℕ) (ssl : ℕ) : Program A (Option Unit) := do
  let rc ← sslWrite ssl (httpRequest hostname)
  if rc ≤ 0 then return some ()
  loop (reads ssl) n 0

/-- What `perform_https_request` does when `SSL_new` fails. -/
def contextLast (addr_server : AddrInfo A) (sock_client : Int) (ssl_context : ℕ) : Program A Unit := do
  freeaddrinfo addr_server
  close sock_client
  sslCtxFree ssl_context

/-- `perform_https_request` of `https_client.c`; `n` is the number of reads after which it is stopped. -/
def performHttpsRequest (hostname port : Bytes) (n : ℕ) : Program A (Option Unit) :=
  dialled hostname port (fun _ => pure ()) (overTls contextLast (asksForRoot hostname n))

/-! ## The order of the calls -/

/-- A call is in order if what it needs is open and, for `SSL_shutdown`, if every socket is closed. -/
def AfterClose (c : Call A) (opened : Finset Resource) : Prop :=
  c.Needs opened ∧ ∀ ssl, c = .sslShutdown ssl → ∀ fd, .sock fd ∉ opened

section Parts

variable {held : Finset Resource} {trace : List (Answered A)} {addr_server : AddrInfo A} {sock_client : Int}
  {ssl_context ssl : ℕ} {c : Call A} {n : Resource}

theorem afterClose_of_uses_nil (huses : c.uses = []) (hother : ∀ ssl, c ≠ .sslShutdown ssl) :
    AfterClose c held :=
  ⟨needs_of_uses_nil huses held, fun ssl heq => absurd heq (hother ssl)⟩

theorem afterClose_of_uses_singleton (huses : c.uses = [n]) (hn : n ∈ held)
    (hother : ∀ ssl, c ≠ .sslShutdown ssl) : AfterClose c held :=
  ⟨needs_of_uses_singleton huses hn, fun ssl heq => absurd heq (hother ssl)⟩

/-- A call that takes back what it needs, and is not `SSL_shutdown`. -/
theorem afterClose_insert (huses : c.uses = [n]) (hother : ∀ ssl, c ≠ .sslShutdown ssl) :
    AfterClose c (insert n held) :=
  afterClose_of_uses_singleton huses (Finset.mem_insert_self n held) hother

/-! ## What the parts keep -/

/-- What is had without a TLS object, and with one; in the order in which `cleanUp` gives it back. -/
def secured (addr_server : AddrInfo A) (sock_client : Int) (ssl_context ssl : ℕ) : Finset Resource :=
  {.list addr_server.name, .sock sock_client, .context ssl_context, .ssl ssl}

theorem insert_ssl_eq : insert (.ssl ssl) (insert (.context ssl_context) (both addr_server sock_client)) =
    secured addr_server sock_client ssl_context ssl := by
  ext n
  simp only [both, secured, Finset.mem_insert, Finset.mem_singleton]
  tauto

theorem wp_cleanUp (h : Has AfterClose (secured addr_server sock_client ssl_context ssl) trace) :
    wp Fresh (cleanUp addr_server sock_client ssl_context ssl) (fun _ t => Has AfterClose ∅ t) trace := by
  have h : Has AfterClose (insert (.list addr_server.name)
    {.sock sock_client, .context ssl_context, .ssl ssl}) trace := h
  refine wp_bind.mpr (wp_freeaddrinfo h (by simp) (afterClose_insert rfl fun _ => nofun) fun t h => ?_)
  have h : Has AfterClose (insert (.sock sock_client) {.context ssl_context, .ssl ssl}) t := h
  refine wp_bind.mpr (wp_close h (by simp) (afterClose_insert rfl fun _ => nofun) fun t h => ?_)
  have h : Has AfterClose (insert (.context ssl_context) {.ssl ssl}) t := h
  refine wp_bind.mpr (wp_takesBack h (by simp) (fun _ => rfl) (afterClose_insert rfl fun _ => nofun)
    fun _ h => ?_)
  have h : Has AfterClose (insert (.ssl ssl) ∅) _ := h
  -- only the TLS object is left, so there is no socket
  have hshutdown : AfterClose (A := A) (.sslShutdown ssl) (insert (.ssl ssl) ∅) :=
    ⟨needs_of_uses_singleton rfl (Finset.mem_insert_self _ _), fun _ _ fd => by simp⟩
  refine wp_bind.mpr (wp_plain h (fun _ => rfl) hshutdown fun _ h => ?_)
  exact wp_takesBack h (Finset.notMem_empty _) (fun _ => rfl) (afterClose_insert rfl fun _ => nofun)
    fun _ h => h

/-- Without a context there are the list and the socket. -/
theorem wp_freeFirst (h : Has AfterClose (both addr_server sock_client) trace) :
    wp Fresh (freeFirst addr_server sock_client) (fun _ t => Has AfterClose ∅ t) trace := by
  have h : Has AfterClose (insert (.list addr_server.name) {.sock sock_client}) trace := by
    rw [← Finset.pair_comm]
    exact h
  refine wp_bind.mpr (wp_freeaddrinfo h (by simp) (afterClose_insert rfl fun _ => nofun) fun t h => ?_)
  have h : Has AfterClose (insert (.sock sock_client) ∅) t := h
  exact wp_close h (Finset.notMem_empty _) (afterClose_insert rfl fun _ => nofun) fun _ h => h

/-- **`GivesBack withoutSsl`** — the socket, the list and the context are given back. -/
def GivesBack (withoutSsl : AddrInfo A → Int → ℕ → Program A Unit) : Prop :=
  ∀ addr_server sock_client ssl_context trace,
    Has AfterClose (insert (.context ssl_context) (both addr_server sock_client)) trace →
    wp Fresh (withoutSsl addr_server sock_client ssl_context) (fun _ t => Has AfterClose ∅ t) trace

theorem givesBack_contextFirst : GivesBack (contextFirst (A := A)) := by
  intro addr_server sock_client ssl_context trace h
  have hnew : Resource.context ssl_context ∉ both addr_server sock_client := by simp [both]
  refine wp_bind.mpr (wp_takesBack h hnew (fun _ => rfl) (afterClose_insert rfl fun _ => nofun) fun _ h => ?_)
  exact wp_freeFirst h

theorem givesBack_contextLast : GivesBack (contextLast (A := A)) := by
  intro addr_server sock_client ssl_context trace h
  have hall : insert (.context ssl_context) (both addr_server sock_client) =
      insert (.list addr_server.name) {.sock sock_client, .context ssl_context} := by
    ext n
    simp only [both, Finset.mem_insert, Finset.mem_singleton]
    tauto
  rw [hall] at h
  refine wp_bind.mpr (wp_freeaddrinfo h (by simp) (afterClose_insert rfl fun _ => nofun) fun t h => ?_)
  have h : Has AfterClose (insert (.sock sock_client) {.context ssl_context}) t := h
  refine wp_bind.mpr (wp_close h (by simp) (afterClose_insert rfl fun _ => nofun) fun t h => ?_)
  have h : Has AfterClose (insert (.context ssl_context) ∅) t := h
  exact wp_takesBack h (Finset.notMem_empty _) (fun _ => rfl) (afterClose_insert rfl fun _ => nofun)
    fun _ h => h

/-- What a client has when it returns, and when it is stopped. -/
def Left (r : Option Unit) (trace : List (Answered A)) : Prop :=
  ∃ held, Has AfterClose held trace ∧ (r = some () → held = ∅)

theorem left_of_has {r : Option Unit} (h : Has AfterClose ∅ trace) : Left r trace := ⟨∅, h, fun _ => rfl⟩

/-- **From `SSL_CTX_new` on everything is given back.** -/
theorem wp_overTls {withoutSsl : AddrInfo A → Int → ℕ → Program A Unit}
    {conversation : ℕ → Program A (Option Unit)} (hwithout : GivesBack withoutSsl)
    (hconversation : ∀ ssl held, .ssl ssl ∈ held → Keeps AfterClose held (conversation ssl))
    (h : Has AfterClose (both addr_server sock_client) trace) :
    wp Fresh (overTls withoutSsl conversation addr_server sock_client) Left trace := by
  refine wp_bind.mpr (wp_sslCtxNew h (afterClose_of_uses_nil rfl fun _ => nofun) (fun h => ?_) ?_)
  · exact wp_bind.mpr (wp_mono (wp_freeFirst h) fun _ _ => left_of_has)
  intro ssl_context _ h
  have hcontext : AfterClose (A := A) (.sslNew ssl_context)
      (insert (.context ssl_context) (both addr_server sock_client)) := afterClose_insert rfl fun _ => nofun
  refine wp_bind.mpr (wp_sslNew h hcontext (fun h => ?_) fun ssl _ h => ?_)
  · exact wp_bind.mpr (wp_mono (hwithout _ _ _ _ h) fun _ _ => left_of_has)
  rw [insert_ssl_eq] at h
  have hssl : Resource.ssl ssl ∈ secured addr_server sock_client ssl_context ssl := by simp [secured]
  have hsetFd : AfterClose (A := A) (.sslSetFd ssl sock_client)
      (secured addr_server sock_client ssl_context ssl) := by
    refine ⟨List.forall_mem_cons.mpr ⟨hssl, List.forall_mem_singleton.mpr ?_⟩, fun _ => nofun⟩
    simp [secured]
  refine wp_bind.mpr (wp_plain h (fun _ => rfl) hsetFd fun _ h => ?_)
  have hconnect : AfterClose (A := A) (.sslConnect ssl) (secured addr_server sock_client ssl_context ssl) :=
    afterClose_of_uses_singleton rfl hssl fun _ => nofun
  refine wp_bind.mpr (wp_plain h (fun _ => rfl) hconnect fun rc h => ?_)
  split
  · exact wp_bind.mpr (wp_mono (wp_cleanUp h) fun _ _ => left_of_has)
  refine wp_bind.mpr (wp_mono (hconversation ssl _ hssl _ h) fun r t h => ?_)
  rcases r with _ | ⟨⟩
  · exact ⟨_, h, fun hr => by cases hr⟩
  · exact wp_bind.mpr (wp_mono (wp_cleanUp h) fun _ _ => left_of_has)

theorem keeps_sslWrite (hssl : .ssl ssl ∈ held) (bytes : Bytes) :
    Keeps AfterClose held (sslWrite (A := A) ssl bytes) :=
  retains_plain (fun _ => rfl) (afterClose_of_uses_singleton rfl hssl fun _ => nofun)

theorem keeps_sslRead (hssl : .ssl ssl ∈ held) (num : ℕ) :
    Keeps AfterClose held (sslRead (A := A) ssl num) :=
  retains_plain (fun _ => rfl) (afterClose_of_uses_singleton rfl hssl fun _ => nofun)

theorem keeps_asks (hssl : .ssl ssl ∈ held) (s : Unit) : Keeps AfterClose held (asks (A := A) ssl s) := by
  have hfgets : Keeps AfterClose held (fgets (A := A)) :=
    retains_plain (fun _ => rfl) (afterClose_of_uses_nil rfl fun _ => nofun)
  refine hfgets.bind fun line => .ite (retains_pure _) ((keeps_sslWrite hssl _).bind fun _ => ?_)
  exact .ite (retains_pure _) ((keeps_sslRead hssl _).bind fun _ => retains_pure _)

theorem keeps_asksForRoot {hostname : Bytes} {rounds : ℕ} (hssl : .ssl ssl ∈ held) :
    Keeps AfterClose held (asksForRoot (A := A) hostname rounds ssl) := by
  refine (keeps_sslWrite hssl _).bind fun rc => .ite (retains_pure _) (retains_loop (fun total => ?_) rounds 0)
  exact (keeps_sslRead hssl _).bind fun _ => retains_pure _

end Parts

/-! ## Connecting -/

section Connecting

variable {held : Finset Resource} {trace : List (Answered A)} {addr_server : AddrInfo A} {sock_client : Int}

/-- A connection was made. -/
def Connected (trace : List (Answered A)) : Prop :=
  ∃ fd list addr, (⟨.connect fd list addr, (0 : Int)⟩ : Answered A) ∈ trace

/-- A socket was made. -/
def Made (trace : List (Answered A)) : Prop :=
  ∃ list, ∃ fd : Int, 0 ≤ fd ∧ (⟨.socket list, fd⟩ : Answered A) ∈ trace

/-- A name was resolved. -/
def Resolved (trace : List (Answered A)) : Prop :=
  ∃ host service list, (⟨.getaddrinfo host service, some list⟩ : Answered A) ∈ trace

/-- The addresses are tried until one can be connected. -/
theorem wp_tryAll_connect (h : Has AfterClose (both addr_server sock_client) trace) (hno : ¬ Connected trace)
    (rc : Int) (ps : List A) (hps : rc ≠ 0 ∨ ps ≠ []) :
    wp Fresh (tryAll (connect sock_client addr_server) rc ps)
      (fun rc t => Has AfterClose (both addr_server sock_client) t ∧ (rc = 0 ↔ Connected t)) trace := by
  induction ps generalizing rc trace with
  | nil => exact ⟨h, iff_of_false (hps.resolve_right fun hne => hne rfl) hno⟩
  | cons p ps ih =>
      have hmay : AfterClose (.connect sock_client addr_server.name p) (both addr_server sock_client) :=
        ⟨forall_mem_both, fun _ => nofun⟩
      refine wp_bind.mpr (wp_plain h (fun _ => rfl) hmay fun (rc : Int) h => ?_)
      split
      next hzero =>
        rw [hzero] at h ⊢
        exact ⟨h, iff_of_true rfl ⟨_, _, _, List.mem_cons_self⟩⟩
      next hfail =>
        refine ih h ?_ rc (.inl hfail)
        rintro ⟨fd, list, addr, hin⟩
        rcases List.mem_cons.mp hin with heq | hin
        · cases heq
          exact hfail rfl
        · exact hno ⟨fd, list, addr, hin⟩

theorem wp_connectAny (h : Has AfterClose (both addr_server sock_client) trace) (hno : ¬ Connected trace) :
    wp Fresh (connectAny addr_server sock_client)
      (fun rc t => Has AfterClose (both addr_server sock_client) t ∧ (rc = 0 ↔ Connected t)) trace :=
  wp_tryAll_connect h hno 0 _ (.inr (List.cons_ne_nil _ _))

/-! What one more call changes. -/

section OneMore

variable {c : Call A} {r : c.Answer}

theorem connected_cons (hother : ∀ fd list addr, c ≠ .connect fd list addr) :
    Connected (⟨c, r⟩ :: trace) ↔ Connected trace := by
  constructor
  · rintro ⟨fd, list, addr, hin⟩
    rcases List.mem_cons.mp hin with heq | hin
    · exact absurd (congrArg Sigma.fst heq).symm (hother fd list addr)
    · exact ⟨fd, list, addr, hin⟩
  · rintro ⟨fd, list, addr, hin⟩
    exact ⟨fd, list, addr, List.mem_cons_of_mem _ hin⟩

theorem made_cons (hother : ∀ list, c ≠ .socket list) : Made (⟨c, r⟩ :: trace) ↔ Made trace := by
  constructor
  · rintro ⟨list, fd, hpos, hin⟩
    rcases List.mem_cons.mp hin with heq | hin
    · exact absurd (congrArg Sigma.fst heq).symm (hother list)
    · exact ⟨list, fd, hpos, hin⟩
  · rintro ⟨list, fd, hpos, hin⟩
    exact ⟨list, fd, hpos, List.mem_cons_of_mem _ hin⟩

theorem not_made_socket {list : ℕ} {fd : Int} (hneg : fd < 0) (hno : ¬ Made trace) :
    ¬ Made ((⟨.socket list, fd⟩ : Answered A) :: trace) := by
  rintro ⟨list, fd', hpos, hin⟩
  rcases List.mem_cons.mp hin with heq | hin
  · cases heq
    omega
  · exact hno ⟨list, fd', hpos, hin⟩

theorem resolved_cons (hother : ∀ host service, c ≠ .getaddrinfo host service) :
    Resolved (⟨c, r⟩ :: trace) ↔ Resolved trace := by
  constructor
  · rintro ⟨host, service, list, hin⟩
    rcases List.mem_cons.mp hin with heq | hin
    · exact absurd (congrArg Sigma.fst heq).symm (hother host service)
    · exact ⟨host, service, list, hin⟩
  · rintro ⟨host, service, list, hin⟩
    exact ⟨host, service, list, List.mem_cons_of_mem _ hin⟩

theorem not_resolved_none {host : Option Bytes} {service : Bytes} (hno : ¬ Resolved trace) :
    ¬ Resolved ((⟨.getaddrinfo host service, none⟩ : Answered A) :: trace) := by
  rintro ⟨host, service, list, hin⟩
  rcases List.mem_cons.mp hin with heq | hin
  · cases heq
  · exact hno ⟨host, service, list, hin⟩

end OneMore

/-- Nothing has been looked for yet. -/
theorem nothing_nil : ¬ Connected ([] : List (Answered A)) ∧ ¬ Made ([] : List (Answered A)) ∧
    ¬ Resolved ([] : List (Answered A)) :=
  ⟨fun ⟨_, _, _, hin⟩ => List.not_mem_nil hin, fun ⟨_, _, _, hin⟩ => List.not_mem_nil hin,
    fun ⟨_, _, _, hin⟩ => List.not_mem_nil hin⟩

/-- **What is left behind.** `S` says of a trace that there was something that had to be given back. -/
def LeftUnless (S : List (Answered A) → Prop) (r : Option Unit) (trace : List (Answered A)) : Prop :=
  ∃ held, Has AfterClose held trace ∧ (r = some () → (held = ∅ ↔ (S trace → Connected trace)))

/-- When there was no connection and `S` says what is had. -/
theorem leftUnless_of_not_connected {S : List (Answered A) → Prop} {r : Option Unit}
    (h : Has AfterClose held trace) (hno : ¬ Connected trace) (hS : held = ∅ ↔ ¬ S trace) :
    LeftUnless S r trace :=
  ⟨held, h, fun _ => hS.trans ⟨fun hnot hS => absurd hS hnot, fun himp hS => hno (himp hS)⟩⟩

theorem wp_dialled {host service : Bytes} {withoutSocket : AddrInfo A → Program A Unit}
    {talk : AddrInfo A → Int → Program A (Option Unit)} {S : List (Answered A) → Prop}
    (hnothing : ∀ t, ¬ Made t → ¬ Resolved t → ¬ S t) (hboth : ∀ t, Made t → Resolved t → S t)
    (hwithout : ∀ addr_server t, Has AfterClose {.list addr_server.name} t → ¬ Connected t → ¬ Made t →
      Resolved t → wp Fresh (withoutSocket addr_server)
        (fun _ t => ∃ held, Has AfterClose held t ∧ ¬ Connected t ∧ (held = ∅ ↔ ¬ S t)) t)
    (htalk : ∀ addr_server sock_client t, Has AfterClose (both addr_server sock_client) t →
      wp Fresh (talk addr_server sock_client) Left t) :
    wp Fresh (dialled host service withoutSocket talk) (LeftUnless S) [] := by
  obtain ⟨hconnected, hmade, hresolved⟩ := nothing_nil (A := A)
  have hstart : Has (A := A) AfterClose ∅ [] := holds_nil
  -- `getprotobyname`
  refine wp_bind.mpr (wp_plain hstart (fun _ => rfl) (afterClose_of_uses_nil rfl fun _ => nofun)
    fun found h => ?_)
  rw [← connected_cons (c := .getprotobyname (ofText "tcp")) (r := found) fun _ _ _ => nofun] at hconnected
  rw [← made_cons (c := .getprotobyname (ofText "tcp")) (r := found) fun _ => nofun] at hmade
  rw [← resolved_cons (c := .getprotobyname (ofText "tcp")) (r := found) fun _ _ => nofun] at hresolved
  split
  · exact leftUnless_of_not_connected h hconnected (iff_of_true rfl (hnothing _ hmade hresolved))
  -- `getaddrinfo`
  have hmay : AfterClose (A := A) (.getaddrinfo (some host) service) ∅ :=
    afterClose_of_uses_nil rfl fun _ => nofun
  refine wp_bind.mpr (wp_getaddrinfo h hmay (fun h => ?_) fun addr_server _ h => ?_)
  · rw [← connected_cons (c := .getaddrinfo (some host) service) (r := none) fun _ _ _ => nofun] at hconnected
    rw [← made_cons (c := .getaddrinfo (some host) service) (r := none) fun _ => nofun] at hmade
    exact leftUnless_of_not_connected h hconnected
      (iff_of_true rfl (hnothing _ hmade (not_resolved_none hresolved)))
  rw [← connected_cons (c := .getaddrinfo (some host) service) (r := some addr_server)
    fun _ _ _ => nofun] at hconnected
  rw [← made_cons (c := .getaddrinfo (some host) service) (r := some addr_server) fun _ => nofun] at hmade
  have hresolved : Resolved ((⟨.getaddrinfo (some host) service, some addr_server⟩ : Answered A) ::
    [⟨.getprotobyname (ofText "tcp"), found⟩]) := ⟨_, _, _, List.mem_cons_self⟩
  -- `socket`
  refine wp_bind.mpr (wp_socket h (afterClose_insert rfl fun _ => nofun) (fun fd hneg h => ?_)
    fun fd hpos _ h => ?_)
  · rw [if_pos hneg]
    rw [← connected_cons (c := .socket addr_server.name) (r := fd) fun _ _ _ => nofun] at hconnected
    rw [← resolved_cons (c := .socket addr_server.name) (r := fd) fun _ _ => nofun] at hresolved
    refine wp_bind.mpr (wp_mono (hwithout _ _ h hconnected (not_made_socket hneg hmade) hresolved) ?_)
    rintro _ t ⟨held, h, hno, hS⟩
    exact leftUnless_of_not_connected h hno hS
  · rw [if_neg hpos]
    rw [← connected_cons (c := .socket addr_server.name) (r := fd) fun _ _ _ => nofun] at hconnected
    rw [← resolved_cons (c := .socket addr_server.name) (r := fd) fun _ _ => nofun] at hresolved
    refine wp_bind.mpr (wp_mono (wp_suffix (wp_connectAny h hconnected)) ?_)
    rintro rc t ⟨⟨h, hrc⟩, hsuffix⟩
    have hS : S t := by
      obtain ⟨host, service, list, hin⟩ := hresolved
      exact hboth t ⟨_, fd, Int.not_lt.mp hpos, hsuffix.subset List.mem_cons_self⟩
        ⟨host, service, list, hsuffix.subset hin⟩
    split
    next hfail =>
      refine leftUnless_of_not_connected h (mt hrc.mpr hfail) (iff_of_false ?_ fun hno => hno hS)
      exact Finset.insert_ne_empty _ _
    next hzero =>
      refine wp_mono (wp_suffix (htalk addr_server fd t h)) ?_
      rintro r u ⟨⟨held, hheld, hnone⟩, hlater⟩
      obtain ⟨fd', list, addr, hin⟩ := hrc.mp (not_not.mp hzero)
      have hconnected : Connected u := ⟨fd', list, addr, hlater.subset hin⟩
      exact ⟨held, hheld, fun hr => iff_of_true (hnone hr) fun _ => hconnected⟩

end Connecting

/-! ## The programs as a whole -/

/-- The TLS clients. -/
inductive Client where
  | sslClientServer
  | httpsClient (hostname port : Bytes)

/-- The program. -/
def Client.program : Client → ℕ → Program A (Option Unit)
  | .sslClientServer => runClient
  | .httpsClient hostname port => performHttpsRequest hostname port

/-- There was something it does not give back without a connection: a socket (then there is a list as well), and
for `perform_https_request` a list. -/
def Client.Owes : Client → List (Answered A) → Prop
  | .sslClientServer => Made
  | .httpsClient _ _ => Resolved

theorem wp_program (client : Client) (n : ℕ) :
    wp Fresh (client.program (A := A) n) (LeftUnless client.Owes) [] := by
  rcases client with _ | ⟨hostname, port⟩
  · refine wp_dialled (fun t hmade _ => hmade) (fun t hmade _ => hmade) ?_ fun addr_server sock_client t h => ?_
    · intro addr_server t h hno hmade _
      have h : Has AfterClose (insert (.list addr_server.name) ∅) t := h
      refine wp_takesBack h (Finset.notMem_empty _) (fun _ => rfl) (afterClose_insert rfl fun _ => nofun)
        fun r h => ⟨∅, h, ?_, iff_of_true rfl ?_⟩
      · exact (connected_cons (c := .freeaddrinfo addr_server.name) fun _ _ _ => nofun).not.mpr hno
      · exact (made_cons (c := .freeaddrinfo addr_server.name) fun _ => nofun).not.mpr hmade
    · exact wp_overTls givesBack_contextFirst (fun ssl held hssl => retains_loop (keeps_asks hssl) n ()) h
  · refine wp_dialled (fun t _ hno => hno) (fun t _ hresolved => hresolved) ?_
      fun addr_server sock_client t h => ?_
    · intro addr_server t h hno _ hresolved
      exact ⟨_, h, hno, iff_of_false (Finset.singleton_ne_empty _) fun hnot => hnot hresolved⟩
    · exact wp_overTls givesBack_contextLast (fun ssl held hssl => keeps_asksForRoot hssl) h

section Runs

variable (client : Client) (n : ℕ) (env : List (Answered A) → (c : Call A) → c.Answer)

/-- **When the TLS clients clean up.** Whatever the system answers (as long as it hands out nothing that is in
use) and whatever is typed: when the function returns, every list, socket, context and TLS object has been given
back exactly once if and only if a connection was made or there was nothing to give back. -/
theorem gives_back_iff
    (henv : EachCall (fun d earlier => Fresh earlier d) (exec env (client.program n) []).2)
    (hreturned : (exec env (client.program n) []).1 = some ()) :
    ClosedOnce (history op (exec env (client.program n) []).2) ↔
      (client.Owes (exec env (client.program n) []).2 → Connected (exec env (client.program n) []).2) := by
  obtain ⟨held, h, hheld⟩ := wp_exec (wp_program client n) henv
  rw [h.closedOnce_iff]
  exact hheld hreturned

/-- **`close_notify` is never sent.** At any time every list, socket, context and TLS object was open when it
was used; but whenever `SSL_shutdown` is called, the program has no open socket any more. -/
theorem shutdown_finds_no_socket
    (henv : EachCall (fun d earlier => Fresh earlier d) (exec env (client.program n) []).2) :
    EachCall (fun d earlier => d.1.Needs (openFds ∅ (history op earlier)) ∧
      ∀ ssl, d.1 = .sslShutdown ssl → ∀ fd, .sock fd ∉ openFds ∅ (history op earlier))
      (exec env (client.program n) []).2 := by
  obtain ⟨held, h, -⟩ := wp_exec (wp_program client n) henv
  exact h.inOrder

end Runs

/-- A system with one address that cannot be connected. -/
def refuses (trace : List (Answered Unit)) : (c : Call Unit) → c.Answer
  | .connect _ _ _ => (-1 : Int)
  | c => LinuxNet.Tutorials.RunClient.exits trace c

/-- `run_client` leaves a socket and a list behind. -/
theorem gives_back_iff_refuses :
    ¬ ClosedOnce (history op (exec refuses (Client.sslClientServer.program 0) []).2) := by
  have htrace : (exec refuses (Client.sslClientServer.program 0) []).2 =
      [⟨.connect 3 1 (), (-1 : Int)⟩, ⟨.socket 1, (3 : Int)⟩,
        ⟨.getaddrinfo (some (ofText "localhost")) (ofText "4443"), some ⟨1, (), []⟩⟩,
        ⟨.getprotobyname (ofText "tcp"), true⟩] := rfl
  rw [gives_back_iff .sslClientServer 0 refuses (by decide) rfl, htrace]
  intro himp
  obtain ⟨fd, list, addr, hin⟩ := himp ⟨1, 3, by decide, List.mem_cons_of_mem _ List.mem_cons_self⟩
  simp only [List.mem_cons, List.not_mem_nil, or_false] at hin
  rcases hin with heq | heq | heq | heq
  all_goals cases heq

/-- A user leaves at once; `SSL_shutdown` is called before the last call. -/
theorem shutdown_finds_no_socket_exits :
    ∃ earlier : List (Answered Unit), (exec LinuxNet.Tutorials.RunClient.exits
        (Client.sslClientServer.program 1) []).2 = ⟨.sslFree 1, ()⟩ :: ⟨.sslShutdown 1, ()⟩ :: earlier ∧
      ∀ fd, .sock fd ∉ openFds ∅ (history op earlier) := by
  have hcalls := shutdown_finds_no_socket .sslClientServer 1 LinuxNet.Tutorials.RunClient.exits (by decide)
  exact ⟨_, rfl, hcalls.2.1.2 1 rfl⟩

end LinuxNet.Openssl.RunClient
