/-
# LinuxNet.Tutorials.HttpRedirection.Resources — is everything given back when the function returns?

A level of `perform_http_request` that is connected holds an address list and a socket. Eight of its nine
return paths give back what they hold. The ninth, the recursive call, does not: the level it leaves is the
only one that knows of its list and of its socket, so both stay for good.

What a level holds is said by its phase (`Phase.sock`, `Phase.list`), and the histories of sockets and lists
are accounts of it (`Lib.FdLedger.Balanced`) as long as no reply is a redirection.
-/
import LinuxNet.Lib.FdLedger
import LinuxNet.Tutorials.HttpRedirection.Buffers

namespace LinuxNet.Tutorials.HttpRedirection

open LinuxNet.Lib LinuxNet.Lib.FdLedger LinuxNet.Posix

/-! ## What is opened and closed -/

/-- What a call does to the sockets. -/
def Call.sockOp : Call → Option (FdOp Int)
  | .socket http_sock => if http_sock < 0 then none else some (.opened http_sock)
  | .close http_sock => some (.closed http_sock)
  | .getaddrinfo _ _ _ | .freeaddrinfo _ | .connect _ _ | .send _ _ _ | .recv _ _ => none

/-- What a call does to the address lists. -/
def Call.listOp : Call → Option (FdOp ℕ)
  | .getaddrinfo _ _ http_addr => http_addr.map .opened
  | .freeaddrinfo http_addr => some (.closed http_addr)
  | .socket _ | .connect _ _ | .send _ _ _ | .recv _ _ | .close _ => none

/-- The history of the sockets. -/
def sockHistory (trace : List Call) : List (FdOp Int) := trace.filterMap Call.sockOp

/-- The history of the address lists. -/
def listHistory (trace : List Call) : List (FdOp ℕ) := trace.filterMap Call.listOp

/-- The socket the function is using. -/
def Phase.sock : Phase → Finset Int
  | .sending c _ | .receiving c _ => {c.http_sock}
  | .calling _ _ _ | .returned _ => ∅

/-- The address list it is using. -/
def Phase.list : Phase → Finset ℕ
  | .sending c _ | .receiving c _ => {c.http_addr}
  | .calling _ _ _ | .returned _ => ∅

/-- The assumption on the system: a socket that is made is not open, and a list that is made is not in use. -/
def Fresh (s : State) : Event → Prop
  | .opens a =>
    (0 ≤ a.http_sock → a.http_sock ∉ openFds ∅ (sockHistory s.trace)) ∧
      a.http_addr ∉ openFds ∅ (listHistory s.trace)
  | .send _ | .recv _ _ => True

/-- The reply is no redirection, if it is all there. -/
def Phase.Stays : Phase → Received → Bytes → Prop
  | .receiving _ http_response, received, behind =>
    received.received ≤ 0 → newHttpHost (responseMemory http_response behind) = none
  | .calling _ _ _, _, _ | .sending _ _, _, _ | .returned _, _, _ => True

/-- **The condition on a step**: no reply is a redirection. -/
def NotRedirected (s : State) : Event → Prop
  | .recv received behind => s.phase.Stays received behind
  | .opens _ | .send _ => True

instance (s : State) : (e : Event) → Decidable (Fresh s e)
  | .opens a =>
    inferInstanceAs (Decidable ((0 ≤ a.http_sock → a.http_sock ∉ openFds ∅ (sockHistory s.trace)) ∧
      a.http_addr ∉ openFds ∅ (listHistory s.trace)))
  | .send _ | .recv _ _ => isTrue trivial

instance : (phase : Phase) → (received : Received) → (behind : Bytes) →
    Decidable (phase.Stays received behind)
  | .receiving _ http_response, received, behind =>
    inferInstanceAs (Decidable
      (received.received ≤ 0 → newHttpHost (responseMemory http_response behind) = none))
  | .calling _ _ _, _, _ | .sending _ _, _, _ | .returned _, _, _ => isTrue trivial

instance (s : State) : (e : Event) → Decidable (NotRedirected s e)
  | .recv received behind => inferInstanceAs (Decidable (s.phase.Stays received behind))
  | .opens _ | .send _ => isTrue trivial

/-! ## What the calls of a level do -/

section Histories

variable {sock : Int} (trace : List Call)

theorem sockHistory_socket_neg (hneg : sock < 0) : sockHistory (.socket sock :: trace) = sockHistory trace :=
  List.filterMap_cons_none (if_pos hneg)

theorem sockHistory_socket_pos (hpos : 0 ≤ sock) :
    sockHistory (.socket sock :: trace) = .opened sock :: sockHistory trace :=
  List.filterMap_cons_some (if_neg (Int.not_lt.mpr hpos))

variable (host_name port : Bytes) (http_addr : ℕ) (con_rc : Int)

/-- What was opened up to `connect`. -/
theorem sockHistory_connect (hpos : 0 ≤ sock) :
    sockHistory ([.connect sock con_rc, .socket sock, .getaddrinfo host_name port (some http_addr)] ++ trace) =
      .opened sock :: sockHistory trace :=
  sockHistory_socket_pos _ hpos

theorem sockHistory_noConnection (hpos : 0 ≤ sock) :
    sockHistory ([.close sock, .freeaddrinfo http_addr, .connect sock con_rc, .socket sock,
      .getaddrinfo host_name port (some http_addr)] ++ trace) =
      .closed sock :: .opened sock :: sockHistory trace :=
  congrArg (FdOp.closed sock :: ·) (sockHistory_socket_pos _ hpos)

theorem sockHistory_noSocket (hneg : sock < 0) :
    sockHistory ([.freeaddrinfo http_addr, .socket sock, .getaddrinfo host_name port (some http_addr)] ++
      trace) = sockHistory trace :=
  sockHistory_socket_neg _ hneg

end Histories

/-! ## The steps -/

/-- The accounts of a state. -/
def SockAccount (P : Finset Int → List (FdOp Int) → Prop) (s : State) : Prop :=
  P s.phase.sock (sockHistory s.trace)

def ListAccount (P : Finset ℕ → List (FdOp ℕ) → Prop) (s : State) : Prop :=
  P s.phase.list (listHistory s.trace)

/-- A level that is not left by a recursive call keeps both accounts. -/
theorem accounts_of_step {P : Finset Int → List (FdOp Int) → Prop} {Q : Finset ℕ → List (FdOp ℕ) → Prop}
    (hP : Kept P) (hQ : Kept Q) {s t : State} {e : Event} (hs : SockAccount P s ∧ ListAccount Q s)
    (hfresh : Fresh s e) (hstay : NotRedirected s e) (h : step s e = some t) :
    SockAccount P t ∧ ListAccount Q t := by
  unfold SockAccount ListAccount at hs ⊢
  rcases Step.of_step h with ⟨hphase, -⟩ | ⟨hphase, -, -⟩ | ⟨hphase, -, -⟩ | ⟨hphase, -, -, hneg⟩ |
    ⟨hphase, -, -, hpos, -⟩ | ⟨hphase, -, -, hpos, -⟩ | ⟨hphase, -⟩ | ⟨hphase, -, -⟩ | ⟨hphase, -, -⟩ |
    ⟨hphase, -⟩ | ⟨hphase, hend, hhost⟩ | ⟨hphase, -, -⟩
  all_goals
    rw [hphase] at hs
    obtain ⟨hsock, hlist⟩ := hs
  case noSocket =>
    rw [sockHistory_noSocket s.trace _ _ _ hneg]
    exact ⟨hsock, hQ.used hlist hfresh.2⟩
  case noConnection =>
    rw [sockHistory_noConnection s.trace _ _ _ _ hpos]
    exact ⟨hP.used hsock (hfresh.1 hpos), hQ.used hlist hfresh.2⟩
  case connects =>
    rw [sockHistory_connect s.trace _ _ _ _ hpos]
    exact ⟨hP.opened_only hsock (hfresh.1 hpos), hQ.opened_only hlist hfresh.2⟩
  case sendFails => exact ⟨hP.closed_only hsock, hQ.closed_only hlist⟩
  case redirects =>
    simp only [NotRedirected, hphase, Phase.Stays] at hstay
    rw [hstay hend] at hhost
    cases hhost
  case finishes => exact ⟨hP.closed_only hsock, hQ.closed_only hlist⟩
  all_goals exact ⟨hsock, hlist⟩

/-- A recursive call leaves the socket and the list of its level behind. -/
theorem leaked_of_redirected {s t : State} {e : Event} (hs : SockAccount Account s ∧ ListAccount Account s)
    (hgo : ¬ NotRedirected s e) (h : step s e = some t) : SockAccount Leaked t ∧ ListAccount Leaked t := by
  unfold SockAccount ListAccount at hs ⊢
  rcases Step.of_step h with ⟨-, -⟩ | ⟨-, -, -⟩ | ⟨-, -, -⟩ | ⟨-, -, -, -⟩ | ⟨-, -, -, -, -⟩ |
    ⟨-, -, -, -, -⟩ | ⟨-, -⟩ | ⟨-, -, -⟩ | ⟨-, -, -⟩ | ⟨hphase, hpos⟩ | ⟨hphase, -, -⟩ | ⟨hphase, hend, hnone⟩
  case receives =>
    simp only [NotRedirected, hphase, Phase.Stays] at hgo
    exact absurd (fun hend => absurd hend (Int.not_le.mpr hpos)) hgo
  case redirects c _ _ _ _ =>
    rw [hphase] at hs
    obtain ⟨hsock, hlist⟩ := hs
    exact ⟨hsock.abandon_only, hlist.abandon_only⟩
  case finishes =>
    simp only [NotRedirected, hphase, Phase.Stays] at hgo
    exact absurd (fun _ => hnone) hgo
  all_goals exact absurd trivial hgo

/-! ## The run -/

/-- Everything that is open is in use. -/
def Tidy (s : State) : Prop := SockAccount Balanced s ∧ ListAccount Balanced s

/-- A socket and a list were left behind. -/
def Leaky (s : State) : Prop := SockAccount Leaked s ∧ ListAccount Leaked s

theorem tidy_init (host_name path : Bytes) (response : Option Bytes) (redirect_count : ℕ) :
    Tidy (init host_name path response redirect_count) :=
  ⟨balanced_nil, balanced_nil⟩

/-- A run without a redirection stays tidy, any other one leaks. -/
theorem tidy_or_leaky {s t : State} {es : List Event} (h : Run step Fresh s es t) (hs : Tidy s) :
    Run step NotRedirected s es t ∧ Tidy t ∨ ¬ Run step NotRedirected s es t ∧ Leaky t := by
  refine h.verdict ?_ ?_ hs
  · intro s e t hs hfresh hstep
    by_cases hstay : NotRedirected s e
    · exact .inl ⟨hstay, accounts_of_step kept_balanced kept_balanced hs hfresh hstay hstep⟩
    · exact .inr ⟨hstay, leaked_of_redirected (hs.imp (·.toAccount) (·.toAccount)) hstay hstep⟩
  · intro s e t hs hfresh hstep
    by_cases hstay : NotRedirected s e
    · exact accounts_of_step kept_leaked kept_leaked hs hfresh hstay hstep
    · exact leaked_of_redirected (hs.imp (·.toAccount) (·.toAccount)) hstay hstep

/-- **When everything is given back.** Whatever the resolver, the sockets and the servers answer, as long as a
socket or a list that is made is not one in use: when the outermost call has returned, every socket has been
closed exactly once each time it was opened, and every list freed exactly once, if and only if no reply of the
whole chain was a redirection. -/
theorem resources_iff {host_name path : Bytes} {response : Option Bytes} {redirect_count : ℕ}
    {es : List Event} {t : State} {result : HttpResult}
    (h : Run step Fresh (init host_name path response redirect_count) es t)
    (hreturned : t.phase = .returned result) :
    ClosedOnce (sockHistory t.trace) ∧ ClosedOnce (listHistory t.trace) ↔
      Run step NotRedirected (init host_name path response redirect_count) es t := by
  rcases tidy_or_leaky h (tidy_init host_name path response redirect_count) with
    ⟨hrun, hsock, hlist⟩ | ⟨hno, hsock, -⟩
  · rw [SockAccount, hreturned] at hsock
    rw [ListAccount, hreturned] at hlist
    exact iff_of_true ⟨hsock.closedOnce, hlist.closedOnce⟩ hrun
  · rw [SockAccount] at hsock
    exact iff_of_false (fun hclosed => hsock.not_closedOnce hclosed.1) hno

/-- `/200` is answered with a page. -/
def answered : List Event :=
  [reached 1 3, .send 59, .recv (.data (ofText "HTTP/1.1 200 OK\r\n\r\n")) [], .recv (.data []) []]

theorem resources_iff_answered :
    ∃ t, Run step NotRedirected (init cppHostname (ofText "/200") (some zeroedResponse) 0) answered t ∧
      ClosedOnce (sockHistory t.trace) ∧ ClosedOnce (listHistory t.trace) := by
  have hexec : (execOk step (fun s e => Fresh s e ∧ NotRedirected s e)
      (init cppHostname (ofText "/200") (some zeroedResponse) 0) answered).any
        (fun t => t.phase = .returned .successul) = true := by decide
  obtain ⟨t, hrun, ht⟩ := exists_run_of_exec_any hexec
  have hstays : Run step NotRedirected _ answered t := hrun.mono fun _ _ hok => hok.2
  exact ⟨t, hstays, (resources_iff (hrun.mono fun _ _ hok => hok.1) (of_decide_eq_true ht)).mpr hstays⟩

/-- **After a redirection the socket of the first level is open for good.** -/
theorem redirected_leaks :
    ¬ ∀ (host_name path : Bytes) (response : Option Bytes) (redirect_count : ℕ) (es : List Event) (t : State)
      (result : HttpResult), Run step Fresh (init host_name path response redirect_count) es t →
      t.phase = .returned result →
      ClosedOnce (sockHistory t.trace) ∧ ClosedOnce (listHistory t.trace) := by
  intro hall
  have hexec : (execOk step Fresh (init cppHostname (ofText "/301") (some zeroedResponse) 0) redirected).any
      (fun t => t.phase = .returned .successul ∧ lifetimes 3 (sockHistory t.trace) = [0]) = true := by decide
  obtain ⟨t, hrun, ht⟩ := exists_run_of_exec_any hexec
  obtain ⟨hreturned, hleft⟩ := of_decide_eq_true ht
  have hzero : (0 : ℕ) ∈ lifetimes 3 (sockHistory t.trace) := by
    rw [hleft]
    exact List.mem_singleton_self 0
  cases (hall _ _ _ _ _ t _ hrun hreturned).1 3 0 hzero

end LinuxNet.Tutorials.HttpRedirection
