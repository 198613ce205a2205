/-
# LinuxNet.Http.Server.Listener — does the HTTP server keep its listening socket?

The scan calls `handle_client` on every slot `poll` has *not* reported, slot 0 included: its `else`
stands behind the readiness test, not behind the test for the listener. So a round in which a client is
ready and the listener is not hands the listener to `handle_client`, whose `recv` fails on it, and the
loop closes it as a disconnected client (`listener_lost`).

The listener survives exactly the rounds that report it: in a run whose successful polls all do, it
stays in slot 0, open and unread (`listener_kept`); and after a successful poll that does not report it
the only step is `handle_client` on it (`listener_handled`).
-/
import LinuxNet.Http.Server.Loop

namespace LinuxNet.Http.Server

open LinuxNet.Lib LinuxNet.Lib.FdLedger LinuxNet.Posix LinuxNet.Cpp

/-- The listening socket is in slot 0 of the table, has not been closed and has not been read. -/
structure ListenerKept (s : State) : Prop where
  slot0 : s.slots.head? = some s.sock_server
  notClosed : Call.close s.sock_server ∉ s.trace
  notHandled : Call.handleClient s.sock_server ∉ s.trace

/-- The assumption on `accept`: it does not return the listening socket itself, which is open. -/
def AcceptsOther (s : State) : Event → Prop
  | .accept sock_client => sock_client ≠ s.sock_server
  | _ => True

/-- **The condition on a step**: a `poll` that succeeds reports the listening socket. -/
def ListenerReported (_ : State) : Event → Prop
  | .poll rc_poll revents => 0 ≤ rc_poll → hasPollIn (revents 0) = true
  | _ => True

/-- The slot under the scan. -/
def State.scanned? (s : State) : Option PollFd :=
  match s.phase with
  | .scan i => s.fds.get? i
  | .polling | .stopped | .fault _ => none

/-- The assumption on `handle_client`: `recv` fails on a listening socket. -/
def RecvFailsOnListener (s : State) : Event → Prop
  | .handled outcome => ∀ p ∈ s.scanned?, p.fd = s.sock_server → outcome = .ok .disconnect
  | _ => True

instance (s : State) : (e : Event) → Decidable (AcceptsOther s e)
  | .accept sock_client => inferInstanceAs (Decidable (sock_client ≠ s.sock_server))
  | .poll _ _ | .handled _ | .tau => isTrue trivial

instance (s : State) : (e : Event) → Decidable (ListenerReported s e)
  | .poll rc_poll revents =>
    inferInstanceAs (Decidable (0 ≤ rc_poll → hasPollIn (revents 0) = true))
  | .accept _ | .handled _ | .tau => isTrue trivial

instance (s : State) : (e : Event) → Decidable (RecvFailsOnListener s e)
  | .handled outcome =>
    inferInstanceAs (Decidable (∀ p ∈ s.scanned?, p.fd = s.sock_server → outcome = .ok .disconnect))
  | .poll _ _ | .accept _ | .tau => isTrue trivial

/-! ## The invariant -/

/-- What keeps the listener: it is in slot 0 and in no other slot of the table, and whenever the scan
is about to look at slot 0 that slot is readable. -/
structure ListenerInv (s : State) : Prop where
  pos : 0 < s.nfds
  le : s.nfds ≤ maxConnection
  first : ∀ p, s.fds.get? 0 = some p → p.fd = s.sock_server
  later : ∀ j p, 0 < j → j < s.nfds → s.fds.get? j = some p → p.fd ≠ s.sock_server
  ready : s.phase = .scan 0 → ∀ p, s.fds.get? 0 = some p → p.readable = true
  notClosed : Call.close s.sock_server ∉ s.trace
  notHandled : Call.handleClient s.sock_server ∉ s.trace

namespace ListenerInv

variable {s t : State}

/-- A slot that is not readable when the scan looks at it holds a client. -/
theorem client_of_not_readable (hs : ListenerInv s) {i : ℕ} {p : PollFd} (hphase : s.phase = .scan i)
    (hlt : i < s.nfds) (hp : s.fds.get? i = some p) (hr : p.readable = false) :
    0 < i ∧ p.fd ≠ s.sock_server := by
  have hi : i ≠ 0 := by
    rintro rfl
    rw [hs.ready hphase p hp] at hr
    cases hr
  have hpos : 0 < i := Nat.pos_of_ne_zero hi
  exact ⟨hpos, hs.later i p hpos hlt hp⟩

/-- A step that leaves the table alone and calls nothing on the listener. -/
theorem of_calls (hs : ListenerInv s) (calls : List Call) (hfds : t.fds = s.fds)
    (hnfds : t.nfds = s.nfds) (hsock : t.sock_server = s.sock_server)
    (hphase : t.phase ≠ .scan 0) (htrace : t.trace = calls ++ s.trace)
    (hclose : Call.close s.sock_server ∉ calls) (hhandle : Call.handleClient s.sock_server ∉ calls) :
    ListenerInv t := by
  refine ⟨by rw [hnfds]; exact hs.pos, by rw [hnfds]; exact hs.le, ?_, ?_, ?_, ?_, ?_⟩
  · rw [hfds, hsock]
    exact hs.first
  · rw [hfds, hsock, hnfds]
    exact hs.later
  · intro h
    exact absurd h hphase
  · rw [htrace, hsock, List.mem_append, not_or]
    exact ⟨hclose, hs.notClosed⟩
  · rw [htrace, hsock, List.mem_append, not_or]
    exact ⟨hhandle, hs.notHandled⟩

/-- A poll that reports the listener. -/
theorem polls (hs : ListenerInv s) {revents : ℕ → BitVec 16} (hready : hasPollIn (revents 0) = true)
    (ready : List Int) :
    ListenerInv
      { s with
        fds := s.fds.report s.nfds revents
        phase := .scan 0
        trace := .poll ready :: s.trace } := by
  refine ⟨hs.pos, hs.le, ?_, ?_, ?_, by simpa using hs.notClosed, by simpa using hs.notHandled⟩
  · intro p hp
    rw [PollArray.get?_report] at hp
    obtain ⟨q, hq, rfl⟩ := Option.map_eq_some_iff.mp hp
    rw [if_pos hs.pos]
    exact hs.first q hq
  · intro j p hj hlt hp
    rw [PollArray.get?_report] at hp
    obtain ⟨q, hq, rfl⟩ := Option.map_eq_some_iff.mp hp
    have hlt' : j < s.nfds := hlt
    rw [if_pos hlt']
    exact hs.later j q hj hlt' hq
  · intro _ p hp
    rw [PollArray.get?_report] at hp
    obtain ⟨q, -, rfl⟩ := Option.map_eq_some_iff.mp hp
    rw [if_pos hs.pos]
    exact hready

/-- A new client gets a slot behind the listener. -/
theorem stores (hs : ListenerInv s) (i : ℕ) {sock_client : Int} (hroom : s.nfds < maxConnection)
    (hother : sock_client ≠ s.sock_server) : ListenerInv (s.store i sock_client) := by
  have hpos := hs.pos
  refine ⟨Nat.succ_pos _, hroom, ?_, ?_, by simp [State.store], ?_, ?_⟩
  · intro p hp
    rw [State.store, PollArray.get?_modify_ne _ _ (by omega)] at hp
    exact hs.first p hp
  · intro j p hj hlt hp
    have hlt' : j < s.nfds + 1 := hlt
    rw [State.store, PollArray.get?_modify] at hp
    split at hp
    next =>
      obtain ⟨c, -, rfl⟩ := Option.map_eq_some_iff.mp hp
      exact hother
    next => exact hs.later j p hj (by omega) hp
  · show Call.close s.sock_server ∉ .stored sock_client :: .accept sock_client :: s.trace
    simpa using hs.notClosed
  · show Call.handleClient s.sock_server ∉ .stored sock_client :: .accept sock_client :: s.trace
    simpa using hs.notHandled

/-- A client is removed: slot 0 stays, and a later slot is filled from a later slot. -/
theorem refill (hs : ListenerInv s) {i : ℕ} {p q : PollFd} (hi : 0 < i) (hlt : i < s.nfds)
    (hq : s.fds.get? (s.nfds - 1) = some q) (hclient : p.fd ≠ s.sock_server) :
    ListenerInv (s.refill i p q) := by
  have hle := hs.le
  have hlast : q.fd ≠ s.sock_server := hs.later (s.nfds - 1) q (by omega) (by omega) hq
  refine ⟨?_, (Nat.sub_le _ _).trans hle, ?_, ?_, by simp [State.refill], ?_, ?_⟩
  · show 0 < s.nfds - 1
    omega
  · intro r hr
    rw [State.refill, PollArray.get?_modify_ne _ _ (by omega)] at hr
    exact hs.first r hr
  · intro j r hj hjlt hr
    have hjlt' : j < s.nfds - 1 := hjlt
    rw [State.refill, PollArray.get?_modify] at hr
    split at hr
    next =>
      obtain ⟨c, -, rfl⟩ := Option.map_eq_some_iff.mp hr
      exact hlast
    next => exact hs.later j r hj (by omega) hr
  · show Call.close s.sock_server ∉ .close p.fd :: .handleClient p.fd :: s.trace
    simpa [Ne.symm hclient] using hs.notClosed
  · show Call.handleClient s.sock_server ∉ .close p.fd :: .handleClient p.fd :: s.trace
    simpa [Ne.symm hclient] using hs.notHandled

theorem of_step {e : Event} (hs : ListenerInv s) (hother : AcceptsOther s e)
    (hreported : ListenerReported s e) (h : step s e = some t) : ListenerInv t := by
  cases Step.of_step hs.le h with
  | pollFails _ _ => exact hs.of_calls [] rfl rfl rfl (by simp) rfl (by simp) (by simp)
  | polls _ hrc => exact hs.polls (hreported hrc) _
  | acceptFails _ _ _ _ _ _ | full _ _ _ _ _ _ _ =>
      exact hs.of_calls [_] rfl rfl rfl (by simp) rfl (by simp) (by simp)
  | stores _ _ _ _ _ _ hroom => exact hs.stores _ hroom hother
  | ignores _ _ _ _ _ | endRound _ _ =>
      exact hs.of_calls [] rfl rfl rfl (by simp) rfl (by simp) (by simp)
  | throws hphase hlt hp hr | waits hphase hlt hp hr =>
      obtain ⟨-, hclient⟩ := hs.client_of_not_readable hphase hlt hp hr
      exact hs.of_calls [_] rfl rfl rfl (by simp) rfl (by simp)
        (by simpa using Ne.symm hclient)
  | drops hphase hlt hp hr _ hq =>
      obtain ⟨hi, hclient⟩ := hs.client_of_not_readable hphase hlt hp hr
      exact hs.refill hi hlt hq hclient

theorem init (garbage : PollArray maxConnection) (sock_server : Int) :
    ListenerInv (init garbage sock_server) := by
  refine ⟨Nat.one_pos, Nat.le_of_ble_eq_true rfl, ?_, ?_, by simp [Server.init], by simp [Server.init],
    by simp [Server.init]⟩
  · intro p hp
    rw [Server.init, PollArray.get?_modify_self] at hp
    obtain ⟨q, -, rfl⟩ := Option.map_eq_some_iff.mp hp
    rfl
  · intro j p hj hlt
    have hlt' : j < 1 := hlt
    omega

theorem kept (hs : ListenerInv s) : ListenerKept s := by
  obtain ⟨p, hp⟩ := s.fds.exists_get? (i := 0) (by decide)
  refine ⟨?_, hs.notClosed, hs.notHandled⟩
  show (s.fds.slots s.nfds).head? = some s.sock_server
  rw [List.head?_eq_getElem?, PollArray.getElem?_slots, if_pos hs.pos, hp, Option.map_some, hs.first p hp]

end ListenerInv

/-! ## The fate of the listener -/

/-- **The listener stays while every round reports it.** -/
theorem listener_kept (garbage : PollArray maxConnection) (sock_server : Int) (s : State)
    (h : Reach step (fun s e => AcceptsOther s e ∧ ListenerReported s e) (init garbage sock_server) s) :
    ListenerKept s := by
  have hinv : ListenerInv s :=
    h.invariant (fun _ _ _ hs hok hstep => hs.of_step hok.1 hok.2 hstep)
      (ListenerInv.init garbage sock_server)
  exact hinv.kept

/-- A client connects, is served and closed, and the listener is still there. -/
theorem listener_kept_one_client :
    ∃ s, Reach step (fun s e => AcceptsOther s e ∧ ListenerReported s e)
        (init (.filled ⟨0, 0, 0⟩) 3) s ∧ Call.close 4 ∈ s.trace ∧ ListenerKept s := by
  have hrun : (execOk step (fun s e => AcceptsOther s e ∧ ListenerReported s e)
      (init (.filled ⟨0, 0, 0⟩) 3)
      [.poll 1 fun i => if i = 0 then pollIn else 0, .accept 4, .handled (.ok .completed)]).any
      (fun s => .close 4 ∈ s.trace) = true := by decide
  obtain ⟨s, hreach, hs⟩ := exists_reach_of_exec hrun
  exact ⟨s, hreach, of_decide_eq_true hs, listener_kept _ 3 s hreach⟩

/-- At a slot that is not readable the only step is `handle_client` on its descriptor. -/
theorem handled_of_not_readable {s t : State} {e : Event} {i : ℕ} {p : PollFd}
    (h : step s e = some t) (hle : s.nfds ≤ maxConnection) (hphase : s.phase = .scan i)
    (hlt : i < s.nfds) (hp : s.fds.get? i = some p) (hr : p.readable = false) :
    Call.handleClient p.fd ∈ t.trace := by
  cases Step.of_step hle h with
  | pollFails hphase' _ | polls hphase' _ =>
      rw [hphase] at hphase'
      cases hphase'
  | endRound hphase' hend =>
      obtain rfl := scan_inj hphase hphase'
      omega
  | acceptFails hphase' _ hp' hr' _ _ | stores hphase' _ hp' hr' _ _ _ | full hphase' _ hp' hr' _ _ _
  | ignores hphase' _ hp' hr' _ =>
      obtain rfl := scan_inj hphase hphase'
      obtain rfl := Option.some.inj (hp.symm.trans hp')
      rw [hr] at hr'
      cases hr'
  | throws hphase' _ hp' _ | waits hphase' _ hp' _ | drops hphase' _ hp' _ _ _ =>
      obtain rfl := scan_inj hphase hphase'
      obtain rfl := Option.some.inj (hp.symm.trans hp')
      simp [State.refill]

/-- **The condition leaves out nothing that is safe**: when a successful poll does not report the
listener, the next step of the loop is `handle_client` on it. -/
theorem listener_handled {s u t : State} (hs : ListenerInv s) {rc_poll : Int}
    {revents : ℕ → BitVec 16} (hrc : 0 ≤ rc_poll) (hready : hasPollIn (revents 0) = false)
    (hpoll : step s (.poll rc_poll revents) = some u) {e : Event} (h : step u e = some t) :
    Call.handleClient s.sock_server ∈ t.trace := by
  cases Step.of_step hs.le hpoll with
  | pollFails _ hneg => omega
  | polls hphase _ =>
      obtain ⟨p, hp⟩ := s.fds.exists_get? (i := 0) (by decide)
      have hslot : (s.fds.report s.nfds revents).get? 0 = some { p with revents := revents 0 } := by
        rw [PollArray.get?_report, hp, Option.map_some, if_pos hs.pos]
      have hcall := handled_of_not_readable h hs.le rfl hs.pos hslot hready
      rwa [hs.first p hp] at hcall

/-- Listener 3; client 4 is stored in slot 1, whose `revents` happens to have `POLLIN`. In the next round
only the client is reported. -/
def losingRun : List Event :=
  [.poll 1 fun i => if i = 0 then pollIn else 0, .accept 4, .tau, .tau,
    .poll 1 fun i => if i = 1 then pollIn else 0, .handled (.ok .disconnect)]

/-- **The server closes its own listening socket.** -/
theorem listener_lost :
    ¬ ∀ (others : Finset Int) (garbage : PollArray maxConnection) (sock_server : Int) (s : State),
      Reach step (fun s e => FreshAccept (insert sock_server others) s e ∧ RecvFailsOnListener s e)
        (init garbage sock_server) s → ListenerKept s := by
  intro hall
  have hrun : (execOk step (fun s e => FreshAccept (insert 3 {0, 1, 2}) s e ∧ RecvFailsOnListener s e)
      (init (.filled ⟨0, 0, pollIn⟩) 3) losingRun).any
      (fun s => s.sock_server = 3 ∧ .close 3 ∈ s.trace) = true := by decide
  obtain ⟨s, hreach, hs⟩ := exists_reach_of_exec hrun
  obtain ⟨hsock, hclosed⟩ := of_decide_eq_true hs
  have hkept := (hall {0, 1, 2} _ 3 s hreach).notClosed
  rw [hsock] at hkept
  exact hkept hclosed

end LinuxNet.Http.Server
