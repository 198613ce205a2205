/-
# LinuxNet.Tutorials.PollServer.Readiness — does the poll server read only what poll reported?

The client sockets block, so a `recv` on a client that `poll` has not reported may stop the whole
server. The loop reads slot `i` when `fds[i].revents` has `POLLIN`; but `revents` belongs to the slot,
and descriptors move. Removing a client copies the *descriptor* of the last slot into the hole and
leaves the old `revents` there, so the moved client is read although it was not reported; and a client
stored in a free slot finds there the `revents` of an earlier round.

`recv_unreported` is such a run. `recv_of_movesReady` says that these two moves are the only ones: in a
run in which every moved descriptor was itself reported and every slot given to a new client is clean,
each round reads reported clients only.
-/
import LinuxNet.Tutorials.PollServer.Table

namespace LinuxNet.Tutorials.PollServer

open LinuxNet.Lib LinuxNet.Lib.FdLedger LinuxNet.Posix

/-- In the current round `recv` was called only on descriptors this round's `poll` reported. -/
def RecvOnlyReported (s : State) : Prop := ∀ d, Call.recv d ∈ s.round → d ∈ s.reported

/-- The first slot the round has still to look at. -/
def Phase.next? : Phase → Option ℕ
  | .listener => some 0
  | .clients i => some i
  | .polling | .exited | .fault _ => none

/-- **The condition on a step.** A client is stored in a slot without a left-over `POLLIN`, and the
descriptor that refills a slot before the last one comes from a slot with `POLLIN`. -/
def MovesReady (s : State) : Event → Prop
  | .accept sock_client =>
    0 ≤ sock_client → s.nfds < maxConnection → ∀ p ∈ s.fds.get? s.nfds, p.readable = false
  | .serve received _ sent_bytes =>
    disconnects received sent_bytes = true → ∀ i ∈ s.phase.next?, i + 1 < s.nfds →
      ∀ q ∈ s.fds.get? (s.nfds - 1), q.readable = true
  | _ => True

instance (s : State) : (e : Event) → Decidable (MovesReady s e)
  | .accept sock_client => inferInstanceAs (Decidable
      (0 ≤ sock_client → s.nfds < maxConnection → ∀ p ∈ s.fds.get? s.nfds, p.readable = false))
  | .serve received _ sent_bytes => inferInstanceAs (Decidable
      (disconnects received sent_bytes = true → ∀ i ∈ s.phase.next?, i + 1 < s.nfds →
        ∀ q ∈ s.fds.get? (s.nfds - 1), q.readable = true))
  | .poll _ _ | .tau => isTrue trivial

/-! ## The invariant of a round -/

/-- Every slot still to be looked at whose `revents` has `POLLIN` holds a reported descriptor. -/
structure ReadyInv (s : State) : Prop where
  range : InRange s
  ahead : ∀ i, s.phase.next? = some i → ∀ j p, i ≤ j → j < s.nfds → s.fds.get? j = some p →
    p.readable = true → p.fd ∈ s.reported
  recvs : RecvOnlyReported s

namespace ReadyInv

variable {s t : State}

/-- Later in a round less is ahead: a step that leaves `fds` alone and reads no client. -/
theorem advance (hs : ReadyInv s) {i : ℕ} (hphase : s.phase.next? = some i) (hfds : t.fds = s.fds)
    (hnfds : t.nfds = s.nfds) (hreported : t.reported = s.reported)
    (hnext : ∀ k, t.phase.next? = some k → i ≤ k) (hrecvs : RecvOnlyReported t) : ReadyInv t := by
  refine ⟨⟨by rw [hnfds]; exact hs.range.pos, by rw [hnfds]; exact hs.range.le⟩, ?_, hrecvs⟩
  intro k hk j p hkj hj hp hr
  rw [hreported]
  rw [hfds] at hp
  exact hs.ahead i hphase j p ((hnext k hk).trans hkj) (hnfds ▸ hj) hp hr

/-- More calls in the same round, each `recv` among them on a reported descriptor. -/
theorem recvs_append (hs : RecvOnlyReported s) {calls : List Call}
    (hcalls : ∀ c ∈ calls, c.ready? = none) (hrecv : ∀ d, Call.recv d ∈ calls → d ∈ s.reported)
    (ht : t.trace = calls ++ s.trace) : RecvOnlyReported t := by
  intro d hd
  rw [round_append hcalls ht, List.mem_append] at hd
  rw [reported_append hcalls ht]
  rcases hd with hd | hd
  · exact hrecv d hd
  · exact hs d hd

/-- The slot a new client gets has no left-over `POLLIN`, so nothing is ahead that was not before. -/
theorem stores (hs : ReadyInv s) (hphase : s.phase = .listener) {sock_client : Int}
    (hroom : s.nfds < maxConnection)
    (hclean : ∀ p, s.fds.get? s.nfds = some p → p.readable = false) :
    ReadyInv
      { s with
        fds := s.fds.modify s.nfds fun p => { p with fd := sock_client, events := pollIn }
        nfds := s.nfds + 1
        phase := .clients 1
        trace := .stored sock_client :: .accept sock_client :: s.trace } := by
  have hcalls : ∀ c ∈ [Call.stored sock_client, .accept sock_client], c.ready? = none := by
    simp [Call.ready?]
  refine ⟨⟨Nat.succ_pos _, hroom⟩, ?_, recvs_append hs.recvs hcalls (by simp) rfl⟩
  intro i _ j p _ hj hp hr
  rw [reported_append hcalls rfl]
  rw [PollArray.get?_modify] at hp
  split at hp
  next hnew =>
    subst hnew
    obtain ⟨c, hc, rfl⟩ := Option.map_eq_some_iff.mp hp
    have hnot : c.readable = false := hclean c hc
    have hsame : c.readable = true := hr
    rw [hnot] at hsame
    cases hsame
  next hold =>
    have hj' : j < s.nfds := by
      have hlt : j < s.nfds + 1 := hj
      omega
    exact hs.ahead 0 (by rw [hphase]; rfl) j p (Nat.zero_le j) hj' hp hr

/-- A slot refilled from a slot with `POLLIN` holds a reported descriptor. -/
theorem refill (hs : ReadyInv s) {i : ℕ} {q : PollFd} {calls : List Call}
    (hphase : s.phase = .clients i) (hi : 1 ≤ i) (hlt : i < s.nfds)
    (hq : s.fds.get? (s.nfds - 1) = some q) (hready : i + 1 < s.nfds → q.readable = true)
    (hcalls : ∀ c ∈ calls, c.ready? = none) (hrecv : ∀ d, Call.recv d ∈ calls → d ∈ s.reported) :
    ReadyInv (s.refill i q.fd calls) := by
  have hle := hs.range.le
  have hpos : 1 ≤ s.nfds - 1 := by omega
  refine ⟨⟨hpos, (Nat.sub_le _ _).trans hle⟩, ?_, recvs_append hs.recvs hcalls hrecv rfl⟩
  intro k hk j r hkj hj hr hread
  obtain rfl : i = k := Option.some.inj hk
  rw [reported_append (t := s.refill i q.fd calls) hcalls rfl]
  have hj' : j < s.nfds - 1 := hj
  have hget : (s.refill i q.fd calls).fds.get? j =
      (s.fds.modify i fun p => { p with fd := q.fd }).get? j := rfl
  rw [hget, PollArray.get?_modify] at hr
  have hnext : s.phase.next? = some i := by rw [hphase]; rfl
  split at hr
  next hij =>
    obtain ⟨c, hc, rfl⟩ := Option.map_eq_some_iff.mp hr
    exact hs.ahead i hnext (s.nfds - 1) q (by omega) (by omega) hq (hready (by omega))
  next hij => exact hs.ahead i hnext j r hkj (by omega) hr hread

/-! ## The step lemma and the run lemma -/

theorem of_step {e : Event} (hs : ReadyInv s) (hok : MovesReady s e) (h : step s e = some t) :
    ReadyInv t := by
  have hrange : InRange t := hs.range.of_step h
  cases Step.of_step hs.range h with
  | pollFails hphase _ =>
      have hcalls : ∀ c ∈ [Call.close s.sock_server], c.ready? = none := by simp [Call.ready?]
      exact ⟨hrange, by simp [Phase.next?], recvs_append hs.recvs hcalls (by simp) rfl⟩
  | @polls activity revents hphase hact =>
      refine ⟨hrange, ?_, ?_⟩
      · intro i _ j p _ hj hp hr
        rw [reported_poll rfl]
        exact PollArray.mem_readyFds.mpr ⟨j, p, hj, hp, hr, rfl⟩
      · intro d hd
        rw [round_poll rfl] at hd
        cases hd
  | @acceptFails sock_client hphase _ =>
      have hcalls : ∀ c ∈ [Call.accept sock_client], c.ready? = none := by simp [Call.ready?]
      exact ⟨hrange, by simp [Phase.next?], recvs_append hs.recvs hcalls (by simp) rfl⟩
  | stores hphase hpos hroom => exact hs.stores hphase hroom (hok hpos hroom)
  | @full sock_client hphase _ _ =>
      have hcalls : ∀ c ∈ [Call.accept sock_client], c.ready? = none := by simp [Call.ready?]
      refine hs.advance (by rw [hphase]; rfl) rfl rfl (reported_append hcalls rfl)
        (fun _ _ => Nat.zero_le _) (recvs_append hs.recvs hcalls (by simp) rfl)
  | noListener hphase =>
      exact hs.advance (by rw [hphase]; rfl) rfl rfl rfl (fun _ _ => Nat.zero_le _) hs.recvs
  | @keeps i p _ time _ hphase hi hlt hp hr _ =>
      have hnext : s.phase.next? = some i := by rw [hphase]; rfl
      have hfd : p.fd ∈ s.reported := hs.ahead i hnext i p le_rfl hlt hp hr
      have hcalls : ∀ c ∈ [Call.send p.fd (responseText time), .recv p.fd], c.ready? = none := by
        simp [Call.ready?]
      refine hs.advance hnext rfl rfl (reported_append hcalls rfl) (by simp [Phase.next?]) ?_
      exact recvs_append hs.recvs hcalls (by simpa using hfd) rfl
  | @drops i p q received time _ sends hphase hi hlt hp hr hdrop hq hsends =>
      have hnext : s.phase.next? = some i := by rw [hphase]; rfl
      have hfd : p.fd ∈ s.reported := hs.ahead i hnext i p le_rfl hlt hp hr
      have hready : i + 1 < s.nfds → q.readable = true := fun h => hok hdrop i hnext h q hq
      apply hs.refill hphase hi hlt hq hready
      · rw [hsends]
        split <;> simp [Call.ready?]
      · rw [hsends]
        split <;> simpa using hfd
  | skips hphase _ _ _ _ =>
      exact hs.advance (by rw [hphase]; rfl) rfl rfl rfl (by simp [Phase.next?]) hs.recvs
  | endRound hphase _ =>
      exact ⟨hrange, by simp [Phase.next?], hs.recvs⟩

theorem init (sock_server : Int) : ReadyInv (init sock_server) := by
  refine ⟨inRange_init _, by simp [PollServer.init, Phase.next?], ?_⟩
  intro d hd
  cases hd

end ReadyInv

/-! ## What the server reads -/

/-- **The server reads reported clients only, as long as what it moves was reported.** -/
theorem recv_of_movesReady (sock_server : Int) (s : State)
    (h : Reach step MovesReady (init sock_server) s) : RecvOnlyReported s :=
  (h.invariant (fun _ _ _ hs hok hstep => hs.of_step hok hstep) (ReadyInv.init sock_server)).recvs

/-- Listener 3; clients 4 and 5 connect, and both are reported. The first one has closed its end, and the other
one is read in its slot. -/
def movedRun : List Event :=
  let listener : ℕ → BitVec 16 := fun i => if i = 0 then pollIn else 0
  [.poll 1 listener, .accept 4, .tau, .tau, .poll 1 listener, .accept 5, .tau, .tau, .tau,
    .poll 2 fun i => if i = 1 ∨ i = 2 then pollIn else 0, .tau, .serve (.data []) 0 0,
    .serve (.data [104, 105]) 0 14]

theorem recv_of_movesReady_moved :
    ∃ s, Reach step MovesReady (init 3) s ∧ Call.recv 4 ∈ s.round ∧ Call.recv 5 ∈ s.round ∧ s.clients = [5] ∧
      5 ∈ s.reported := by
  have hrun : (execOk step MovesReady (init 3) movedRun).any
      (fun s => .recv 4 ∈ s.round ∧ .recv 5 ∈ s.round ∧ s.clients = [5]) = true := by decide
  obtain ⟨s, hreach, hs⟩ := exists_reach_of_exec hrun
  obtain ⟨hfirst, hmoved, hclients⟩ := of_decide_eq_true hs
  exact ⟨s, hreach, hfirst, hmoved, hclients, recv_of_movesReady 3 s hreach 5 hmoved⟩

/-- Listener 3; clients 4 and 5 connect; then only 4 is reported and has closed its end. Its slot is
refilled with 5, whose `recv` follows in the same round. -/
def unreportedRun : List Event :=
  [.poll 1 fun i => if i = 0 then pollIn else 0, .accept 4, .tau, .tau,
    .poll 1 fun i => if i = 0 then pollIn else 0, .accept 5, .tau, .tau, .tau,
    .poll 1 fun i => if i = 1 then pollIn else 0, .tau,
    .serve (.data []) 0 0, .serve (.data [104, 105]) 0 14]

/-- **The server reads a client that `poll` has not reported.** -/
theorem recv_unreported :
    ¬ ∀ (others : Finset Int) (sock_server : Int) (s : State),
      Reach step (FreshAccept (insert sock_server others)) (init sock_server) s →
        RecvOnlyReported s := by
  intro hall
  have hrun : (execOk step (FreshAccept (insert 3 {0, 1, 2})) (init 3) unreportedRun).any
      (fun s => .recv 5 ∈ s.round ∧ 5 ∉ s.reported) = true := by decide
  obtain ⟨s, hreach, hs⟩ := exists_reach_of_exec hrun
  obtain ⟨hrecv, hnot⟩ := of_decide_eq_true hs
  exact hnot (hall {0, 1, 2} 3 s hreach 5 hrecv)

end LinuxNet.Tutorials.PollServer
