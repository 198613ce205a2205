/-
# LinuxNet.Tutorials.PollServer.Service — is every ready client served once in a round?

The client loop walks over the table while it takes entries out of it: a client that leaves is overwritten
by the last one, the bound goes down and the index stays where it is. What carries the walk through this is
that the descriptors already read and those still ahead are, together, without repetition and no more than
the table had at the start (`LoopInv`): removing by moving the last entry into the hole keeps the entries
ahead as they are (`drop_swapRemove_perm`). The slot that is looked at again still has the `revents` of the
client that left, so a reported client that is moved there is read.

`served_once` is about one round from any state with distinct clients.
-/
import LinuxNet.Tutorials.PollServer.Loop

namespace LinuxNet.Tutorials.PollServer

open LinuxNet.Lib LinuxNet.Posix

/-! ## What has been read, and what is ahead -/

def Call.recv? : Call → Option Int
  | .recv fd => some fd
  | .poll _ | .accept _ | .stored _ | .send _ _ | .close _ => none

/-- The descriptors of the `recv` calls since the last `poll`. -/
def State.recvs (s : State) : List Int := s.round.filterMap Call.recv?

/-- The descriptors the client loop has still ahead. -/
def State.ahead (s : State) : List Int :=
  match s.phase with
  | .clients i => s.slots.drop i
  | .polling | .listener | .exited | .fault _ => []

/-- `d` is in a slot ahead whose `revents` has `POLLIN`. -/
def State.ReadyAhead (s : State) (d : Int) : Prop :=
  ∃ i, s.phase = .clients i ∧
    ∃ j p, i ≤ j ∧ j < s.nfds ∧ s.fds.get? j = some p ∧ p.readable = true ∧ p.fd = d

theorem ahead_of_phase {s : State} {i : ℕ} (hphase : s.phase = .clients i) :
    s.ahead = s.slots.drop i := by
  rw [State.ahead, hphase]

theorem recvs_append {s t : State} {calls : List Call} (hcalls : ∀ c ∈ calls, c.ready? = none)
    (ht : t.trace = calls ++ s.trace) : t.recvs = calls.filterMap Call.recv? ++ s.recvs := by
  rw [State.recvs, round_append hcalls ht, List.filterMap_append]
  rfl

/-- The next slot of the loop is the first one ahead. -/
theorem slots_drop_eq {s : State} {i : ℕ} {p : PollFd} (hs : InRange s) (hlt : i < s.nfds)
    (hp : s.fds.get? i = some p) : s.slots.drop i = p.fd :: s.slots.drop (i + 1) := by
  have hlen : i < s.slots.length := by
    rw [State.slots, s.fds.length_slots hs.le]
    exact hlt
  rw [List.drop_eq_getElem_cons hlen]
  congr 1
  exact PollArray.slots_getElem hlt hp hlen

/-! ## The invariant of the client loop -/

/-- **`LoopInv reported n s`** — the client loop was entered with `n` slots in use, and `reported` are the
clients the `poll` of the round has reported. -/
structure LoopInv (reported : Int → Prop) (n : ℕ) (s : State) : Prop where
  range : InRange s
  phase : s.phase = .polling ∨ ∃ i, 1 ≤ i ∧ s.phase = .clients i
  distinct : (s.recvs ++ s.ahead).Nodup
  length_le : s.recvs.length + s.ahead.length ≤ n - 1
  pending : ∀ d, reported d → d ∈ s.recvs ∨ s.ReadyAhead d

/-- How many steps the loop can still take. -/
def stepsLeft (s : State) : ℕ :=
  match s.phase with
  | .clients i => s.nfds - i + 1
  | .polling | .listener | .exited | .fault _ => 0

/-- The events inside of the client loop. -/
def InLoop (_ : State) : Event → Prop
  | .poll _ _ => False
  | .accept _ | .serve _ _ _ | .tau => True

instance (s : State) : (e : Event) → Decidable (InLoop s e)
  | .poll _ _ => isFalse not_false
  | .accept _ | .serve _ _ _ | .tau => isTrue trivial

namespace LoopInv

variable {reported : Int → Prop} {n : ℕ} {s t : State}

/-- A client is read, and the loop goes on with the entries that were behind it. -/
theorem serve (hs : LoopInv reported n s) {i : ℕ} {p : PollFd} (hphase : s.phase = .clients i)
    (hlt : i < s.nfds) (hp : s.fds.get? i = some p) (hrange : InRange t)
    (hnext : ∃ k, 1 ≤ k ∧ t.phase = .clients k) (hrecvs : t.recvs = p.fd :: s.recvs)
    (hahead : t.ahead.Perm (s.slots.drop (i + 1)))
    (hready : ∀ d, s.ReadyAhead d → d = p.fd ∨ t.ReadyAhead d) : LoopInv reported n t := by
  have hhead : s.ahead = p.fd :: s.slots.drop (i + 1) := by
    rw [ahead_of_phase hphase, slots_drop_eq hs.range hlt hp]
  -- the client goes from the front of the one list to the front of the other
  have hperm : (t.recvs ++ t.ahead).Perm (s.recvs ++ s.ahead) := by
    rw [hrecvs, hhead, List.cons_append]
    exact ((hahead.append_left s.recvs).cons p.fd).trans List.perm_middle.symm
  refine ⟨hrange, .inr hnext, hperm.nodup_iff.mpr hs.distinct, ?_, ?_⟩
  · rw [← List.length_append, hperm.length_eq, List.length_append]
    exact hs.length_le
  · intro d hd
    rw [hrecvs]
    rcases hs.pending d hd with hmem | hahead
    · exact .inl (List.mem_cons_of_mem _ hmem)
    · rcases hready d hahead with rfl | hlater
      · exact .inl List.mem_cons_self
      · exact .inr hlater

/-- A client that stays: the loop goes to the next slot. -/
theorem keeps (hs : LoopInv reported n s) {i : ℕ} {p : PollFd} (hphase : s.phase = .clients i)
    (hlt : i < s.nfds) (hp : s.fds.get? i = some p) (response : Bytes) :
    LoopInv reported n
      { s with phase := .clients (i + 1), trace := .send p.fd response :: .recv p.fd :: s.trace } := by
  have hcalls : ∀ c ∈ [Call.send p.fd response, .recv p.fd], c.ready? = none := by simp [Call.ready?]
  refine hs.serve hphase hlt hp ⟨hs.range.pos, hs.range.le⟩ ⟨i + 1, Nat.succ_pos i, rfl⟩
    (recvs_append hcalls rfl) (.refl _) ?_
  rintro d ⟨k, hk, j, q, hkj, hj, hq, hr, rfl⟩
  obtain rfl : i = k := Phase.clients.inj (hphase.symm.trans hk)
  rcases Nat.eq_or_lt_of_le hkj with rfl | hlater
  · rw [hp] at hq
    cases hq
    exact .inl rfl
  · exact .inr ⟨i + 1, rfl, j, q, hlater, hj, hq, hr, rfl⟩

/-- A client that leaves: the last one comes into its slot, where `POLLIN` is still set. -/
theorem drops (hs : LoopInv reported n s) {i : ℕ} {p q : PollFd} {calls : List Call}
    (hphase : s.phase = .clients i) (hi : 1 ≤ i) (hlt : i < s.nfds) (hp : s.fds.get? i = some p)
    (hr : p.readable = true) (hq : s.fds.get? (s.nfds - 1) = some q)
    (hcalls : ∀ c ∈ calls, c.ready? = none) (hrecv : calls.filterMap Call.recv? = [p.fd])
    (hrange : InRange (s.refill i q.fd calls)) : LoopInv reported n (s.refill i q.fd calls) := by
  have hrecvs : (s.refill i q.fd calls).recvs = p.fd :: s.recvs := by
    rw [recvs_append hcalls (s := s) rfl, hrecv]
    rfl
  refine hs.serve hphase hlt hp hrange ⟨i, hi, rfl⟩ hrecvs ?_ ?_
  · have hslots : (s.refill i q.fd calls).slots = swapRemove s.slots i :=
      s.fds.slots_remove hs.range.le hlt hp hq rfl
    have hlen : i < s.slots.length := by
      rw [State.slots, s.fds.length_slots hs.range.le]
      exact hlt
    show ((s.refill i q.fd calls).slots.drop i).Perm _
    rw [hslots]
    exact drop_swapRemove_perm hlen
  · rintro d ⟨k, hk, j, r, hkj, hj, hjr, hread, rfl⟩
    obtain rfl : i = k := Phase.clients.inj (hphase.symm.trans hk)
    have hget : ∀ m, (s.refill i q.fd calls).fds.get? m =
        if i = m then (s.fds.get? m).map fun c => { c with fd := q.fd } else s.fds.get? m :=
      fun m => PollArray.get?_modify s.fds i _ m
    rcases Nat.eq_or_lt_of_le hkj with rfl | hlater
    · rw [hp] at hjr
      cases hjr
      exact .inl rfl
    · refine .inr ⟨i, rfl, ?_⟩
      by_cases hlast : j = s.nfds - 1
      · -- the last client has moved into slot `i`
        subst hlast
        rw [hq] at hjr
        cases hjr
        have hbound : i < s.nfds - 1 := hlater
        refine ⟨i, { p with fd := q.fd }, le_rfl, hbound, ?_, hr, rfl⟩
        rw [hget, if_pos rfl, hp]
        rfl
      · have hbound : j < s.nfds - 1 := by omega
        refine ⟨j, r, hkj, hbound, ?_, hread, rfl⟩
        rw [hget, if_neg (Nat.ne_of_lt hlater), hjr]

/-- A slot without `POLLIN` is passed over. -/
theorem skips (hs : LoopInv reported n s) {i : ℕ} {p : PollFd} (hphase : s.phase = .clients i)
    (hlt : i < s.nfds) (hp : s.fds.get? i = some p) (hr : p.readable = false) :
    LoopInv reported n { s with phase := .clients (i + 1) } := by
  have hhead : s.ahead = p.fd :: s.slots.drop (i + 1) := by
    rw [ahead_of_phase hphase, slots_drop_eq hs.range hlt hp]
  have hdistinct := hs.distinct
  have hlength := hs.length_le
  rw [hhead] at hdistinct hlength
  refine ⟨⟨hs.range.pos, hs.range.le⟩, .inr ⟨i + 1, Nat.succ_pos i, rfl⟩, ?_, ?_, ?_⟩
  · exact hdistinct.sublist ((List.sublist_cons_self _ _).append_left _)
  · exact (Nat.add_le_add_left (Nat.le_succ _) _).trans hlength
  · intro d hd
    rcases hs.pending d hd with hmem | ⟨k, hk, j, q, hkj, hj, hq, hread, hfd⟩
    · exact .inl hmem
    · obtain rfl : i = k := Phase.clients.inj (hphase.symm.trans hk)
      rcases Nat.eq_or_lt_of_le hkj with rfl | hlater
      · rw [hp] at hq
        cases hq
        rw [hr] at hread
        cases hread
      · exact .inr ⟨i + 1, rfl, j, q, hlater, hj, hq, hread, hfd⟩

/-- At the end nothing is ahead. -/
theorem endRound (hs : LoopInv reported n s) {i : ℕ} (hphase : s.phase = .clients i)
    (hend : ¬ (1 ≤ i ∧ i < s.nfds)) : LoopInv reported n { s with phase := .polling } := by
  have hdistinct := hs.distinct
  have hlength := hs.length_le
  refine ⟨⟨hs.range.pos, hs.range.le⟩, .inl rfl, ?_, ?_, ?_⟩
  · exact hdistinct.sublist ((List.nil_sublist _).append_left _)
  · exact (Nat.add_le_add_left (Nat.zero_le _) _).trans hlength
  · intro d hd
    rcases hs.pending d hd with hmem | ⟨k, hk, j, q, hkj, hj, -, -, -⟩
    · exact .inl hmem
    · obtain rfl : i = k := Phase.clients.inj (hphase.symm.trans hk)
      obtain ⟨m, hm, hphase'⟩ := hs.phase.resolve_left (by rw [hphase]; exact Phase.noConfusion)
      obtain rfl : i = m := Phase.clients.inj (hphase.symm.trans hphase')
      exact absurd ⟨hm, hkj.trans_lt hj⟩ hend

/-! ## The step lemma and the run lemma -/

/-- **A step of the client loop** keeps the invariant and brings the end nearer. -/
theorem of_step {e : Event} (hs : LoopInv reported n s) (hin : InLoop s e) (h : step s e = some t) :
    LoopInv reported n t ∧ stepsLeft t < stepsLeft s := by
  have hrange : InRange t := hs.range.of_step h
  have hleft {i : ℕ} (hphase : s.phase = .clients i) : stepsLeft s = s.nfds - i + 1 := by
    rw [stepsLeft, hphase]
  -- inside of the loop the listener is not looked at
  have hlistener : s.phase ≠ .listener := by
    intro hphase
    rcases hs.phase with h' | ⟨i, -, h'⟩
    · rw [hphase] at h'
      cases h'
    · rw [hphase] at h'
      cases h'
  cases Step.of_step hs.range h with
  | pollFails _ _ => exact hin.elim
  | polls _ _ => exact hin.elim
  | acceptFails hphase _ => exact absurd hphase hlistener
  | stores hphase _ _ => exact absurd hphase hlistener
  | full hphase _ _ => exact absurd hphase hlistener
  | noListener hphase => exact absurd hphase hlistener
  | @keeps i p _ time _ hphase _ hlt hp _ _ =>
      refine ⟨hs.keeps hphase hlt hp (responseText time), ?_⟩
      rw [hleft hphase]
      show s.nfds - (i + 1) + 1 < _
      omega
  | @drops i p q received time _ sends hphase hi hlt hp hr _ hq hsends =>
      refine ⟨hs.drops hphase hi hlt hp hr hq ?_ ?_ hrange, ?_⟩
      · rw [hsends]
        split <;> simp [Call.ready?]
      · rw [hsends]
        split <;> rfl
      · rw [hleft hphase]
        show s.nfds - 1 - i + 1 < _
        omega
  | @skips i p hphase _ hlt hp hr =>
      refine ⟨hs.skips hphase hlt hp hr, ?_⟩
      rw [hleft hphase]
      show s.nfds - (i + 1) + 1 < _
      omega
  | endRound hphase hend =>
      refine ⟨hs.endRound hphase hend, ?_⟩
      rw [hleft hphase]
      exact Nat.succ_pos _

end LoopInv

/-! ## Entering the loop -/

/-- The clients in the table that `poll` reports with `POLLIN` when it writes these `revents`. -/
def State.Reports (s : State) (revents : ℕ → BitVec 16) (d : Int) : Prop :=
  ∃ i p, 1 ≤ i ∧ i < s.nfds ∧ s.fds.get? i = some p ∧ hasPollIn (revents i) = true ∧ p.fd = d

/-- **The client loop is entered**: from `s`, `poll` has returned with these `revents`, and then either the
listener was not reported, or `accept` has returned a descriptor, which no client has. -/
def LoopEntry (s : State) (revents : ℕ → BitVec 16) (u : State) : Prop :=
  ∃ activity e p, step s (.poll activity revents) = some p ∧ step p e = some u ∧
    u.phase = .clients 1 ∧ ∀ sock_client, e = .accept sock_client → sock_client ∉ s.slots.tail

/-- The slots are as `poll` has left them, with one client more if there was one. -/
theorem LoopEntry.fds {s u : State} {revents : ℕ → BitVec 16} (hs : InRange s)
    (h : LoopEntry s revents u) :
    u.recvs = [] ∧ u.phase = .clients 1 ∧ InRange u ∧ s.nfds ≤ u.nfds ∧
      (∀ j, j < s.nfds → u.fds.get? j = (s.fds.report s.nfds revents).get? j) ∧
      (u.slots = s.slots ∨ ∃ d, d ∉ s.slots.tail ∧ u.slots = s.slots ++ [d]) := by
  obtain ⟨activity, e, p, hpoll, haccept, hentered, hfresh⟩ := h
  have hp : InRange p := hs.of_step hpoll
  have hu : InRange u := hp.of_step haccept
  have hreport : (s.fds.report s.nfds revents).slots s.nfds = s.slots := PollArray.slots_report _ _ _ _
  cases Step.of_step hs hpoll with
  | pollFails _ _ => cases haccept
  | polls _ _ =>
      -- `r` is the state in which `poll` has returned
      set r : State :=
        { s with
          fds := s.fds.report s.nfds revents
          phase := .listener
          trace := .poll ((s.fds.report s.nfds revents).readyFds s.nfds) :: s.trace }
      have hround : r.recvs = [] := by
        rw [State.recvs, round_poll rfl]
        rfl
      cases Step.of_step hp haccept with
      | pollFails hphase _ => cases hphase
      | polls hphase _ => cases hphase
      | acceptFails _ _ => cases hentered
      | @stores sock_client _ _ hroom =>
          have hcalls : ∀ c ∈ [Call.stored sock_client, .accept sock_client], c.ready? = none := by
            simp [Call.ready?]
          refine ⟨?_, rfl, hu, Nat.le_succ _, ?_, .inr ⟨sock_client, hfresh sock_client rfl, ?_⟩⟩
          · rw [recvs_append hcalls (s := r) rfl, hround]
            rfl
          · intro j hj
            exact PollArray.get?_modify_ne _ _ (Nat.ne_of_gt hj)
          · rw [← hreport]
            exact PollArray.slots_append _ hroom fun _ => rfl
      | @full sock_client _ _ _ =>
          have hcalls : ∀ c ∈ [Call.accept sock_client], c.ready? = none := by simp [Call.ready?]
          refine ⟨?_, rfl, hu, le_rfl, fun _ _ => rfl, .inl hreport⟩
          rw [recvs_append hcalls (s := r) rfl, hround]
          rfl
      | noListener _ => exact ⟨hround, rfl, hu, le_rfl, fun _ _ => rfl, .inl hreport⟩
      | keeps hphase _ _ _ _ _ => cases hphase
      | drops hphase _ _ _ _ _ _ _ => cases hphase
      | skips hphase _ _ _ _ => cases hphase
      | endRound hphase _ => cases hphase

/-- **The invariant holds when the loop is entered.** -/
theorem LoopInv.of_entry {s u : State} {revents : ℕ → BitVec 16} (hs : InRange s)
    (hdistinct : s.slots.tail.Nodup) (h : LoopEntry s revents u) :
    LoopInv (s.Reports revents) u.nfds u := by
  obtain ⟨hrecvs, hphase, hrange, hle, hget, hslots⟩ := h.fds hs
  have hahead : u.ahead = u.slots.tail := by
    rw [ahead_of_phase hphase, List.drop_one]
  have hlen : u.slots.length = u.nfds := u.fds.length_slots hrange.le
  refine ⟨hrange, .inr ⟨1, le_rfl, hphase⟩, ?_, ?_, ?_⟩
  · rw [hrecvs, hahead, List.nil_append]
    rcases hslots with hsame | ⟨d, hd, hmore⟩
    · rw [hsame]
      exact hdistinct
    · have hne : s.slots ≠ [] := by
        rw [← List.length_pos_iff, State.slots, s.fds.length_slots hs.le]
        exact hs.pos
      rw [hmore, List.tail_append_of_ne_nil hne, ← List.concat_eq_append]
      exact hdistinct.concat hd
  · rw [hrecvs, hahead, List.length_tail, hlen]
    exact (Nat.zero_add _).le
  · rintro d ⟨i, p, hi, hlt, hp, hr, rfl⟩
    refine .inr ⟨1, hphase, i, { p with revents := revents i }, hi, hlt.trans_le hle, ?_, hr, rfl⟩
    rw [hget i hlt, PollArray.get?_report, hp, Option.map_some, if_pos hlt]

/-- As long as the loop has not ended it can go on, whatever `recv` and `send` give. -/
theorem LoopInv.can_step {reported : Int → Prop} {n : ℕ} {s : State} (hs : LoopInv reported n s) :
    s.phase = .polling ∨ ∀ received time sent_bytes,
      (step s (.serve received time sent_bytes)).isSome = true ∨ (step s .tau).isSome = true := by
  rcases hs.phase with hphase | ⟨i, hi, hphase⟩
  · exact .inl hphase
  · refine .inr fun received time sent_bytes => ?_
    by_cases hlt : i < s.nfds
    · obtain ⟨p, hp⟩ := s.fds.exists_get? (hlt.trans_le hs.range.le)
      rcases hr : p.readable with _ | _
      · right
        simp [step, hphase, hi, hlt, hp, hr]
      · left
        simp [step, hphase, hi, hlt, hp, hr]
    · right
      simp [step, hphase, hlt]

/-! ## One round -/

/-- **Every ready client is served once.** In the client loop of one round, from any state whose clients
are distinct: no descriptor is read twice; there are at most `nfds - 1` reads and `nfds` steps, and the
loop can go on until it ends; and when it has ended, every client that was reported has been read. -/
theorem served_once {s u t : State} {revents : ℕ → BitVec 16} {es : List Event} (hs : InRange s)
    (hdistinct : s.slots.tail.Nodup) (hentry : LoopEntry s revents u) (hrun : Run step InLoop u es t) :
    (∀ d, t.recvs.count d ≤ 1) ∧ t.recvs.length ≤ u.nfds - 1 ∧ es.length ≤ u.nfds ∧
      (t.phase = .polling ∨ ∀ received time sent_bytes,
        (step t (.serve received time sent_bytes)).isSome = true ∨ (step t .tau).isSome = true) ∧
      (t.phase = .polling → ∀ d, s.Reports revents d → t.recvs.count d = 1) := by
  have hu : LoopInv (s.Reports revents) u.nfds u := .of_entry hs hdistinct hentry
  have ht : LoopInv (s.Reports revents) u.nfds t :=
    hrun.invariant (fun _ _ _ hs hin hstep => (hs.of_step hin hstep).1) hu
  have hlen : es.length + stepsLeft t ≤ stepsLeft u :=
    hrun.length_add_le (fun _ _ _ hs hin hstep => hs.of_step hin hstep) hu
  have hsteps : stepsLeft u = u.nfds := by
    rw [stepsLeft, (hentry.fds hs).2.1]
    exact Nat.sub_add_cancel hu.range.pos
  have hnodup : t.recvs.Nodup := (List.nodup_append.mp ht.distinct).1
  refine ⟨List.nodup_iff_count_le_one.mp hnodup, ?_, ?_, ht.can_step, ?_⟩
  · exact (Nat.le_add_right _ _).trans ht.length_le
  · rw [hsteps] at hlen
    exact (Nat.le_add_right _ _).trans hlen
  · intro hphase d hd
    apply List.count_eq_one_of_mem hnodup
    rcases ht.pending d hd with hmem | ⟨i, hi, -⟩
    · exact hmem
    · rw [hphase] at hi
      cases hi

/-- Listener 3 and the clients 4, 5 and 6. -/
def threeClients : State where
  fds := ((zeroed.modify 1 fun p => { p with fd := 4 }).modify 2 fun p => { p with fd := 5 }).modify 3
    fun p => { p with fd := 6 }
  nfds := 4
  sock_server := 3
  phase := .polling
  trace := []

/-- Clients 4 and 6 are reported. -/
def twoReady : ℕ → BitVec 16 := fun i => if i = 1 ∨ i = 3 then pollIn else 0

/-- Client 4 leaves, and 6 is read in its slot. -/
theorem served_once_two_ready : ∃ t : State,
    t.phase = .polling ∧ t.recvs.count 4 = 1 ∧ t.recvs.count 6 = 1 := by
  have hrange : InRange threeClients := ⟨by decide, by decide⟩
  have hrun : (execOk step InLoop { threeClients with
      fds := threeClients.fds.report 4 twoReady
      phase := .clients 1
      trace := .poll [4, 6] :: [] }
      [.serve (.data []) 0 0, .serve (.data [104, 105]) 0 14, .tau, .tau]).any
      (fun t => t.phase = .polling) = true := by decide
  obtain ⟨t, ⟨es, hes⟩, ht⟩ := exists_reach_of_exec hrun
  have hphase : t.phase = .polling := of_decide_eq_true ht
  have hentry : LoopEntry threeClients twoReady _ := ⟨2, .tau, _, rfl, rfl, rfl, by simp⟩
  have hserved := (served_once hrange (by decide) hentry hes).2.2.2.2 hphase
  refine ⟨t, hphase, hserved 4 ?_, hserved 6 ?_⟩
  · exact ⟨1, ⟨4, 0, 0⟩, by decide, by decide, by decide, by decide, rfl⟩
  · exact ⟨3, ⟨6, 0, 0⟩, by decide, by decide, by decide, by decide, rfl⟩

end LinuxNet.Tutorials.PollServer
