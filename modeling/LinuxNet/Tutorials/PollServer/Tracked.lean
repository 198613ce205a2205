/-
# LinuxNet.Tutorials.PollServer.Tracked — which accepted clients the poll server monitors

An accepted client is stored while `nfds < MAX_CONNECTION`; the test has no else branch, so a client that
finds the table full is neither monitored nor closed. `tracked_of_room` and `exists_full` are the two
sides of that.
-/
import LinuxNet.Tutorials.PollServer.Table

namespace LinuxNet.Tutorials.PollServer

open LinuxNet.Lib LinuxNet.Lib.FdLedger LinuxNet.Posix

/-- Every accepted descriptor that has not been closed is in a slot of `fds` below `nfds`. -/
def Tracked (s : State) : Prop := ∀ d ∈ openFds ∅ s.history, d ∈ s.slots

/-- **The condition**: `accept` returns a descriptor only while there is a free slot. -/
def AcceptsWithRoom (s : State) : Event → Prop
  | .accept sock_client => 0 ≤ sock_client → s.nfds < maxConnection
  | _ => True

instance (s : State) : (e : Event) → Decidable (AcceptsWithRoom s e)
  | .accept sock_client => inferInstanceAs (Decidable (0 ≤ sock_client → s.nfds < maxConnection))
  | .poll _ _ | .serve _ _ _ | .tau => isTrue trivial

/-! ## Clients that find a slot are tracked -/

theorem tracked_of_step {s t : State} {e : Event} (hs : InRange s) (htracked : Tracked s)
    (hroom : AcceptsWithRoom s e) (h : step s e = some t) : Tracked t := by
  rcases Step.of_step hs h with ⟨-, -⟩ | ⟨-, -⟩ | ⟨-, hneg⟩ | @⟨sock_client, -, hpos, hlt⟩ |
    ⟨-, hpos, hfull⟩ | ⟨-⟩ | @⟨i, p, received, time, sent_bytes, -, -, -, -, -, -⟩ |
    @⟨i, p, q, received, time, sent_bytes, sends, -, -, hlt, hp, -, -, hq, hsends⟩ |
    ⟨-, -, -, -, -⟩ | ⟨-, -⟩
  · exact fun d hd => htracked d (Finset.mem_of_mem_erase hd)
  · intro d hd
    show d ∈ (s.fds.report s.nfds _).slots s.nfds
    rw [PollArray.slots_report]
    exact htracked d hd
  · intro d hd
    rw [State.history_acceptFails (s := s) hneg rfl] at hd
    exact htracked d hd
  · intro d hd
    have hslots : (s.fds.modify s.nfds fun p => { p with fd := sock_client, events := pollIn }).slots
        (s.nfds + 1) = s.slots ++ [sock_client] := s.fds.slots_append hlt fun _ => rfl
    show d ∈ (s.fds.modify s.nfds _).slots (s.nfds + 1)
    rw [hslots, List.mem_append, List.mem_singleton]
    rw [State.history_stores (s := s) hpos rfl] at hd
    rcases Finset.mem_insert.mp hd with hd | hd
    · exact .inr hd
    · exact .inl (htracked d hd)
  · exact absurd (hroom hpos) (by omega)
  · exact htracked
  · exact htracked
  · intro d hd
    rw [State.history_refill (fdOps_drops hsends)] at hd
    obtain ⟨hne, hd⟩ := Finset.mem_erase.mp hd
    exact PollArray.mem_slots_remove_of_ne hs.le hlt hp hq rfl (htracked d hd) hne
  · exact htracked
  · exact htracked

theorem tracked_of_room {sock_server : Int} {s : State}
    (h : Reach step AcceptsWithRoom (init sock_server) s) : Tracked s := by
  refine (h.invariant (I := fun s => InRange s ∧ Tracked s) ?_ ⟨inRange_init sock_server, ?_⟩).2
  · rintro s e t ⟨hs, htracked⟩ hroom hstep
    exact ⟨hs.of_step hstep, tracked_of_step hs htracked hroom hstep⟩
  · intro d hd
    exact absurd hd (Finset.notMem_empty d)

/-! ## The table gets full -/

section Full

variable {base : Finset Int}

/-- One slot of a scan in which nothing changes. -/
theorem exists_idle_step {s : State} {i : ℕ} (hs : InRange s) (hphase : s.phase = .clients i)
    (hlt : 1 ≤ i ∧ i < s.nfds) :
    ∃ t, Reach step (FreshAccept base) s t ∧ InRange t ∧ t.phase = .clients (i + 1) ∧
      t.nfds = s.nfds := by
  obtain ⟨p, hp⟩ := s.fds.exists_get? (hlt.2.trans_le hs.le)
  rcases hr : p.readable with _ | _
  · have hstep : step s .tau = some { s with phase := .clients (i + 1) } := by
      simp only [step, hphase, if_pos hlt, hp, hr]
      rfl
    exact ⟨_, .single (e := .tau) trivial hstep, hs.of_step hstep, rfl, rfl⟩
  · -- the client sends a byte, and stays
    have hstep : step s (.serve (.data [65]) 0 1) = some (serveClient s i p.fd (.data [65]) 0 1) := by
      simp only [step, hphase, if_pos hlt, hp, hr]
      rfl
    exact ⟨_, .single (e := .serve _ _ _) trivial hstep, hs.of_step hstep, rfl, rfl⟩

/-- The scan can be brought to its end without changing the table. -/
theorem exists_idle_end {s : State} {i : ℕ} (hs : InRange s) (hphase : s.phase = .clients i) (hi : 1 ≤ i) :
    ∃ t, Reach step (FreshAccept base) s t ∧ t.phase = .polling ∧ t.nfds = s.nfds := by
  obtain ⟨t, ht, -, htphase, htnfds⟩ : ∃ t, Reach step (FreshAccept base) s t ∧
      InRange t ∧ t.phase = .clients (i + (s.nfds - i)) ∧ t.nfds = s.nfds := by
    refine Reach.exists_of_grow
      (P := fun n (t : State) => InRange t ∧ t.phase = .clients (i + n) ∧ t.nfds = s.nfds)
      ⟨hs, hphase, rfl⟩ _ ?_
    rintro n t hn - ⟨ht, htphase, htnfds⟩
    obtain ⟨u, hu, huinv, huphase, hunfds⟩ := exists_idle_step ht htphase ⟨by omega, by omega⟩
    exact ⟨u, hu, huinv, huphase, hunfds.trans htnfds⟩
  have hstep : step t .tau = some { t with phase := .polling } := by
    simp only [step, htphase]
    rw [if_neg (by omega)]
  exact ⟨_, ht.trans (.single (e := .tau) trivial hstep), rfl, htnfds⟩

/-- A round in which the listening socket is reported comes to the call of `accept`. -/
theorem exists_at_listener {s : State} (hphase : s.phase = .polling) (hs : InRange s) :
    ∃ t, Reach step (FreshAccept base) s t ∧ t.phase = .listener ∧ t.nfds = s.nfds ∧
      ∀ d, step t (.accept d) = some (acceptClient t d) := by
  have hpos := hs.pos
  have hstep : step s (.poll 1 fun _ => pollIn) = some (pollReturns s 1 fun _ => pollIn) := by
    simp only [step, hphase]
  obtain ⟨p, hp⟩ := s.fds.exists_get? (i := 0) (by have := hs.le; omega)
  have hzero : (pollReturns s 1 fun _ => pollIn).fds.get? 0 = some { p with revents := pollIn } := by
    show (s.fds.report s.nfds _).get? 0 = _
    rw [PollArray.get?_report, hp, Option.map_some, if_pos (by omega)]
  have hreadable : ({ p with revents := pollIn } : PollFd).readable = true := by
    show hasPollIn pollIn = true
    decide
  refine ⟨_, .single (e := .poll _ _) trivial hstep, rfl, rfl, ?_⟩
  intro d
  have htphase : (pollReturns s 1 fun _ => pollIn).phase = .listener := rfl
  simp only [step, htphase, hzero, hreadable, if_true]

theorem acceptClient_room {s : State} {d : Int} (hd : 0 ≤ d) (hroom : s.nfds < maxConnection) :
    (acceptClient s d).phase = .clients 1 ∧ (acceptClient s d).nfds = s.nfds + 1 := by
  obtain ⟨c, hc⟩ := s.fds.exists_get? hroom
  have hc' : (s.log (.accept d)).fds.get? (s.log (.accept d)).nfds = some c := hc
  rw [acceptClient, if_neg (Int.not_lt.mpr hd), if_pos hroom, storeClient, hc']
  exact ⟨rfl, rfl⟩

theorem acceptClient_full {s : State} {d : Int} (hd : 0 ≤ d) (hfull : s.nfds = maxConnection) :
    (acceptClient s d).slots = s.slots ∧ (acceptClient s d).history = .opened d :: s.history := by
  rw [acceptClient, if_neg (Int.not_lt.mpr hd), if_neg (by omega)]
  exact ⟨rfl, State.history_full hd rfl⟩

variable (others : Finset Int) (sock_server : Int)

/-- One more client comes, and stays. -/
theorem exists_one_more {s : State}
    (hs : Reach step (FreshAccept (insert sock_server others)) (init sock_server) s)
    (hphase : s.phase = .polling) (hroom : s.nfds < maxConnection) :
    ∃ t, Reach step (FreshAccept (insert sock_server others)) s t ∧
      t.phase = .polling ∧ t.nfds = s.nfds + 1 := by
  obtain ⟨t, ht, htphase, htnfds, haccept⟩ :=
    exists_at_listener hphase (TableInv.of_reach hs).1.range
  obtain ⟨d, hd, hfresh⟩ := exists_fresh 0 (openFds (insert sock_server others) t.history)
  obtain ⟨huphase, hunfds⟩ := acceptClient_room (s := t) hd.le (by omega)
  have hok : FreshAccept (insert sock_server others) t (.accept d) := fun _ => hfresh
  have hu := ht.trans (.single hok (haccept d))
  obtain ⟨v, hv, hvphase, hvnfds⟩ :=
    exists_idle_end (TableInv.of_reach (hs.trans hu)).1.range huphase le_rfl
  exact ⟨v, hu.trans hv, hvphase, by omega⟩

/-- **The table gets full**: after `n` clients that stay, `n` slots are in use besides the first. -/
theorem exists_full {n : ℕ} (hn : n < maxConnection) :
    ∃ s, Reach step (FreshAccept (insert sock_server others)) (init sock_server) s ∧
      s.phase = .polling ∧ s.nfds = n + 1 := by
  refine Reach.exists_of_grow (P := fun n (s : State) => s.phase = .polling ∧ s.nfds = n + 1)
    ⟨rfl, rfl⟩ n ?_
  rintro k s hk hs ⟨hphase, hnfds⟩
  obtain ⟨t, ht, htphase, htnfds⟩ := exists_one_more others sock_server hs hphase (by omega)
  exact ⟨t, ht, htphase, by omega⟩

/-- **A client that finds the table full is lost**: it is open, and not tracked. -/
theorem exists_untracked :
    ∃ s, Reach step (FreshAccept (insert sock_server others)) (init sock_server) s ∧ ¬ Tracked s := by
  have hroom : 99 < maxConnection := by decide
  obtain ⟨s, hs, hphase, hnfds⟩ := exists_full others sock_server hroom
  obtain ⟨t, ht, htphase, htnfds, haccept⟩ :=
    exists_at_listener hphase (TableInv.of_reach hs).1.range
  have hreach := hs.trans ht
  obtain ⟨d, hd, hfresh⟩ := exists_fresh 0 (openFds (insert sock_server others) t.history)
  obtain ⟨huslots, huhist⟩ := acceptClient_full (s := t) hd.le (htnfds.trans hnfds)
  have hok : FreshAccept (insert sock_server others) t (.accept d) := fun _ => hfresh
  refine ⟨_, hreach.trans (.single hok (haccept d)), ?_⟩
  intro htracked
  have hopen : d ∈ openFds ∅ (acceptClient t d).history := by
    rw [huhist]
    exact Finset.mem_insert_self d _
  have hmem := htracked d hopen
  rw [huslots] at hmem
  exact hfresh ((TableInv.of_reach hreach).1.isOpen (by rw [htphase]; nofun) d hmem)

end Full

end LinuxNet.Tutorials.PollServer
