/-
# LinuxNet.Http.Server.Table — the connection table of the HTTP server, and what becomes of a client

`TableInv` is what every step keeps, whatever `poll` reports and `handle_client` does: the table fits
into `fds`, its descriptors are distinct and open, nothing is closed that is not open, and the listener
is nowhere but in slot 0 (it may be gone from there, see `LinuxNet.Http.Server.Listener`).

What the table does not keep is every client: when it is full, `accept` has already been called, and
the descriptor it returned is neither stored nor closed (`client_leaked`). In a run that never accepts
into a full table each descriptor `accept` ever returned is in exactly one slot and open, or has been
closed exactly once (`client_conserved`).
-/
import LinuxNet.Http.Server.Loop

namespace LinuxNet.Http.Server

open LinuxNet.Lib LinuxNet.Lib.FdLedger LinuxNet.Posix LinuxNet.Cpp

/-- **The table invariant.** -/
structure TableInv (base : Finset Int) (s : State) : Prop where
  le : s.nfds ≤ maxConnection
  noFault : ∀ i, s.phase ≠ .fault i
  nodup : s.slots.Nodup
  isOpen : ∀ d ∈ s.slots, d ∈ openFds base s.history
  first : ∀ j, s.slots[j]? = some s.sock_server → j = 0
  opens : OpensFresh base s.history
  closes : ClosesOpen base s.history

/-! ## What the operations do to slots and history -/

theorem history_cons_none {s t : State} {call : Call} (hcall : call.fdOp = none)
    (ht : t.trace = call :: s.trace) : t.history = s.history := by
  rw [State.history, ht, List.filterMap_cons_none hcall]
  rfl

theorem history_cons_some {s t : State} {call : Call} {op : FdOp Int} (hcall : call.fdOp = some op)
    (ht : t.trace = call :: s.trace) : t.history = op :: s.history := by
  rw [State.history, ht, List.filterMap_cons_some hcall]
  rfl

theorem slots_store (s : State) (i : ℕ) (sock_client : Int) (hroom : s.nfds < maxConnection) :
    (s.store i sock_client).slots = s.slots ++ [sock_client] :=
  s.fds.slots_append hroom fun _ => rfl

theorem history_store (s : State) (i : ℕ) {sock_client : Int} (hpos : 0 ≤ sock_client) :
    (s.store i sock_client).history =
      .stored sock_client :: .opened sock_client :: s.history := by
  rw [history_cons_some (s := s.log (.accept sock_client)) (Call.fdOp_stored _) rfl,
    history_cons_some (s := s) (Call.fdOp_accept_pos hpos) rfl]

theorem slots_refill {s : State} {i : ℕ} {p q : PollFd} (hle : s.nfds ≤ maxConnection)
    (hlt : i < s.nfds) (hp : s.fds.get? i = some p) (hq : s.fds.get? (s.nfds - 1) = some q) :
    (s.refill i p q).slots = swapRemove s.slots i :=
  s.fds.slots_remove hle hlt hp hq rfl

theorem history_refill (s : State) (i : ℕ) (p q : PollFd) :
    (s.refill i p q).history = .closed p.fd :: s.history := by
  rw [history_cons_some (s := s.log (.handleClient p.fd)) (Call.fdOp_close _) rfl,
    history_cons_none (s := s) (Call.fdOp_handleClient _) rfl]

namespace TableInv

variable {base : Finset Int} {s t : State}

theorem length_slots (hs : TableInv base s) : s.slots.length = s.nfds := s.fds.length_slots hs.le

theorem mem_slots {i : ℕ} (hlt : i < s.nfds) {p : PollFd} (hp : s.fds.get? i = some p) :
    p.fd ∈ s.slots :=
  PollArray.mem_slots.mpr ⟨i, p, hlt, hp, rfl⟩

/-- The table after a refill: everything but the removed descriptor. -/
theorem mem_slots_refill (hs : TableInv base s) {i : ℕ} {p q : PollFd} (hlt : i < s.nfds)
    (hp : s.fds.get? i = some p) (hq : s.fds.get? (s.nfds - 1) = some q) (d : Int) :
    d ∈ (s.refill i p q).slots ↔ d ∈ s.slots ∧ d ≠ p.fd :=
  PollArray.mem_slots_remove hs.nodup hs.le hlt hp hq rfl

/-- A step that leaves the table and the descriptor history alone. -/
theorem of_eq (hs : TableInv base s) (hslots : t.slots = s.slots) (hnfds : t.nfds = s.nfds)
    (hsock : t.sock_server = s.sock_server) (hhist : t.history = s.history)
    (hfault : ∀ i, t.phase ≠ .fault i) : TableInv base t := by
  refine ⟨by rw [hnfds]; exact hs.le, hfault, ?_, ?_, ?_, ?_, ?_⟩
  · rw [hslots]
    exact hs.nodup
  · rw [hslots, hhist]
    exact hs.isOpen
  · rw [hslots, hsock]
    exact hs.first
  · rw [hhist]
    exact hs.opens
  · rw [hhist]
    exact hs.closes

/-- A client that is not stored: open from now on, unknown to the table. -/
theorem accepts (hs : TableInv base s) {sock_client : Int} (hpos : 0 ≤ sock_client)
    (hfresh : sock_client ∉ openFds base s.history) (i : ℕ) :
    TableInv base { s with phase := .scan i, trace := .accept sock_client :: s.trace } := by
  set t : State := { s with phase := .scan i, trace := .accept sock_client :: s.trace } with ht
  have hhist : t.history = .opened sock_client :: s.history :=
    history_cons_some (Call.fdOp_accept_pos hpos) rfl
  refine ⟨hs.le, by simp [ht], hs.nodup, ?_, hs.first, ?_, ?_⟩
  · intro d hd
    rw [hhist, openFds_opened]
    exact Finset.mem_insert_of_mem (hs.isOpen d hd)
  · rw [hhist]
    exact ⟨hfresh, hs.opens⟩
  · rw [hhist]
    exact hs.closes

theorem stores (hs : TableInv base s) {i : ℕ} {p : PollFd} (hlt : i < s.nfds)
    (hp : s.fds.get? i = some p) (hsock : p.fd = s.sock_server) {sock_client : Int}
    (hpos : 0 ≤ sock_client) (hroom : s.nfds < maxConnection)
    (hfresh : sock_client ∉ openFds base s.history) : TableInv base (s.store i sock_client) := by
  have hout : sock_client ∉ s.slots := fun hmem => hfresh (hs.isOpen _ hmem)
  have hslots := slots_store s i sock_client hroom
  have hhist := history_store s i hpos
  refine ⟨hroom, by simp [State.store], ?_, ?_, ?_, ?_, ?_⟩
  · exact PollArray.nodup_slots_append hs.nodup hroom (fun _ => rfl) hout
  · intro d hd
    rw [hslots, List.mem_append, List.mem_singleton] at hd
    rw [hhist, openFds_stored, openFds_opened, Finset.mem_insert]
    exact hd.symm.imp id (hs.isOpen d)
  · intro j hj
    rw [hslots, List.getElem?_append] at hj
    split at hj
    next => exact hs.first j hj
    next =>
      -- the new entry is not the listener, which is in the table
      have hmem : s.sock_server ∈ [sock_client] := List.mem_of_getElem? hj
      rw [List.mem_singleton] at hmem
      have hin : s.sock_server ∈ s.slots := hsock ▸ mem_slots hlt hp
      exact absurd (hmem ▸ hin) hout
  · rw [hhist]
    exact ⟨hfresh, hs.opens⟩
  · rw [hhist]
    exact hs.closes

theorem refill (hs : TableInv base s) {i : ℕ} {p q : PollFd} (hlt : i < s.nfds)
    (hp : s.fds.get? i = some p) (hq : s.fds.get? (s.nfds - 1) = some q) :
    TableInv base (s.refill i p q) := by
  have hlen : i < s.slots.length := by rw [hs.length_slots]; exact hlt
  have hslots := slots_refill hs.le hlt hp hq
  have hhist := history_refill s i p q
  refine ⟨(Nat.sub_le _ _).trans hs.le, by simp [State.refill], ?_, ?_, ?_, ?_, ?_⟩
  · rw [hslots]
    exact nodup_swapRemove hs.nodup i
  · intro d hd
    obtain ⟨hin, hne⟩ := (hs.mem_slots_refill hlt hp hq d).mp hd
    rw [hhist, openFds_closed, Finset.mem_erase]
    exact ⟨hne, hs.isOpen d hin⟩
  · intro j hj
    rw [hslots, getElem?_swapRemove hlen] at hj
    split at hj
    next hlast =>
      split at hj
      next =>
        -- the listener moves only from the last slot, so only when it is alone
        have := hs.first _ hj
        omega
      next => exact hs.first j hj
    next => cases hj
  · rw [hhist]
    exact hs.opens
  · rw [hhist]
    exact ⟨hs.isOpen _ (mem_slots hlt hp), hs.closes⟩

/-! ## The step lemma and the run lemma -/

theorem of_step {e : Event} (hs : TableInv base s) (hfresh : FreshAccept base s e)
    (h : step s e = some t) : TableInv base t := by
  cases Step.of_step hs.le h with
  | pollFails _ _ => exact hs.of_eq rfl rfl rfl rfl (by simp)
  | polls _ _ =>
      exact hs.of_eq (s.fds.slots_report _ _ _) rfl rfl (history_cons_none (Call.fdOp_poll _) rfl)
        (by simp)
  | acceptFails _ _ _ _ _ hneg =>
      exact hs.of_eq rfl rfl rfl (history_cons_none (Call.fdOp_accept_neg hneg) rfl) (by simp)
  | stores _ hlt hp _ hsock hpos hroom => exact hs.stores hlt hp hsock hpos hroom (hfresh hpos)
  | full _ _ _ _ _ hpos _ => exact hs.accepts hpos (hfresh hpos) _
  | ignores _ _ _ _ _ => exact hs.of_eq rfl rfl rfl rfl (by simp)
  | throws _ _ _ _ =>
      exact hs.of_eq rfl rfl rfl (history_cons_none (Call.fdOp_handleClient _) rfl) (by simp)
  | waits _ _ _ _ =>
      exact hs.of_eq rfl rfl rfl (history_cons_none (Call.fdOp_handleClient _) rfl) (by simp)
  | drops _ hlt hp _ _ hq => exact hs.refill hlt hp hq
  | endRound _ _ => exact hs.of_eq rfl rfl rfl rfl (by simp)

end TableInv

theorem slots_init (garbage : PollArray maxConnection) (sock_server : Int) :
    (init garbage sock_server).slots = [sock_server] := by
  have h := garbage.slots_append (n := 0) (f := fun p => { p with fd := sock_server, events := pollIn })
    (Nat.lt_of_sub_eq_succ rfl) fun _ => rfl
  simpa [PollArray.slots, State.slots, init] using h

theorem tableInv_init (others : Finset Int) (garbage : PollArray maxConnection) (sock_server : Int) :
    TableInv (insert sock_server others) (init garbage sock_server) := by
  have hslots := slots_init garbage sock_server
  refine ⟨Nat.le_of_ble_eq_true rfl, by simp [init], by simp [hslots], ?_, ?_, trivial, trivial⟩
  · intro d hd
    rw [hslots, List.mem_singleton] at hd
    subst hd
    exact Finset.mem_insert_self d others
  · intro j hj
    rw [hslots] at hj
    obtain ⟨hlt, -⟩ := List.getElem?_eq_some_iff.mp hj
    simpa using hlt

/-- Every state of a run in which `accept` returns fresh descriptors. -/
theorem tableInv_of_reach {others : Finset Int} {garbage : PollArray maxConnection}
    {sock_server : Int} {s : State}
    (h : Reach step (FreshAccept (insert sock_server others)) (init garbage sock_server) s) :
    TableInv (insert sock_server others) s :=
  h.invariant (fun _ _ _ hs hok hstep => hs.of_step hok hstep)
    (tableInv_init others garbage sock_server)

/-! ## Conservation of clients -/

/-- **The condition on a step**: no client is accepted while the table is full. -/
def RoomForClient (s : State) : Event → Prop
  | .accept sock_client => 0 ≤ sock_client → s.nfds < maxConnection
  | _ => True

instance (s : State) : (e : Event) → Decidable (RoomForClient s e)
  | .accept sock_client => inferInstanceAs (Decidable (0 ≤ sock_client → s.nfds < maxConnection))
  | .poll _ _ | .handled _ | .tau => isTrue trivial

/-- Every client that is not closed yet is in the table. -/
def Tracked (s : State) : Prop := ∀ d, (lifetimes d s.history).head? = some 0 → d ∈ s.slots

theorem Tracked.of_eq {s t : State} (hs : Tracked s) (hslots : t.slots = s.slots)
    (hhist : t.history = s.history) : Tracked t := by
  intro d hd
  rw [hhist] at hd
  rw [hslots]
  exact hs d hd

theorem Tracked.of_step {base : Finset Int} {s t : State} {e : Event} (hs : Tracked s)
    (htable : TableInv base s) (hroom : RoomForClient s e) (h : step s e = some t) : Tracked t := by
  cases Step.of_step htable.le h with
  | pollFails _ _ => exact hs.of_eq rfl rfl
  | polls _ _ => exact hs.of_eq (s.fds.slots_report _ _ _) (history_cons_none (Call.fdOp_poll _) rfl)
  | acceptFails _ _ _ _ _ hneg => exact hs.of_eq rfl (history_cons_none (Call.fdOp_accept_neg hneg) rfl)
  | @stores i _ sock_client _ _ _ _ _ hpos hlt =>
      intro d hd
      rw [slots_store s i sock_client hlt, List.mem_append, List.mem_singleton]
      rw [history_store s i hpos] at hd
      simp only [lifetimes] at hd
      split at hd
      next he => exact .inr he.symm
      next => exact .inl (hs d hd)
  | full _ _ _ _ _ hpos hfull => exact absurd (hroom hpos) (by omega)
  | ignores _ _ _ _ _ => exact hs.of_eq rfl rfl
  | throws _ _ _ _ => exact hs.of_eq rfl (history_cons_none (Call.fdOp_handleClient _) rfl)
  | waits _ _ _ _ => exact hs.of_eq rfl (history_cons_none (Call.fdOp_handleClient _) rfl)
  | @drops i p q _ _ hlt hp _ _ hq =>
      intro d hd
      rw [history_refill] at hd
      rw [htable.mem_slots_refill hlt hp hq]
      simp only [lifetimes] at hd
      split at hd
      next =>
        -- the lifetime that was just closed counts at least one close
        cases hl : lifetimes d s.history <;> simp [hl] at hd
      next hne => exact ⟨hs d hd, Ne.symm hne⟩
  | endRound _ _ => exact hs.of_eq rfl rfl

/-- **No connection is lost, as long as no client is accepted into a full table.** Every time `accept`
returned a descriptor, that descriptor is now in exactly one slot and open and has not been closed, or
it has been closed exactly once before `accept` returned it again. -/
theorem client_conserved (others : Finset Int) (garbage : PollArray maxConnection) (sock_server : Int)
    (s : State)
    (h : Reach step (fun s e => FreshAccept (insert sock_server others) s e ∧ RoomForClient s e)
      (init garbage sock_server) s) :
    s.nfds ≤ maxConnection ∧ ∀ d, ∀ k ∈ lifetimes d s.history,
      (k = 0 ∧ s.slots.count d = 1 ∧ d ∈ openFds (insert sock_server others) s.history) ∨ k = 1 := by
  have hinv : TableInv (insert sock_server others) s ∧ Tracked s := by
    refine h.invariant (I := fun s => TableInv _ s ∧ Tracked s) ?_
      ⟨tableInv_init others garbage sock_server, fun d hd => ?_⟩
    · rintro s e t ⟨htable, htracked⟩ ⟨hfresh, hroom⟩ hstep
      exact ⟨htable.of_step hfresh hstep, htracked.of_step htable hroom hstep⟩
    · simp [State.history, init, lifetimes] at hd
  obtain ⟨htable, htracked⟩ := hinv
  refine ⟨htable.le, fun d k hk => ?_⟩
  rcases lifetimes_of_disciplined htable.opens htable.closes hk with ⟨rfl, hopen, hhead⟩ | rfl
  · exact .inl ⟨rfl, List.count_eq_one_of_mem htable.nodup (htracked d hhead), hopen⟩
  · exact .inr rfl

/-- Listener 3, a client 4 that is served and closed: the theorem applies. -/
theorem client_conserved_one_client :
    ∃ s, Reach step (fun s e => FreshAccept (insert 3 {0, 1, 2}) s e ∧ RoomForClient s e)
        (init (.filled ⟨0, 0, 0⟩) 3) s ∧ lifetimes 4 s.history = [1] ∧
      ∀ d, ∀ k ∈ lifetimes d s.history,
        (k = 0 ∧ s.slots.count d = 1 ∧ d ∈ openFds (insert 3 {0, 1, 2}) s.history) ∨ k = 1 := by
  have hrun : (execOk step (fun s e => FreshAccept (insert 3 {0, 1, 2}) s e ∧ RoomForClient s e)
      (init (.filled ⟨0, 0, 0⟩) 3)
      [.poll 1 fun i => if i = 0 then pollIn else 0, .accept 4, .handled (.ok .completed)]).any
      (fun s => lifetimes 4 s.history = [1]) = true := by decide
  obtain ⟨s, hreach, hs⟩ := exists_reach_of_exec hrun
  exact ⟨s, hreach, of_decide_eq_true hs, (client_conserved {0, 1, 2} _ 3 s hreach).2⟩

/-- Listener 3; client 4 is stored in slot 1, whose `revents` happens to have `POLLIN`; in the next
round both are reported, and client 5 is accepted while the table is full. -/
def leakingRun : List Event :=
  [.poll 1 fun i => if i = 0 then pollIn else 0, .accept 4, .tau, .tau,
    .poll 2 fun _ => pollIn, .accept 5]

/-- **A client accepted into a full table is neither stored nor closed.** -/
theorem client_leaked :
    ¬ ∀ (others : Finset Int) (garbage : PollArray maxConnection) (sock_server : Int) (s : State),
      Reach step (FreshAccept (insert sock_server others)) (init garbage sock_server) s →
        s.nfds ≤ maxConnection ∧ ∀ d, ∀ k ∈ lifetimes d s.history,
          (k = 0 ∧ s.slots.count d = 1 ∧ d ∈ openFds (insert sock_server others) s.history) ∨
            k = 1 := by
  intro hall
  have hrun : (execOk step (FreshAccept (insert 3 {0, 1, 2})) (init (.filled ⟨0, 0, pollIn⟩) 3)
      leakingRun).any (fun s => lifetimes 5 s.history = [0] ∧ s.slots.count 5 = 0) = true := by
    decide
  obtain ⟨s, hreach, hs⟩ := exists_reach_of_exec hrun
  obtain ⟨hlife, hcount⟩ := of_decide_eq_true hs
  obtain ⟨-, hone, -⟩ | h := (hall {0, 1, 2} _ 3 s hreach).2 5 0 (by simp [hlife])
  · omega
  · cases h

end LinuxNet.Http.Server
