/-
# LinuxNet.Tutorials.PollServer.Table — the connection table of the poll server

The loop stores an accepted client behind the last one, and at two places (end of stream or error;
failed send or a request to quit) closes a client, copies the last descriptor over it and steps its
index back. `TableInv` is what every path through the loop keeps: the listener in slot 0, distinct open
descriptors, and below `nfds` exactly the clients that were stored and not closed since.
-/
import LinuxNet.Tutorials.PollServer.Loop

namespace LinuxNet.Tutorials.PollServer

open LinuxNet.Lib LinuxNet.Lib.FdLedger LinuxNet.Posix

/-- The descriptors `fds[1..nfds-1]`. -/
def State.clients (s : State) : List Int := s.slots.tail

/-- **The table invariant.** After the loop the listener is closed, so only a running loop has all its
descriptors open. -/
structure TableInv (base : Finset Int) (s : State) : Prop where
  range : InRange s
  noFault : ∀ i, s.phase ≠ .fault i
  head : s.slots[0]? = some s.sock_server
  nodup : s.slots.Nodup
  isOpen : s.phase ≠ .exited → ∀ d ∈ s.slots, d ∈ openFds base s.history
  stored : ∀ d, d ∈ storedFds s.history ↔ d ∈ s.slots ∧ d ≠ s.sock_server
  closes : ClosesOpen base s.history

namespace TableInv

variable {base : Finset Int} {s t : State}

theorem length_slots (hs : TableInv base s) : s.slots.length = s.nfds :=
  s.fds.length_slots hs.range.le

theorem sock_mem_slots (hs : TableInv base s) : s.sock_server ∈ s.slots :=
  List.mem_iff_getElem?.mpr ⟨0, hs.head⟩

/-- The first slot and the clients behind it. -/
theorem slots_eq (hs : TableInv base s) : s.slots = s.sock_server :: s.clients := by
  have hhead := hs.head
  unfold State.clients
  cases hslots : s.slots with
  | nil => simp [hslots] at hhead
  | cons d ds => simp_all

/-- A step that leaves the table and the descriptor history alone. -/
theorem of_eq (hs : TableInv base s) (hfds : t.fds.slots t.nfds = s.slots) (hnfds : t.nfds = s.nfds)
    (hsock : t.sock_server = s.sock_server) (hhist : t.history = s.history)
    (hfault : ∀ i, t.phase ≠ .fault i) (hexit : s.phase ≠ .exited) : TableInv base t := by
  have hslots : t.slots = s.slots := hfds
  exact {
    range := ⟨by rw [hnfds]; exact hs.range.pos, by rw [hnfds]; exact hs.range.le⟩
    noFault := hfault
    head := by rw [hslots, hsock]; exact hs.head
    nodup := by rw [hslots]; exact hs.nodup
    isOpen := by intro _; rw [hslots, hhist]; exact hs.isOpen hexit
    stored := by rw [hslots, hhist, hsock]; exact hs.stored
    closes := by rw [hhist]; exact hs.closes }

/-! ## The steps that change the table -/

/-- Storing a client that is not open appends a new descriptor. -/
theorem stores (hs : TableInv base s) (hphase : s.phase = .listener) {sock_client : Int}
    (hpos : 0 ≤ sock_client) (hroom : s.nfds < maxConnection)
    (hfresh : sock_client ∉ openFds base s.history) :
    TableInv base
      { s with
        fds := s.fds.modify s.nfds fun p => { p with fd := sock_client, events := pollIn }
        nfds := s.nfds + 1
        phase := .clients 1
        trace := .stored sock_client :: .accept sock_client :: s.trace } := by
  set t : State := { s with
    fds := s.fds.modify s.nfds fun p => { p with fd := sock_client, events := pollIn }
    nfds := s.nfds + 1
    phase := .clients 1
    trace := .stored sock_client :: .accept sock_client :: s.trace } with ht
  have hslots : t.slots = s.slots ++ [sock_client] := s.fds.slots_append hroom fun _ => rfl
  have hhist : t.history = .stored sock_client :: .opened sock_client :: s.history :=
    State.history_stores hpos rfl
  have hrun : s.phase ≠ .exited := by simp [hphase]
  have hout : sock_client ∉ s.slots := fun hmem => hfresh (hs.isOpen hrun _ hmem)
  have hne : sock_client ≠ s.sock_server := fun he => hout (he ▸ hs.sock_mem_slots)
  refine ⟨⟨Nat.succ_pos _, hroom⟩, by simp [ht], ?_, ?_, ?_, ?_, ?_⟩
  · show t.slots[0]? = some s.sock_server
    rw [hslots, hs.slots_eq]
    rfl
  · exact PollArray.nodup_slots_append hs.nodup hroom (fun _ => rfl) hout
  · intro _ d hd
    rw [hslots, List.mem_append, List.mem_singleton] at hd
    rw [hhist, openFds_stored, openFds_opened, Finset.mem_insert]
    rcases hd with hd | hd
    · exact .inr (hs.isOpen hrun d hd)
    · exact .inl hd
  · intro d
    rw [hhist, storedFds_stored, storedFds_opened, Finset.mem_insert, hs.stored, hslots]
    simp only [List.mem_append, List.mem_singleton, ht]
    constructor
    · rintro (rfl | ⟨hd, hsock⟩)
      · exact ⟨.inr rfl, hne⟩
      · exact ⟨.inl hd, hsock⟩
    · rintro ⟨hd | hd, hsock⟩
      · exact .inr ⟨hd, hsock⟩
      · exact .inl hd
  · rw [hhist]
    simpa using hs.closes

/-- Closing slot `i`, `i ≥ 1`, and refilling it with the last descriptor removes one client. -/
theorem refill (hs : TableInv base s) (hrun : s.phase ≠ .exited) {i : ℕ} {p q : PollFd}
    {calls : List Call} (hi : 1 ≤ i) (hlt : i < s.nfds) (hp : s.fds.get? i = some p)
    (hq : s.fds.get? (s.nfds - 1) = some q)
    (hcalls : calls.filterMap Call.fdOp = [.closed p.fd]) : TableInv base (s.refill i q.fd calls) := by
  set t := s.refill i q.fd calls with ht
  have hslots : t.slots = swapRemove s.slots i := s.fds.slots_remove hs.range.le hlt hp hq rfl
  have hlen : i < s.slots.length := by rw [hs.length_slots]; exact hlt
  have hhist : t.history = .closed p.fd :: s.history := State.history_refill hcalls
  have hmem : ∀ d, d ∈ t.slots ↔ d ∈ s.slots ∧ d ≠ p.fd := fun d =>
    PollArray.mem_slots_remove hs.nodup hs.range.le hlt hp hq rfl
  have hpos' : 1 ≤ s.nfds - 1 := by omega
  refine ⟨⟨hpos', (Nat.sub_le _ _).trans hs.range.le⟩, by simp [ht, State.refill], ?_, ?_, ?_, ?_, ?_⟩
  · -- slot 0 is below the removed slot
    show t.slots[0]? = some s.sock_server
    rw [hslots, getElem?_swapRemove hlen, hs.length_slots, if_pos (by omega), if_neg (by omega)]
    exact hs.head
  · rw [hslots]
    exact nodup_swapRemove hs.nodup i
  · intro _ d hd
    obtain ⟨hin, hne⟩ := (hmem d).mp hd
    rw [hhist, openFds_closed, Finset.mem_erase]
    exact ⟨hne, hs.isOpen hrun d hin⟩
  · intro d
    rw [hhist, storedFds_closed, Finset.mem_erase, hs.stored, hmem]
    constructor
    · rintro ⟨hne, hin, hsock⟩
      exact ⟨⟨hin, hne⟩, hsock⟩
    · rintro ⟨⟨hin, hne⟩, hsock⟩
      exact ⟨hne, hin, hsock⟩
  · rw [hhist, closesOpen_closed]
    exact ⟨hs.isOpen hrun _ (PollArray.mem_slots.mpr ⟨i, p, hlt, hp, rfl⟩), hs.closes⟩

/-- After a failed `poll` the listener is closed, and the loop is over. -/
theorem exits (hs : TableInv base s) (hphase : s.phase = .polling) :
    TableInv base { s with phase := .exited, trace := .close s.sock_server :: s.trace } := by
  have hopen := hs.isOpen (by simp [hphase]) _ hs.sock_mem_slots
  refine ⟨⟨hs.range.pos, hs.range.le⟩, by simp, hs.head, hs.nodup, by simp, ?_, ?_⟩
  · intro d
    have hstored := hs.stored d
    rw [State.history, List.filterMap_cons_some (Call.fdOp_close _), storedFds_closed, Finset.mem_erase]
    constructor
    · rintro ⟨-, hd⟩
      exact hstored.mp hd
    · intro hd
      exact ⟨hd.2, hstored.mpr hd⟩
  · simpa [State.history] using ⟨hopen, hs.closes⟩

/-! ## The step lemma and the run lemma -/

theorem of_step {e : Event} (hs : TableInv base s) (hfresh : FreshAccept base s e)
    (h : step s e = some t) : TableInv base t := by
  cases Step.of_step hs.range h with
  | pollFails hphase _ => exact hs.exits hphase
  | polls hphase _ =>
      exact hs.of_eq (s.fds.slots_report _ _ _) rfl rfl rfl (by simp) (by simp [hphase])
  | acceptFails hphase hneg =>
      exact hs.of_eq rfl rfl rfl (State.history_acceptFails hneg rfl) (by simp) (by simp [hphase])
  | stores hphase hpos hroom => exact hs.stores hphase hpos hroom (hfresh hpos)
  | @full sock_client hphase hpos hfull =>
      -- the client is open from now on, but the table does not know it
      have hrun : s.phase ≠ .exited := by simp [hphase]
      refine ⟨⟨hs.range.pos, hs.range.le⟩, by simp, hs.head, hs.nodup, ?_, ?_, ?_⟩
      · intro _ d hd
        rw [State.history_full (s := s) hpos rfl, openFds_opened]
        exact Finset.mem_insert_of_mem (hs.isOpen hrun d hd)
      · rw [State.history_full (s := s) hpos rfl]
        exact hs.stored
      · rw [State.history_full (s := s) hpos rfl]
        exact hs.closes
  | noListener hphase => exact hs.of_eq rfl rfl rfl rfl (by simp) (by simp [hphase])
  | keeps hphase _ _ _ _ _ =>
      refine hs.of_eq rfl rfl rfl ?_ (by simp) (by simp [hphase])
      exact (List.filterMap_cons_none (Call.fdOp_send _ _)).trans
        (List.filterMap_cons_none (Call.fdOp_recv _))
  | @drops i p q received _ _ _ hphase hi hlt hp _ _ hq hsends =>
      exact hs.refill (by simp [hphase]) hi hlt hp hq (fdOps_drops hsends)
  | skips hphase _ _ _ _ => exact hs.of_eq rfl rfl rfl rfl (by simp) (by simp [hphase])
  | endRound hphase _ => exact hs.of_eq rfl rfl rfl rfl (by simp) (by simp [hphase])

theorem init (others : Finset Int) (sock_server : Int) :
    TableInv (insert sock_server others) (init sock_server) := by
  have hslots : (PollServer.init sock_server).slots = [sock_server] := rfl
  refine ⟨inRange_init _, by simp [PollServer.init], by rw [hslots]; rfl, by simp [hslots], ?_, ?_,
    trivial⟩
  · intro _ d hd
    rw [hslots, List.mem_singleton] at hd
    subst hd
    exact Finset.mem_insert_self d others
  · intro d
    rw [hslots]
    constructor
    · intro hd
      exact absurd hd (Finset.notMem_empty d)
    · rintro ⟨hd, hne⟩
      exact absurd (List.mem_singleton.mp hd) hne

theorem of_reach {others : Finset Int} {sock_server : Int}
    (h : Reach step (FreshAccept (insert sock_server others)) (PollServer.init sock_server) s) :
    TableInv (insert sock_server others) s ∧ s.sock_server = sock_server := by
  refine h.invariant (I := fun s => TableInv _ s ∧ s.sock_server = sock_server) ?_
    ⟨init others sock_server, rfl⟩
  rintro s e t ⟨hs, hsock⟩ hok hstep
  exact ⟨hs.of_step hok hstep, (Step.of_step hs.range hstep).sock_server.trans hsock⟩

end TableInv

/-! ## The table of a running server -/

/-- **The connection table of the poll server.** Whatever `poll`, `accept`, `recv` and `send` answer,
as long as `accept` returns a descriptor that is not open: no index of `fds` is out of range, no
descriptor is closed that is not open, and while the loop runs slot 0 is the listener and the other
slots are exactly the stored clients that have not been closed, each once. -/
theorem table_of_reach (others : Finset Int) (sock_server : Int) (s : State)
    (h : Reach step (FreshAccept (insert sock_server others)) (init sock_server) s) :
    (∀ i, s.phase ≠ .fault i) ∧ ClosesOpen (insert sock_server others) s.history ∧
      (s.phase ≠ .exited →
        1 ≤ s.nfds ∧ s.nfds ≤ maxConnection ∧ s.slots[0]? = some sock_server ∧
          s.clients.Nodup ∧ sock_server ∉ s.clients ∧ s.clients.toFinset = storedFds s.history) := by
  obtain ⟨hs, rfl⟩ := TableInv.of_reach h
  have hnodup : (s.sock_server :: s.clients).Nodup := hs.slots_eq ▸ hs.nodup
  rw [List.nodup_cons] at hnodup
  refine ⟨hs.noFault, hs.closes, fun _ => ⟨hs.range.pos, hs.range.le, hs.head, hnodup.2, hnodup.1, ?_⟩⟩
  ext d
  rw [List.mem_toFinset, hs.stored, hs.slots_eq, List.mem_cons]
  constructor
  · intro hd
    exact ⟨.inr hd, ne_of_mem_of_not_mem hd hnodup.1⟩
  · rintro ⟨hd | hd, hne⟩
    · exact absurd hd hne
    · exact hd

/-- Listener 3; clients 4 and 5 connect; then 4 has closed its end, 5 gets its slot and is served there, and the
descriptor 4 is given to another client. -/
def reusedRun : List Event :=
  let listener : ℕ → BitVec 16 := fun i => if i = 0 then pollIn else 0
  [.poll 1 listener, .accept 4, .tau, .tau, .poll 1 listener, .accept 5, .tau, .tau, .tau,
    .poll 1 fun i => if i = 1 then pollIn else 0, .tau, .serve (.data []) 0 0, .serve (.data [104, 105]) 0 14,
    .tau, .poll 1 listener, .accept 4]

theorem table_of_reach_reused :
    ∃ s, Reach step (FreshAccept (insert 3 {0, 1, 2})) (init 3) s ∧ s.clients = [5, 4] ∧
      s.clients.toFinset = storedFds s.history := by
  have hrun : (execOk step (FreshAccept (insert 3 {0, 1, 2})) (init 3) reusedRun).any
      (fun s => s.phase ≠ .exited ∧ s.clients = [5, 4]) = true := by decide
  obtain ⟨s, hreach, hs⟩ := exists_reach_of_exec hrun
  obtain ⟨hphase, hclients⟩ := of_decide_eq_true hs
  exact ⟨s, hreach, hclients, ((table_of_reach {0, 1, 2} 3 s hreach).2.2 hphase).2.2.2.2.2⟩

end LinuxNet.Tutorials.PollServer
