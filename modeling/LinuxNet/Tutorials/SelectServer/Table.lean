/-
# LinuxNet.Tutorials.SelectServer.Table — the three places where a client is kept

`fds_client`, `master_set` and `global_max_fd` are updated at three places of the loop body, during a
scan over `read_set`, a copy of `master_set` from before the round. `TableInv` is what every path keeps.
The scan does not go wrong over a stale copy because of `ahead`: what `read_set` has at or above `i` is
still in `master_set`. A descriptor is only taken out of `master_set` when the scan is at it, and one that
`accept` hands out anew was not open, so it cannot be ahead of the scan.
-/
import LinuxNet.Tutorials.SelectServer.Loop
import Mathlib.Data.Int.Interval

namespace LinuxNet.Tutorials.SelectServer

open LinuxNet.Lib LinuxNet.Lib.FdLedger LinuxNet.Posix

/-- **The table invariant.** -/
structure TableInv (base : Finset Int) (s : State) : Prop where
  master : s.master_set = insert s.sock_server s.clients.toFinset
  nodup : s.clients.Nodup
  sock_notMem : s.sock_server ∉ s.clients
  isOpen : ∀ d ∈ s.master_set, d ∈ openFds base s.history
  le_max : ∀ d ∈ s.master_set, d ≤ s.global_max_fd
  /-- what is ahead of the scan is still monitored -/
  ahead : ∀ i, s.phase = .scan i → ∀ d ∈ s.read_set, i ≤ d → d ∈ s.master_set
  closes : ClosesOpen base s.history

namespace TableInv

variable {base : Finset Int} {s t : State}

theorem mem_master (hs : TableInv base s) {d : Int} :
    d ∈ s.master_set ↔ d = s.sock_server ∨ d ∈ s.clients := by
  rw [hs.master, Finset.mem_insert, List.mem_toFinset]

/-- **A readable descriptor the scan has come to is a client**, if it is not the listening socket. -/
theorem mem_clients (hs : TableInv base s) {i : Int} (hphase : s.phase = .scan i)
    (hmem : i ∈ s.read_set) (hsock : i ≠ s.sock_server) : i ∈ s.clients :=
  (hs.mem_master.mp (hs.ahead i hphase i hmem le_rfl)).resolve_left hsock

/-- A step that leaves the table and the descriptor history alone. -/
theorem of_eq (hs : TableInv base s) (hclients : t.clients = s.clients)
    (hmaster : t.master_set = s.master_set) (hmax : t.global_max_fd = s.global_max_fd)
    (hsock : t.sock_server = s.sock_server) (hhist : t.history = s.history)
    (hahead : ∀ i, t.phase = .scan i → ∀ d ∈ t.read_set, i ≤ d → d ∈ s.master_set) :
    TableInv base t := by
  refine ⟨?_, ?_, ?_, ?_, ?_, ?_, ?_⟩
  · rw [hmaster, hsock, hclients]
    exact hs.master
  · rw [hclients]
    exact hs.nodup
  · rw [hsock, hclients]
    exact hs.sock_notMem
  · rw [hmaster, hhist]
    exact hs.isOpen
  · rw [hmaster, hmax]
    exact hs.le_max
  · rw [hmaster]
    exact hahead
  · rw [hhist]
    exact hs.closes

/-- The scan goes on by one descriptor. -/
theorem ahead_next (hs : TableInv base s) {i : Int} (hphase : s.phase = .scan i) {j : Int}
    (hj : Phase.scan (i + 1) = .scan j) {d : Int} (hd : d ∈ s.read_set) (hle : j ≤ d) :
    d ∈ s.master_set ∧ d ≠ i := by
  cases hj
  exact ⟨hs.ahead i hphase d hd (by omega), by omega⟩

/-! ## The steps that change the table -/

/-- Storing a client that is not open. -/
theorem stores (hs : TableInv base s) {i sock_client : Int} (hphase : s.phase = .scan i)
    (hpos : 0 < sock_client) (hroom : 0 ∈ s.fds_client.cells)
    (hfresh : sock_client ∉ openFds base s.history) :
    TableInv base
      { s with
        fds_client := s.fds_client.replaceFirst 0 sock_client
        master_set := insert sock_client s.master_set
        global_max_fd := max s.global_max_fd sock_client
        phase := .scan (i + 1)
        trace := .fdSet sock_client :: .accept sock_client :: .fdIsset i :: s.trace } := by
  set t : State := { s with
    fds_client := s.fds_client.replaceFirst 0 sock_client
    master_set := insert sock_client s.master_set
    global_max_fd := max s.global_max_fd sock_client
    phase := .scan (i + 1)
    trace := .fdSet sock_client :: .accept sock_client :: .fdIsset i :: s.trace } with ht
  have hperm : t.clients.Perm (sock_client :: s.clients) := SlotArray.inUse_store hpos.ne' hroom
  have hout : sock_client ∉ s.master_set := fun hmem => hfresh (hs.isOpen _ hmem)
  have hne : sock_client ≠ s.sock_server := fun h => hout (hs.mem_master.mpr (.inl h))
  have hnew : sock_client ∉ s.clients := fun h => hout (hs.mem_master.mpr (.inr h))
  have hhist : t.history = .opened sock_client :: s.history := State.history_stores hpos.le rfl
  refine ⟨?_, ?_, ?_, ?_, ?_, ?_, ?_⟩
  · show insert sock_client s.master_set = insert s.sock_server t.clients.toFinset
    rw [List.toFinset_eq_of_perm _ _ hperm, List.toFinset_cons, hs.master, Finset.insert_comm]
  · exact hperm.nodup_iff.mpr (List.nodup_cons.mpr ⟨hnew, hs.nodup⟩)
  · show s.sock_server ∉ t.clients
    rw [hperm.mem_iff, List.mem_cons, not_or]
    exact ⟨Ne.symm hne, hs.sock_notMem⟩
  · intro d hd
    rw [hhist, openFds_opened, Finset.mem_insert]
    rcases Finset.mem_insert.mp hd with hd | hd
    · exact .inl hd
    · exact .inr (hs.isOpen d hd)
  · intro d hd
    show d ≤ max s.global_max_fd sock_client
    rcases Finset.mem_insert.mp hd with rfl | hd
    · exact le_max_right _ _
    · exact (hs.le_max d hd).trans (le_max_left _ _)
  · intro j hj d hd hle
    exact Finset.mem_insert_of_mem (hs.ahead_next hphase hj hd hle).1
  · rw [hhist]
    exact hs.closes

/-- Closing the client the scan is at. -/
theorem without (hs : TableInv base s) {i : Int} (hphase : s.phase = .scan i)
    (hmem : i ∈ s.read_set) (hsock : i ≠ s.sock_server) {calls : List Call}
    (hcalls : calls.filterMap Call.fdOp = [.closed i]) : TableInv base (s.without i calls) := by
  have hclient := hs.mem_clients hphase hmem hsock
  have hzero : i ≠ 0 := (SlotArray.mem_inUse.mp hclient).2
  have hhist : (s.without i calls).history = .closed i :: s.history := State.history_without hcalls
  have hclients : ∀ d, d ∈ (s.without i calls).clients ↔ d ≠ i ∧ d ∈ s.clients := fun d =>
    SlotArray.mem_inUse_clear hzero hs.nodup
  refine ⟨?_, ?_, ?_, ?_, ?_, ?_, ?_⟩
  · ext d
    show d ∈ s.master_set.erase i ↔ d ∈ insert s.sock_server _
    rw [Finset.mem_erase, hs.mem_master, Finset.mem_insert, List.mem_toFinset, hclients]
    constructor
    · rintro ⟨hne, hd | hd⟩
      · exact .inl hd
      · exact .inr ⟨hne, hd⟩
    · rintro (rfl | ⟨hne, hd⟩)
      · exact ⟨Ne.symm hsock, .inl rfl⟩
      · exact ⟨hne, .inr hd⟩
  · show (SlotArray.inUse 0 (s.fds_client.replaceFirst i 0)).Nodup
    rw [SlotArray.inUse_clear hzero]
    exact hs.nodup.erase i
  · intro hmem'
    exact hs.sock_notMem ((hclients _).mp hmem').2
  · intro d hd
    obtain ⟨hne, hd⟩ := Finset.mem_erase.mp hd
    rw [hhist, openFds_closed, Finset.mem_erase]
    exact ⟨hne, hs.isOpen d hd⟩
  · intro d hd
    exact hs.le_max d (Finset.mem_of_mem_erase hd)
  · intro j hj d hd hle
    obtain ⟨hin, hne⟩ := hs.ahead_next hphase hj hd hle
    exact Finset.mem_erase.mpr ⟨hne, hin⟩
  · rw [hhist, closesOpen_closed]
    exact ⟨hs.isOpen i (hs.mem_master.mpr (.inr hclient)), hs.closes⟩

/-- A client that finds the table full is open from now on, but the table does not know it. -/
theorem full (hs : TableInv base s) {i sock_client : Int} (hphase : s.phase = .scan i)
    (hpos : 0 ≤ sock_client) :
    TableInv base
      { s with phase := .scan (i + 1), trace := .accept sock_client :: .fdIsset i :: s.trace } := by
  set t : State :=
    { s with phase := .scan (i + 1), trace := .accept sock_client :: .fdIsset i :: s.trace } with ht
  have hhist : t.history = .opened sock_client :: s.history := State.history_full hpos rfl
  refine ⟨hs.master, hs.nodup, hs.sock_notMem, ?_, hs.le_max, ?_, ?_⟩
  · intro d hd
    rw [hhist, openFds_opened]
    exact Finset.mem_insert_of_mem (hs.isOpen d hd)
  · intro j hj d hd hle
    exact (hs.ahead_next hphase hj hd hle).1
  · rw [hhist]
    exact hs.closes

/-! ## The step lemma and the run lemma -/

theorem of_step {e : Event} (hs : TableInv base s) (hfresh : NewAccept base s e)
    (h : step s e = some t) : TableInv base t := by
  rcases Step.of_step h with ⟨hphase, -⟩ | ⟨hphase, -⟩ | @⟨i, sock_client, hphase, -, -, hneg⟩ |
    ⟨hphase, -, -, hpos, hroom⟩ | ⟨hphase, -, -, hpos, -⟩ | ⟨hphase, -, -, -⟩ |
    ⟨hphase, hmem, hsock, -, hsends⟩ | ⟨hphase, -, -⟩ | ⟨hphase, -⟩
  · exact hs.of_eq rfl rfl rfl rfl rfl fun j _ d hd _ => hd
  · exact hs.of_eq rfl rfl rfl rfl rfl fun j _ d hd _ => Finset.mem_of_mem_inter_left hd
  · exact hs.of_eq rfl rfl rfl rfl (State.history_acceptFails hneg rfl)
      fun j hj d hd hle => (hs.ahead_next hphase hj hd hle).1
  · obtain ⟨hpos', hnew⟩ := hfresh hpos
    exact hs.stores hphase hpos' hroom hnew
  · exact hs.full hphase hpos
  · exact hs.of_eq rfl rfl rfl rfl rfl fun j hj d hd hle => (hs.ahead_next hphase hj hd hle).1
  · exact hs.without hphase hmem hsock (fdOps_drops hsends)
  · exact hs.of_eq rfl rfl rfl rfl rfl fun j hj d hd hle => (hs.ahead_next hphase hj hd hle).1
  · exact hs.of_eq rfl rfl rfl rfl rfl fun j hj => nomatch hj

theorem init (others : Finset Int) (sock_server : Int) :
    TableInv (insert sock_server others) (init sock_server) := by
  have hclients : (SelectServer.init sock_server).clients = [] := SlotArray.inUse_filled 0
  refine ⟨?_, ?_, ?_, ?_, ?_, (fun j hj => nomatch hj), trivial⟩
  · rw [hclients]
    rfl
  · rw [hclients]
    exact List.nodup_nil
  · rw [hclients]
    exact List.not_mem_nil
  · intro d hd
    rw [Finset.mem_singleton.mp hd]
    exact Finset.mem_insert_self sock_server others
  · intro d hd
    rw [Finset.mem_singleton.mp hd]
    exact le_max_right 0 sock_server

theorem of_reach {others : Finset Int} {sock_server : Int}
    (h : Reach step (FreshAccept (insert sock_server others)) (SelectServer.init sock_server) s) :
    TableInv (insert sock_server others) s ∧ s.sock_server = sock_server := by
  refine h.invariant (I := fun s => TableInv _ s ∧ s.sock_server = sock_server) ?_
    ⟨init others sock_server, rfl⟩
  rintro s e t ⟨hs, hsock⟩ hok hstep
  exact ⟨hs.of_step hok.1 hstep, (Step.of_step hstep).sock_server.trans hsock⟩

end TableInv

/-! ## The table of a running server -/

/-- A step calls `recv` on the descriptor the scan is at, and on no other. -/
theorem recv_of_step {s t : State} {e : Event} (h : step s e = some t) {calls : List Call}
    (ht : t.trace = calls ++ s.trace) {d : Int} (hd : .recv d ∈ calls) :
    s.phase = .scan d ∧ d ∈ s.read_set ∧ d ≠ s.sock_server := by
  have hnew : ∀ made : List Call, made ++ s.trace = calls ++ s.trace → .recv d ∈ made := by
    intro made hmade
    rw [List.append_cancel_right hmade]
    exact hd
  rcases Step.of_step h with ⟨-, -⟩ | ⟨-, -⟩ | ⟨-, -, -, -⟩ | ⟨-, -, -, -, -⟩ | ⟨-, -, -, -, -⟩ |
    @⟨i, received, time, sent_bytes, hphase, hmem, hsock, -⟩ |
    @⟨i, received, time, sent_bytes, sends, hphase, hmem, hsock, -, hsends⟩ | ⟨-, -, -⟩ | ⟨-, -⟩
  · simpa using hnew [_] ht
  · simpa using hnew [_] ht
  · simpa using hnew [_, _] ht
  · simpa using hnew [_, _, _] ht
  · simpa using hnew [_, _] ht
  · obtain rfl : d = i := by simpa using hnew [_, _, _] ht
    exact ⟨hphase, hmem, hsock⟩
  · have hin : .recv d ∈ .fdClr i :: .close i :: (sends ++ [.recv i, .fdIsset i]) := hnew _ ht
    obtain rfl : d = i := by
      rw [hsends] at hin
      split at hin
      · simpa using hin
      · simpa using hin
    exact ⟨hphase, hmem, hsock⟩
  · simpa using hnew [_] ht
  · simpa using hnew [] ht

/-- **The three places agree**, in a loop with the steps `next`, under what `ok` assumes of the kernel:
`master_set` is the listening socket and the clients in the slots, these are distinct, open and not the
listening socket, nothing monitored is beyond `global_max_fd`, no descriptor is closed that is not open, and
`recv` is called on clients only. -/
structure Agreement (next : State → Event → Option State) (ok : State → Event → Prop) (base : Finset Int)
    (sock_server : Int) (s : State) : Prop where
  master : s.master_set = insert sock_server s.clients.toFinset
  nodup : s.clients.Nodup
  clients : ∀ d ∈ s.clients, d ∈ openFds base s.history ∧ d ≠ sock_server
  le_max : ∀ d ∈ s.master_set, d ≤ s.global_max_fd
  closes : ClosesOpen base s.history
  recv : ∀ e t calls d, ok s e → next s e = some t → t.trace = calls ++ s.trace → .recv d ∈ calls →
    d ∈ s.clients

/-- **The three places agree below `FD_SETSIZE`.** Whatever `select`, `accept`, `recv` and `send` answer and
whatever lies behind the sets, as long as `accept` returns a positive descriptor that is not open, and the
descriptors that get into the sets have their bit there. -/
theorem agreement_of_reach (frame : State → Event → Option State) (others : Finset Int) {sock_server : Int}
    (hsock : sock_server < fdSetSize) {s : State}
    (h : Reach (stepInFrame frame) (FreshAccept (insert sock_server others)) (init sock_server) s) :
    Agreement (stepInFrame frame) (FreshAccept (insert sock_server others)) (insert sock_server others)
      sock_server s := by
  have hbelow (s : State) (e : Event) (hfresh : FreshAccept (insert sock_server others) s e) :
      BelowSetSize s e := hfresh.2
  rw [reach_stepInFrame_iff hbelow hsock] at h
  have hmax := max_lt_of_reach hbelow hsock h
  obtain ⟨hs, rfl⟩ := TableInv.of_reach h
  refine ⟨hs.master, hs.nodup, ?_, hs.le_max, hs.closes, ?_⟩
  · intro d hd
    exact ⟨hs.isOpen d (hs.mem_master.mpr (.inr hd)), ne_of_mem_of_not_mem hd hs.sock_notMem⟩
  · intro e t calls d hfresh hstep ht hd
    rw [stepInFrame, if_pos (insideSets_of_below hmax hfresh.2)] at hstep
    obtain ⟨hphase, hmem, hsock⟩ := recv_of_step hstep ht hd
    exact hs.mem_clients hphase hmem hsock

/-- The listener being 3, the clients 4 and 5 are accepted, `select` fails, and in the scan that follows client
4 hangs up and client 5 is read. -/
theorem agreement_of_reach_two_clients :
    ∃ s, Reach (stepInFrame debugFrame) (FreshAccept (insert 3 {0, 1, 2})) (init 3) s ∧ s.clients = [5] ∧
      s.master_set = insert 3 s.clients.toFinset := by
  have hrun : (execOk (stepInFrame debugFrame) (FreshAccept (insert 3 {0, 1, 2})) (init 3)
      [.select 1 {3}, .tau, .tau, .tau, .accept 4, .tau, .tau,
        .select 1 {3}, .tau, .tau, .tau, .accept 5, .tau, .tau, .tau,
        .select (-1) ∅, .tau, .tau, .tau, .accept (-1), .serve (.data []) 0 0,
        .serve (.data [104, 105]) 0 14]).any (fun s => s.clients = [5]) = true := by decide
  obtain ⟨s, hreach, hs⟩ := exists_reach_of_exec hrun
  exact ⟨s, hreach, of_decide_eq_true hs, (agreement_of_reach _ {0, 1, 2} (by decide) hreach).master⟩

/-- **They do not agree beyond it.** The descriptors below 1028 are in use, the listener is 3, and a client
connects: it gets 1028, and the `FD_SET` makes the entry 1044 of it. -/
theorem not_agreement :
    ¬ ∀ (others : Finset Int) (sock_server : Int) (s : State),
      Reach (stepInFrame debugFrame) (NewAccept (insert sock_server others)) (init sock_server) s →
        Agreement (stepInFrame debugFrame) (NewAccept (insert sock_server others))
          (insert sock_server others) sock_server s := by
  intro hall
  have hrun : (execOk (stepInFrame debugFrame) (NewAccept (insert 3 (Finset.Icc 0 1027))) (init 3)
      [.select 1 {3}, .tau, .tau, .tau, .accept 1028]).any
        (fun s => s.clients = [1044] ∧ s.master_set = {3}) = true := by decide +kernel
  obtain ⟨s, hreach, hs⟩ := exists_reach_of_exec hrun
  obtain ⟨hclients, hmaster⟩ := of_decide_eq_true hs
  have hagrees := (hall (Finset.Icc 0 1027) 3 s hreach).master
  rw [hclients, hmaster] at hagrees
  revert hagrees
  decide

end LinuxNet.Tutorials.SelectServer
