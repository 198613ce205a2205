/-
# LinuxNet.Tutorials.SelectServer.Bound — does the select server stay below `FD_SETSIZE`?

An `fd_set` has room for the descriptors below `FD_SETSIZE`, and the server has no test for it. It never
monitors more than `MAX_CONNECTION` clients, but it goes on accepting when its slots are taken, and those
descriptors stay open for ever; with each of them the descriptors that are handed out get higher.

They are not monitored, though, and a kernel that hands out the lowest unused descriptor fills the gaps
first: what is monitored stays in the window of `MAX_CONNECTION` descriptors above the listening socket
(`Window`), however many descriptors were lost above it.
-/
import LinuxNet.Lib.LowestFirst
import LinuxNet.Tutorials.SelectServer.Table

namespace LinuxNet.Tutorials.SelectServer

open LinuxNet.Lib LinuxNet.Lib.FdLedger LinuxNet.Posix
open LinuxNet.Tutorials.PollServer (responseText)

/-- The descriptor `FD_SET`, `FD_CLR` or `FD_ISSET` is called with. -/
def Call.fdArg : Call → Option Int
  | .fdIsset fd | .fdSet fd | .fdClr fd => some fd
  | .select _ | .accept _ | .recv _ | .send _ _ | .close _ => none

/-- The assumption on `accept`: it returns the lowest descriptor that is not open. -/
def LowestAccept (base : Finset Int) (s : State) : Event → Prop
  | .accept sock_client => 0 ≤ sock_client → IsLowest (openFds base s.history) sock_client
  | _ => True

instance (base : Finset Int) (s : State) : (e : Event) → Decidable (LowestAccept base s e)
  | .accept sock_client =>
    inferInstanceAs (Decidable (0 ≤ sock_client → IsLowest (openFds base s.history) sock_client))
  | .select _ _ | .serve _ _ _ | .tau => isTrue trivial

/-- The highest descriptor a client can be monitored with. -/
def State.bound (s : State) : Int := s.sock_server + maxConnection

/-- **The bound invariant.** -/
structure BoundInv (base : Finset Int) (s : State) : Prop where
  table : TableInv base s
  window : Window s.sock_server maxConnection (openFds base s.history) s.clients.toFinset
  max_le : s.global_max_fd ≤ s.bound
  args : ∀ call ∈ s.trace, ∀ d, call.fdArg = some d → d ≤ s.bound

namespace BoundInv

variable {base : Finset Int} {s t : State}

theorem clients_subset (hs : BoundInv base s) : s.clients.toFinset ⊆ openFds base s.history := by
  intro d hd
  exact hs.table.isOpen d (hs.table.mem_master.mpr (.inr (List.mem_toFinset.mp hd)))

theorem card_clients (hs : BoundInv base s) : s.clients.toFinset.card = s.clients.length :=
  List.toFinset_card_of_nodup hs.table.nodup

/-- Descriptor 0 stays open, so a new one is positive. -/
theorem isNew {e : Event} (hs : BoundInv base s) (hlow : LowestAccept base s e) : NewAccept base s e := by
  rcases e with ⟨activity, ready⟩ | sock_client | ⟨received, time, sent_bytes⟩ | _
  · trivial
  · intro hpos
    have hout := (hlow hpos).1
    have hlt := hs.window.lt_of_notMem hpos hout
    exact ⟨hs.window.nonneg.trans_lt hlt, hout⟩
  · trivial
  · trivial

/-- With a free slot, fewer than `MAX_CONNECTION` clients are kept, so the lowest descriptor is in the
window. -/
theorem mem_window (hs : BoundInv base s) {sock_client : Int} (hpos : 0 ≤ sock_client)
    (hroom : 0 ∈ s.fds_client.cells) (hlow : IsLowest (openFds base s.history) sock_client) :
    sock_client ∈ Finset.Ioc s.sock_server s.bound := by
  have hfree : s.clients.toFinset.card < maxConnection := by
    by_contra hfull
    rw [hs.card_clients] at hfull
    have hle : s.clients.length ≤ maxConnection := by
      rw [← s.fds_client.size_eq]
      exact List.length_filter_le _ _
    exact SlotArray.free_notMem_of_eq (Nat.le_antisymm hle (Nat.not_lt.mp hfull)) hroom
  exact hs.window.mem_of_room hfree hpos hlow

/-- What the scan is at is monitored, or not beyond the maximum. -/
theorem scanned_le (hs : BoundInv base s) {i : Int} (hphase : s.phase = .scan i)
    (hmem : i ∈ s.read_set) : i ≤ s.bound :=
  (hs.table.le_max i (hs.table.ahead i hphase i hmem le_rfl)).trans hs.max_le

/-- The calls of one step, when the listening socket is the same. -/
theorem args_append (hs : BoundInv base s) (hsock : t.sock_server = s.sock_server) (calls : List Call)
    (hcalls : ∀ call ∈ calls, ∀ d, call.fdArg = some d → d ≤ s.bound)
    (ht : t.trace = calls ++ s.trace) :
    ∀ call ∈ t.trace, ∀ d, call.fdArg = some d → d ≤ t.bound := by
  intro call hcall d hd
  rw [State.bound, hsock]
  rw [ht] at hcall
  rcases List.mem_append.mp hcall with hcall | hcall
  · exact hcalls call hcall d hd
  · exact hs.args call hcall d hd

/-- A step that leaves the clients and the open descriptors alone. -/
theorem of_eq (hs : BoundInv base s) (htable : TableInv base t) (hclients : t.clients = s.clients)
    (hmax : t.global_max_fd = s.global_max_fd) (hsock : t.sock_server = s.sock_server)
    (hhist : t.history = s.history) (calls : List Call)
    (hcalls : ∀ call ∈ calls, ∀ d, call.fdArg = some d → d ≤ s.bound)
    (ht : t.trace = calls ++ s.trace) : BoundInv base t := by
  refine ⟨htable, ?_, ?_, hs.args_append hsock calls hcalls ht⟩
  · rw [hsock, hhist, hclients]
    exact hs.window
  · rw [hmax, State.bound, hsock]
    exact hs.max_le

/-! ## The steps that open or close a descriptor -/

/-- A client is stored: there was room, so its descriptor is in the window. -/
theorem stores (hs : BoundInv base s) {i sock_client : Int} (hphase : s.phase = .scan i)
    (hmem : i ∈ s.read_set) (hpos : 0 ≤ sock_client) (hroom : 0 ∈ s.fds_client.cells)
    (hlow : IsLowest (openFds base s.history) sock_client)
    (htable : TableInv base
      { s with
        fds_client := s.fds_client.replaceFirst 0 sock_client
        master_set := insert sock_client s.master_set
        global_max_fd := max s.global_max_fd sock_client
        phase := .scan (i + 1)
        trace := .fdSet sock_client :: .accept sock_client :: .fdIsset i :: s.trace }) :
    BoundInv base
      { s with
        fds_client := s.fds_client.replaceFirst 0 sock_client
        master_set := insert sock_client s.master_set
        global_max_fd := max s.global_max_fd sock_client
        phase := .scan (i + 1)
        trace := .fdSet sock_client :: .accept sock_client :: .fdIsset i :: s.trace } := by
  set t : State := { s with
    fds_client := s.fds_client.replaceFirst 0 sock_client
    master_set := insert sock_client s.master_set
    global_max_fd := max s.global_max_fd sock_client
    phase := .scan (i + 1)
    trace := .fdSet sock_client :: .accept sock_client :: .fdIsset i :: s.trace } with ht
  have hwindow := hs.mem_window hpos hroom hlow
  have hbound : sock_client ≤ s.bound := (Finset.mem_Ioc.mp hwindow).2
  have hne : sock_client ≠ 0 := by
    have hlt := hs.window.lt_of_notMem hpos hlow.1
    have hnonneg := hs.window.nonneg
    omega
  have hclients : t.clients.toFinset = insert sock_client s.clients.toFinset := by
    rw [← List.toFinset_cons]
    exact List.toFinset_eq_of_perm _ _ (SlotArray.inUse_store hne hroom)
  have hhist : t.history = .opened sock_client :: s.history := State.history_stores hpos rfl
  refine ⟨htable, ?_, sup_le hs.max_le hbound,
    hs.args_append (t := t) rfl [.fdSet sock_client, .accept sock_client, .fdIsset i] ?_ rfl⟩
  · show Window s.sock_server maxConnection (openFds base t.history) t.clients.toFinset
    rw [hhist, hclients, openFds_opened]
    exact hs.window.keep hwindow
  · have hscan := hs.scanned_le hphase hmem
    simp only [List.mem_cons, List.not_mem_nil, or_false]
    rintro call (rfl | rfl | rfl) d hd
    · cases hd
      exact hbound
    · cases hd
    · cases hd
      exact hscan

/-- A client finds the slots taken: the window is full, so its descriptor lies above it. -/
theorem full (hs : BoundInv base s) {i sock_client : Int} (hphase : s.phase = .scan i)
    (hmem : i ∈ s.read_set) (hpos : 0 ≤ sock_client) (hfull : 0 ∉ s.fds_client.cells)
    (hlow : IsLowest (openFds base s.history) sock_client)
    (htable : TableInv base
      { s with phase := .scan (i + 1), trace := .accept sock_client :: .fdIsset i :: s.trace }) :
    BoundInv base
      { s with phase := .scan (i + 1), trace := .accept sock_client :: .fdIsset i :: s.trace } := by
  set t : State :=
    { s with phase := .scan (i + 1), trace := .accept sock_client :: .fdIsset i :: s.trace } with ht
  -- no slot is free, so `MAX_CONNECTION` clients are kept, all in the window
  have hcard : maxConnection ≤ s.clients.toFinset.card := by
    rw [hs.card_clients]
    by_contra hlt
    exact hfull (SlotArray.free_mem_of_lt (Nat.not_le.mp hlt))
  have habove := hs.window.lt_of_full hs.clients_subset hcard hpos hlow.1
  have hhist : t.history = .opened sock_client :: s.history := State.history_full hpos rfl
  refine ⟨htable, ?_, hs.max_le,
    hs.args_append (t := t) rfl [.accept sock_client, .fdIsset i] ?_ rfl⟩
  · show Window s.sock_server maxConnection (openFds base t.history) s.clients.toFinset
    rw [hhist, openFds_opened]
    exact hs.window.lose habove
  · have hscan := hs.scanned_le hphase hmem
    simp only [List.mem_cons, List.not_mem_nil, or_false]
    rintro call (rfl | rfl) d hd
    · cases hd
    · cases hd
      exact hscan

/-- A client is closed: its descriptor is in the window, and free again. -/
theorem without (hs : BoundInv base s) {i : Int} (hphase : s.phase = .scan i) (hmem : i ∈ s.read_set)
    (hsock : i ≠ s.sock_server) {calls : List Call} (hops : calls.filterMap Call.fdOp = [.closed i])
    (hcalls : ∀ call ∈ calls, ∀ d, call.fdArg = some d → d = i)
    (htable : TableInv base (s.without i calls)) : BoundInv base (s.without i calls) := by
  have hclient := hs.table.mem_clients hphase hmem hsock
  have hzero : i ≠ 0 := (SlotArray.mem_inUse.mp hclient).2
  have hclients : (s.without i calls).clients.toFinset = s.clients.toFinset.erase i := by
    ext d
    rw [Finset.mem_erase, List.mem_toFinset, List.mem_toFinset]
    exact SlotArray.mem_inUse_clear hzero hs.table.nodup
  have hhist : (s.without i calls).history = .closed i :: s.history := State.history_without hops
  refine ⟨htable, ?_, hs.max_le, hs.args_append rfl calls ?_ rfl⟩
  · show Window s.sock_server maxConnection (openFds base (s.without i calls).history) _
    rw [hhist, hclients, openFds_closed]
    exact hs.window.giveBack (List.mem_toFinset.mpr hclient)
  · intro call hcall d hd
    rw [hcalls call hcall d hd]
    exact hs.scanned_le hphase hmem

/-! ## The step lemma and the run lemma -/

theorem of_step {e : Event} (hs : BoundInv base s) (hlow : LowestAccept base s e)
    (h : step s e = some t) : BoundInv base t := by
  have htable : TableInv base t := hs.table.of_step (hs.isNew hlow) h
  -- the calls of the steps that test one descriptor only
  have htest : ∀ (calls : List Call) {i : Int}, i ≤ s.bound → (∀ call ∈ calls, call.fdArg = none) →
      ∀ call ∈ calls ++ [.fdIsset i], ∀ d, call.fdArg = some d → d ≤ s.bound := by
    intro calls i hi hcalls call hcall d hd
    rcases List.mem_append.mp hcall with hcall | hcall
    · rw [hcalls call hcall] at hd
      cases hd
    · rw [List.mem_singleton.mp hcall] at hd
      cases hd
      exact hi
  rcases Step.of_step h with ⟨hphase, -⟩ | ⟨hphase, -⟩ | @⟨i, sock_client, hphase, hmem, -, hneg⟩ |
    ⟨hphase, hmem, -, hpos, hroom⟩ | ⟨hphase, hmem, -, hpos, hfull⟩ |
    @⟨i, _, time, _, hphase, hmem, -, -⟩ |
    ⟨hphase, hmem, hsock, -, hsends⟩ | @⟨i, hphase, hle, -⟩ | ⟨hphase, -⟩
  · exact hs.of_eq htable rfl rfl rfl rfl [.select none] (by simp [Call.fdArg]) rfl
  · exact hs.of_eq htable rfl rfl rfl rfl [.select _] (by simp [Call.fdArg]) rfl
  · exact hs.of_eq htable rfl rfl rfl (State.history_acceptFails hneg rfl)
      [.accept sock_client, .fdIsset i]
      (htest [.accept sock_client] (hs.scanned_le hphase hmem) (by simp [Call.fdArg])) rfl
  · exact hs.stores hphase hmem hpos hroom (hlow hpos) htable
  · exact hs.full hphase hmem hpos hfull (hlow hpos) htable
  · exact hs.of_eq htable rfl rfl rfl rfl [.send i (responseText time), .recv i, .fdIsset i]
      (htest [.send i _, .recv i] (hs.scanned_le hphase hmem) (by simp [Call.fdArg])) rfl
  · apply hs.without hphase hmem hsock (fdOps_drops hsends)
    · rw [hsends]
      split
      · simp [Call.fdArg]
      · simp [Call.fdArg]
    · exact htable
  · exact hs.of_eq htable rfl rfl rfl rfl [.fdIsset i] (htest [] (hle.trans hs.max_le) (by simp)) rfl
  · exact hs.of_eq htable rfl rfl rfl rfl [] (by simp) rfl

/-- At the start the descriptors from 0 to the listening socket are open. -/
theorem init {sock_server : Int} (hsock : 0 ≤ sock_server) :
    BoundInv (Finset.Icc 0 sock_server) (init sock_server) := by
  have hbase : insert sock_server (Finset.Icc 0 sock_server) = Finset.Icc 0 sock_server :=
    Finset.insert_eq_of_mem (Finset.mem_Icc.mpr ⟨hsock, le_rfl⟩)
  have htable := TableInv.init (Finset.Icc 0 sock_server) sock_server
  rw [hbase] at htable
  have hclients : (SelectServer.init sock_server).clients = [] := SlotArray.inUse_filled 0
  have hroom : sock_server ≤ sock_server + maxConnection := by
    have hnonneg : (0 : Int) ≤ maxConnection := Int.natCast_nonneg _
    omega
  refine ⟨htable, ?_, ?_, ?_⟩
  · rw [hclients]
    exact Window.start hsock maxConnection
  · show max 0 sock_server ≤ sock_server + maxConnection
    rw [max_eq_right hsock]
    exact hroom
  · intro call hcall d hd
    rw [List.mem_singleton.mp hcall] at hd
    cases hd
    exact hroom

theorem of_reach {sock_server : Int} (hsock : 0 ≤ sock_server)
    (h : Reach step (LowestAccept (Finset.Icc 0 sock_server)) (SelectServer.init sock_server) s) :
    BoundInv (Finset.Icc 0 sock_server) s ∧ s.sock_server = sock_server := by
  refine h.invariant (I := fun s => BoundInv _ s ∧ s.sock_server = sock_server) ?_ ⟨init hsock, rfl⟩
  rintro s e t ⟨hs, hsock⟩ hok hstep
  exact ⟨hs.of_step hok hstep, (Step.of_step hstep).sock_server.trans hsock⟩

end BoundInv

/-- **What is monitored stays low.** When the descriptors from 0 to the listening socket are open at the
start and `accept` returns the lowest unused one: in every run, however many clients were accepted when
all slots were taken, `FD_SET`, `FD_CLR` and `FD_ISSET` are called with descriptors of at most
`sock_server + MAX_CONNECTION`, and `global_max_fd` is no larger. -/
theorem bound_of_reach {sock_server : Int} (hsock : 0 ≤ sock_server) {s : State}
    (h : Reach step (LowestAccept (Finset.Icc 0 sock_server)) (init sock_server) s) :
    (∀ call ∈ s.trace, ∀ d, call.fdArg = some d → d ≤ sock_server + maxConnection) ∧
      s.global_max_fd ≤ sock_server + maxConnection ∧
      (sock_server + maxConnection < fdSetSize →
        (∀ call ∈ s.trace, ∀ d, call.fdArg = some d → d < fdSetSize) ∧ s.global_max_fd < fdSetSize) := by
  obtain ⟨hs, rfl⟩ := BoundInv.of_reach hsock h
  refine ⟨hs.args, hs.max_le, fun hlt => ⟨?_, hs.max_le.trans_lt hlt⟩⟩
  intro call hcall d hd
  exact (hs.args call hcall d hd).trans_lt hlt

/-- **The lowest unused descriptor will do**: with `MAX_CONNECTION` descriptors above the listening socket below
`FD_SETSIZE`, a kernel that hands out the lowest unused one does what is assumed of the descriptors. -/
theorem reach_freshAccept {sock_server : Int} (hsock : 0 ≤ sock_server)
    (hlt : sock_server + maxConnection < fdSetSize) {s : State}
    (h : Reach step (LowestAccept (Finset.Icc 0 sock_server)) (init sock_server) s) :
    Reach step (FreshAccept (Finset.Icc 0 sock_server)) (init sock_server) s := by
  refine h.transfer (I := fun s => BoundInv (Finset.Icc 0 sock_server) s ∧ s.sock_server = sock_server) ?_
    ⟨BoundInv.init hsock, rfl⟩
  rintro s e t ⟨hs, rfl⟩ hlow hstep
  have hbelow : s.sock_server < fdSetSize := by
    have hnonneg : (0 : Int) ≤ maxConnection := Int.natCast_nonneg _
    omega
  refine ⟨⟨hs.isNew hlow, ?_⟩, hstep, hs.of_step hlow hstep, (Step.of_step hstep).sock_server⟩
  rcases e with ⟨activity, ready⟩ | sock_client | ⟨received, time, sent_bytes⟩ | _
  · exact hbelow
  · refine ⟨hbelow, fun hroom => ?_⟩
    by_cases hpos : 0 ≤ sock_client
    · exact (Finset.mem_Ioc.mp (hs.mem_window hpos hroom (hlow hpos))).2.trans_lt hlt
    · have hsize : (0 : Int) < fdSetSize := by decide
      omega
  · exact hbelow
  · exact hbelow

/-- The listener being 3, the clients 4 and 5 are accepted; 4 hangs up, and the next client gets 4 again. -/
theorem bound_of_reach_reused :
    ∃ s, Reach step (LowestAccept (Finset.Icc 0 3)) (init 3) s ∧ s.clients = [4, 5] ∧
      .fdClr 4 ∈ s.trace ∧ s.global_max_fd ≤ 3 + maxConnection := by
  have hrun : (execOk step (LowestAccept (Finset.Icc 0 3)) (init 3)
      [.select 1 {3}, .tau, .tau, .tau, .accept 4, .tau, .tau,
        .select 1 {3}, .tau, .tau, .tau, .accept 5, .tau, .tau, .tau,
        .select 1 {4}, .tau, .tau, .tau, .tau, .serve (.data []) 0 0, .tau, .tau,
        .select 1 {3}, .tau, .tau, .tau, .accept 4]).any
        (fun s => s.clients = [4, 5] ∧ .fdClr 4 ∈ s.trace) = true := by decide
  obtain ⟨s, hreach, hs⟩ := exists_reach_of_exec hrun
  obtain ⟨hclients, hcleared⟩ := of_decide_eq_true hs
  exact ⟨s, hreach, hclients, hcleared, (bound_of_reach (by decide) hreach).2.1⟩

end LinuxNet.Tutorials.SelectServer
