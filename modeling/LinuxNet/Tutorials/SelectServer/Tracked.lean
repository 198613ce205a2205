/-
# LinuxNet.Tutorials.SelectServer.Tracked — which accepted clients the select server monitors

A client is stored if `fds_client` has a free slot. If it has none, the loop over the slots ends without
having done anything, and the accepted descriptor is neither monitored nor closed. As long as `accept`
returns nothing in such a state, and nothing that has no bit in the sets, every accepted client is tracked
until it is closed (`tracked_of_room`). The state in which the table is full is reached after `MAX_CONNECTION`
clients (`exists_full`), also when the kernel hands out the lowest unused descriptor each time.
-/
import LinuxNet.Tutorials.SelectServer.Bound

namespace LinuxNet.Tutorials.SelectServer

open LinuxNet.Lib LinuxNet.Lib.FdLedger LinuxNet.Posix

/-- Every accepted descriptor that has not been closed is an entry of `fds_client` in `master_set`. -/
def Tracked (s : State) : Prop :=
  ∀ d ∈ openFds ∅ s.history, d ∈ s.master_set ∧ d ∈ s.fds_client.cells

/-- **The condition**: `accept` returns a descriptor only while there is a free slot, and never 0, which
is the mark of a free slot. -/
def AcceptsWithRoom (s : State) : Event → Prop
  | .accept sock_client => 0 ≤ sock_client → 0 < sock_client ∧ 0 ∈ s.fds_client.cells
  | _ => True

instance (s : State) : (e : Event) → Decidable (AcceptsWithRoom s e)
  | .accept sock_client =>
    inferInstanceAs (Decidable (0 ≤ sock_client → 0 < sock_client ∧ 0 ∈ s.fds_client.cells))
  | .select _ _ | .serve _ _ _ | .tau => isTrue trivial

/-! ## Clients that find a slot are tracked -/

theorem tracked_of_step {s t : State} {e : Event}
    (hs : Tracked s ∧ ∀ d ∈ openFds ∅ s.history, 0 < d) (hroom : AcceptsWithRoom s e)
    (h : step s e = some t) : Tracked t ∧ ∀ d ∈ openFds ∅ t.history, 0 < d := by
  obtain ⟨htracked, hpositive⟩ := hs
  rcases Step.of_step h with ⟨-, -⟩ | ⟨-, -⟩ | @⟨i, sock_client, -, -, -, hneg⟩ |
    @⟨i, sock_client, -, -, -, hpos, hcell⟩ | ⟨-, -, -, hpos, hfull⟩ | ⟨-, -, -, -⟩ |
    @⟨i, received, time, sent_bytes, sends, -, -, -, -, hsends⟩ | ⟨-, -, -⟩ | ⟨-, -⟩
  · exact ⟨htracked, hpositive⟩
  · exact ⟨htracked, hpositive⟩
  · unfold Tracked
    rw [State.history_acceptFails (s := s) hneg rfl]
    exact ⟨htracked, hpositive⟩
  · unfold Tracked
    rw [State.history_stores (s := s) hpos rfl]
    refine ⟨fun d hd => ?_, fun d hd => ?_⟩
    · rcases Finset.mem_insert.mp hd with rfl | hd
      · exact ⟨Finset.mem_insert_self _ _, SlotArray.mem_replaceFirst hcell _⟩
      · obtain ⟨hmaster, hin⟩ := htracked d hd
        exact ⟨Finset.mem_insert_of_mem hmaster,
          SlotArray.mem_replaceFirst_of_ne hin (hpositive d hd).ne'⟩
    · rcases Finset.mem_insert.mp hd with rfl | hd
      · exact (hroom hpos).1
      · exact hpositive d hd
  · exact absurd (hroom hpos).2 hfull
  · exact ⟨htracked, hpositive⟩
  · unfold Tracked
    rw [State.history_without (fdOps_drops hsends)]
    refine ⟨fun d hd => ?_, fun d hd => hpositive d (Finset.mem_of_mem_erase hd)⟩
    obtain ⟨hne, hd⟩ := Finset.mem_erase.mp hd
    obtain ⟨hmaster, hin⟩ := htracked d hd
    exact ⟨Finset.mem_erase.mpr ⟨hne, hmaster⟩, SlotArray.mem_replaceFirst_of_ne hin hne⟩
  · exact ⟨htracked, hpositive⟩
  · exact ⟨htracked, hpositive⟩

/-- **Every accepted client is tracked**, whatever lies behind the sets, as long as there is a slot for it and
the descriptors that get into the sets have their bit there. -/
theorem tracked_of_room {frame : State → Event → Option State} {sock_server : Int}
    (hsock : sock_server < fdSetSize) {s : State}
    (h : Reach (stepInFrame frame) (fun s e => AcceptsWithRoom s e ∧ BelowSetSize s e) (init sock_server) s) :
    Tracked s := by
  rw [reach_stepInFrame_iff (fun _ _ hok => hok.2) hsock] at h
  have hinit : openFds ∅ (init sock_server).history = ∅ := rfl
  refine (h.invariant (I := fun s => Tracked s ∧ ∀ d ∈ openFds ∅ s.history, 0 < d) ?_ ?_).1
  · intro s e t hs hroom hstep
    exact tracked_of_step hs hroom.1 hstep
  · refine ⟨fun d hd => ?_, fun d hd => ?_⟩
    · rw [hinit] at hd
      exact absurd hd (Finset.notMem_empty d)
    · rw [hinit] at hd
      exact absurd hd (Finset.notMem_empty d)

/-! ## The table gets full -/

section Full

variable {base : Finset Int}

/-- What a scan leaves alone when nobody comes and nobody goes. -/
structure SameTable (s t : State) : Prop where
  fds_client : t.fds_client = s.fds_client
  master_set : t.master_set = s.master_set
  sock_server : t.sock_server = s.sock_server
  read_set : t.read_set = s.read_set
  global_max_fd : t.global_max_fd = s.global_max_fd

theorem SameTable.trans {s t u : State} (h : SameTable s t) (h' : SameTable t u) : SameTable s u := by
  refine ⟨?_, ?_, ?_, ?_, ?_⟩
  · rw [h'.fds_client, h.fds_client]
  · rw [h'.master_set, h.master_set]
  · rw [h'.sock_server, h.sock_server]
  · rw [h'.read_set, h.read_set]
  · rw [h'.global_max_fd, h.global_max_fd]

/-- One descriptor of a scan in which nothing changes. -/
theorem exists_idle_step {s : State} {i : Int} (hphase : s.phase = .scan i) (hle : i ≤ s.global_max_fd) :
    ∃ t, Reach step (LowestAccept base) s t ∧ t.phase = .scan (i + 1) ∧ SameTable s t := by
  by_cases hmem : i ∈ s.read_set
  · by_cases hsock : i = s.sock_server
    · have hstep : step s (.accept (-1)) =
          some (acceptClient { s.log (.fdIsset i) with phase := .scan (i + 1) } (-1)) := by
        simp only [step, hphase, if_pos hle, if_pos hmem, if_pos hsock]
      have hok : LowestAccept base s (.accept (-1)) := by
        intro hneg
        omega
      exact ⟨_, .single hok hstep, rfl, ⟨rfl, rfl, rfl, rfl, rfl⟩⟩
    · have hstep : step s (.serve (.data [65]) 0 1) =
          some (serveClient { s.log (.fdIsset i) with phase := .scan (i + 1) } i (.data [65]) 0 1) := by
        simp only [step, hphase, if_pos hle, if_pos hmem, if_neg hsock]
      exact ⟨_, .single (e := .serve _ _ _) trivial hstep, rfl, ⟨rfl, rfl, rfl, rfl, rfl⟩⟩
  · have hstep : step s .tau = some { s.log (.fdIsset i) with phase := .scan (i + 1) } := by
      simp only [step, hphase, if_pos hle, if_neg hmem]
    exact ⟨_, .single (e := .tau) trivial hstep, rfl, ⟨rfl, rfl, rfl, rfl, rfl⟩⟩

/-- The scan can go on to any later descriptor without changing anything. -/
theorem exists_idle_scan (k : ℕ) {s : State} {i : Int} (hphase : s.phase = .scan i)
    (hle : i + k ≤ s.global_max_fd + 1) :
    ∃ t, Reach step (LowestAccept base) s t ∧ t.phase = .scan (i + k) ∧ SameTable s t := by
  refine Reach.exists_of_grow (P := fun n (t : State) => t.phase = .scan (i + n) ∧ SameTable s t)
    ⟨by rw [hphase, Int.natCast_zero, Int.add_zero], ⟨rfl, rfl, rfl, rfl, rfl⟩⟩ k ?_
  rintro n t hn - ⟨htphase, hsame⟩
  have hmax := hsame.global_max_fd
  obtain ⟨u, hu, huphase, hsame'⟩ := exists_idle_step htphase (by omega)
  refine ⟨u, hu, ?_, hsame.trans hsame'⟩
  rw [huphase, Int.natCast_succ, Int.add_assoc]

/-- The scan can be brought to its end without changing anything. -/
theorem exists_idle_end {s : State} {i : Int} (hphase : s.phase = .scan i) (hle : i ≤ s.global_max_fd + 1) :
    ∃ t, Reach step (LowestAccept base) s t ∧ t.phase = .selecting ∧ t.fds_client = s.fds_client := by
  obtain ⟨u, hu, huphase, hsame⟩ := exists_idle_scan (s.global_max_fd + 1 - i).toNat
    hphase (by omega)
  have hmax := hsame.global_max_fd
  have hstep : step u .tau = some { u with phase := .selecting } := by
    simp only [step, huphase]
    rw [if_neg (by omega)]
  exact ⟨_, hu.trans (.single (e := .tau) trivial hstep), rfl, hsame.fds_client⟩

/-- A round brings the scan to the listening socket, which is reported as readable. -/
theorem exists_at_listener {s : State} (hphase : s.phase = .selecting) (hs : TableInv base s)
    (hsock : 0 ≤ s.sock_server) :
    ∃ t, Reach step (LowestAccept base) s t ∧ t.phase = .scan t.sock_server ∧
      t.sock_server ∈ t.read_set ∧ t.sock_server ≤ t.global_max_fd ∧ t.fds_client = s.fds_client := by
  have hmaster : s.sock_server ∈ s.master_set := hs.mem_master.mpr (.inl rfl)
  have hstep : step s (.select 1 {s.sock_server}) = some (selectReturns s 1 {s.sock_server}) := by
    simp only [step, hphase]
  set u := selectReturns s 1 {s.sock_server} with hu
  have hread : u.sock_server ∈ u.read_set :=
    Finset.mem_inter.mpr ⟨hmaster, Finset.mem_singleton_self _⟩
  have hmax : u.sock_server ≤ u.global_max_fd := hs.le_max _ hmaster
  have hroom : 0 + (s.sock_server.toNat : Int) ≤ u.global_max_fd + 1 := by
    have hsock' : u.sock_server = s.sock_server := rfl
    omega
  obtain ⟨t, ht, htphase, hsame⟩ :=
    exists_idle_scan s.sock_server.toNat (s := u) (i := 0) rfl hroom
  refine ⟨t, .head (e := .select _ _) trivial hstep ht, ?_, ?_, ?_, hsame.fds_client⟩
  · rw [htphase, hsame.sock_server]
    show Phase.scan (0 + (s.sock_server.toNat : Int)) = .scan s.sock_server
    congr 1
    omega
  · rw [hsame.sock_server, hsame.read_set]
    exact hread
  · rw [hsame.sock_server, hsame.global_max_fd]
    exact hmax

/-- The call of `accept` that the scan makes at the listening socket. -/
theorem step_accept {s : State} (hphase : s.phase = .scan s.sock_server)
    (hmem : s.sock_server ∈ s.read_set) (hle : s.sock_server ≤ s.global_max_fd) (sock_client : Int) :
    step s (.accept sock_client) =
      some (acceptClient { s.log (.fdIsset s.sock_server) with phase := .scan (s.sock_server + 1) }
        sock_client) := by
  simp only [step, hphase, if_pos hle, if_pos hmem]
  rfl

theorem acceptClient_room {s : State} {d : Int} (hd : 0 ≤ d) (hroom : 0 ∈ s.fds_client.cells) :
    (acceptClient s d).phase = s.phase ∧ (acceptClient s d).global_max_fd = max s.global_max_fd d ∧
      (acceptClient s d).fds_client = s.fds_client.replaceFirst 0 d := by
  have hroom' : 0 ∈ (s.log (.accept d)).fds_client.cells := hroom
  rw [acceptClient, if_neg (Int.not_lt.mpr hd), storeClient, if_pos hroom']
  exact ⟨rfl, rfl, rfl⟩

theorem acceptClient_full {s : State} {d : Int} (hd : 0 ≤ d) (hfull : 0 ∉ s.fds_client.cells) :
    (acceptClient s d).master_set = s.master_set ∧ (acceptClient s d).trace = .accept d :: s.trace := by
  have hfull' : 0 ∉ (s.log (.accept d)).fds_client.cells := hfull
  rw [acceptClient, if_neg (Int.not_lt.mpr hd), storeClient, if_neg hfull']
  exact ⟨rfl, rfl⟩

variable {sock_server : Int}

/-- One more client comes, and stays. -/
theorem exists_one_more (hsock : 0 ≤ sock_server) {s : State}
    (hs : Reach step (LowestAccept (Finset.Icc 0 sock_server)) (init sock_server) s)
    (hphase : s.phase = .selecting) (hroom : s.clients.length < maxConnection) :
    ∃ t, Reach step (LowestAccept (Finset.Icc 0 sock_server)) s t ∧
      t.phase = .selecting ∧ t.clients.length = s.clients.length + 1 := by
  obtain ⟨hinv, hconst⟩ := BoundInv.of_reach hsock hs
  obtain ⟨t, ht, htphase, hread, hmax, hsame⟩ :=
    exists_at_listener hphase hinv.table (by rw [hconst]; exact hsock)
  obtain ⟨hinv', -⟩ := BoundInv.of_reach hsock (hs.trans ht)
  obtain ⟨d, hd, hlow⟩ := exists_isLowest (openFds (Finset.Icc 0 sock_server) t.history)
  have hok : LowestAccept (Finset.Icc 0 sock_server) t (.accept d) := fun _ => hlow
  have hpos : 0 < d := (hinv'.isNew hok hd).1
  have hfree : 0 ∈ t.fds_client.cells := by
    rw [hsame]
    exact SlotArray.free_mem_of_lt hroom
  have hstep := step_accept htphase hread hmax d
  set u := acceptClient { t.log (.fdIsset t.sock_server) with phase := .scan (t.sock_server + 1) } d
    with hu
  obtain ⟨huphase, humax, hufds⟩ : u.phase = .scan (t.sock_server + 1) ∧
      u.global_max_fd = max t.global_max_fd d ∧
      u.fds_client = t.fds_client.replaceFirst 0 d := acceptClient_room hd hfree
  -- the rest of the scan leaves the table as it is
  obtain ⟨v, hv, hvphase, hvfds⟩ := exists_idle_end huphase (by omega)
  refine ⟨v, ht.trans (.head hok hstep hv), hvphase, ?_⟩
  show (v.fds_client.inUse 0).length = _
  rw [hvfds, hufds, (SlotArray.inUse_store hpos.ne' hfree).length_eq, hsame]
  rfl

/-- **The table gets full**: after `n` clients that stay, `n` slots are in use. -/
theorem exists_full (hsock : 0 ≤ sock_server) {n : ℕ} (hn : n ≤ maxConnection) :
    ∃ s, Reach step (LowestAccept (Finset.Icc 0 sock_server)) (init sock_server) s ∧
      s.phase = .selecting ∧ s.clients.length = n := by
  refine Reach.exists_of_grow (P := fun n (s : State) => s.phase = .selecting ∧ s.clients.length = n)
    ⟨rfl, rfl⟩ n ?_
  rintro k s hk hs ⟨hphase, hlen⟩
  obtain ⟨t, ht, htphase, htlen⟩ := exists_one_more hsock hs hphase (by omega)
  exact ⟨t, ht, htphase, by omega⟩

/-- **A client that finds the table full is lost**: it is open, and not tracked. -/
theorem exists_untracked (hsock : 0 ≤ sock_server) :
    ∃ s, Reach step (LowestAccept (Finset.Icc 0 sock_server)) (init sock_server) s ∧ ¬ Tracked s := by
  obtain ⟨s, hs, hphase, hlen⟩ := exists_full hsock le_rfl
  obtain ⟨hinv, hconst⟩ := BoundInv.of_reach hsock hs
  obtain ⟨t, ht, htphase, hread, hmax, hsame⟩ :=
    exists_at_listener hphase hinv.table (by rw [hconst]; exact hsock)
  have hreach := hs.trans ht
  obtain ⟨hinv', -⟩ := BoundInv.of_reach hsock hreach
  obtain ⟨d, hd, hlow⟩ := exists_isLowest (openFds (Finset.Icc 0 sock_server) t.history)
  have hfull : 0 ∉ t.fds_client.cells := by
    rw [hsame]
    exact SlotArray.free_notMem_of_eq hlen
  have hstep := step_accept htphase hread hmax d
  set u := acceptClient { t.log (.fdIsset t.sock_server) with phase := .scan (t.sock_server + 1) } d
    with hu
  have hleft : u.master_set = t.master_set ∧
      u.trace = [.accept d, .fdIsset t.sock_server] ++ t.trace := acceptClient_full hd hfull
  have hok : LowestAccept (Finset.Icc 0 sock_server) t (.accept d) := fun _ => hlow
  refine ⟨u, hreach.trans (.single hok hstep), ?_⟩
  intro htracked
  have hopen : d ∈ openFds ∅ u.history := by
    rw [State.history_full hd hleft.2]
    exact Finset.mem_insert_self d _
  obtain ⟨hmaster, -⟩ := htracked d hopen
  rw [hleft.1] at hmaster
  exact hlow.1 (hinv'.table.isOpen d hmaster)

end Full

end LinuxNet.Tutorials.SelectServer
