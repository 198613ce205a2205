/-
# LinuxNet.Openssl.SslServer.Shutdown — is everything released once when the TLS server stops?

Descriptors and TLS objects are released at three places: after a failed handshake, when a client is
dropped, and in the clean-up after the loop. While the loop runs every one of them that is not released is
in a slot, exactly once (`LedgerInv`), so the clean-up, which looks at every slot, releases the objects and
the clients exactly once.

The listening socket is in slot 0 like a client, and it is also closed before the clean-up loop. That loop
skips only descriptors that are not positive: `cleanShutdown_iff` says that the shutdown is clean exactly
when the listening socket is descriptor 0.
-/
import LinuxNet.Openssl.SslServer.Tracked

namespace LinuxNet.Openssl.SslServer

open LinuxNet.Lib LinuxNet.Lib.FdLedger LinuxNet.Posix
open LinuxNet.Tutorials.PollServer (responseText)

/-- The history of the TLS objects. -/
def sslHistory (trace : List Call) : List (FdOp Ssl) := trace.filterMap Call.sslOp

/-- **A clean shutdown**: the listening socket and every accepted client were closed exactly once, and every
TLS object was freed exactly once. -/
def CleanShutdown (sock_server : Int) (trace : List Call) : Prop :=
  ClosedOnce (fdHistory trace ++ [.opened sock_server]) ∧ ClosedOnce (sslHistory trace)

/-- `accept` returns no descriptor while the table is full. -/
def HasRoom (s : State) : Event → Prop
  | .accept sock_client _ _ => 0 ≤ sock_client → s.nfds < maxConnection
  | .poll _ _ | .serve _ _ _ | .tau => True

instance (s : State) : (e : Event) → Decidable (HasRoom s e)
  | .accept sock_client _ _ => inferInstanceAs (Decidable (0 ≤ sock_client → s.nfds < maxConnection))
  | .poll _ _ | .serve _ _ _ | .tau => isTrue trivial

/-- The assumptions on the kernel and the TLS library, in a run that never fills the table. -/
def FreshWithRoom (base : Finset Int) (s : State) (e : Event) : Prop := Fresh base s e ∧ HasRoom s e

instance (base : Finset Int) (s : State) (e : Event) : Decidable (FreshWithRoom base s e) :=
  inferInstanceAs (Decidable (_ ∧ _))

/-- With more descriptors open at the start, a fresh one is still fresh. -/
theorem Fresh.of_insert {others : Finset Int} {s : State} {e : Event}
    (h : Fresh (insert s.sock_server others) s e) : Fresh (insert s.sock_server ∅) s e := by
  have hsub : (insert s.sock_server ∅ : Finset Int) ⊆ insert s.sock_server others :=
    Finset.insert_subset_insert _ (Finset.empty_subset _)
  rcases e with _ | ⟨sock_client, ssl, rc⟩ | _ | _
  · trivial
  · exact ⟨fun hpos hmem => h.1 hpos (openFds_mono hsub _ hmem), h.2⟩
  · trivial
  · trivial

/-! ## Who holds what while the loop runs -/

/-- **The ledger invariant.** Nothing is closed or freed that is not open or live, every live TLS object is
in a slot, and the clients have positive descriptors. -/
structure LedgerInv (s : State) : Prop where
  table : TableInv (insert s.sock_server ∅) s
  fdOpens : OpensFresh (insert s.sock_server ∅) (fdHistory s.trace)
  fdCloses : ClosesOpen (insert s.sock_server ∅) (fdHistory s.trace)
  sslOpens : OpensFresh ∅ (sslHistory s.trace)
  sslCloses : ClosesOpen ∅ (sslHistory s.trace)
  kept : ∀ ssl ∈ liveSsl s.trace, ∃ i, i < s.nfds ∧ s.arr_ssl.get? i = some (some ssl)
  positive : ∀ d ∈ s.slots, d = s.sock_server ∨ 0 < d

namespace LedgerInv

variable {s t : State}

/-- A step that leaves the descriptors, the objects and the table alone. -/
theorem of_eq (hs : LedgerInv s) (htable : TableInv (insert t.sock_server ∅) t)
    (hsock : t.sock_server = s.sock_server) (hfd : fdHistory t.trace = fdHistory s.trace)
    (hssl : sslHistory t.trace = sslHistory s.trace) (harr : t.arr_ssl = s.arr_ssl)
    (hnfds : t.nfds = s.nfds) (hslots : t.slots = s.slots) : LedgerInv t := by
  refine ⟨htable, ?_, ?_, ?_, ?_, ?_, ?_⟩
  · rw [hsock, hfd]
    exact hs.fdOpens
  · rw [hsock, hfd]
    exact hs.fdCloses
  · rw [hssl]
    exact hs.sslOpens
  · rw [hssl]
    exact hs.sslCloses
  · intro ssl hlive
    have hlive : ssl ∈ openFds ∅ (sslHistory t.trace) := hlive
    rw [hssl] at hlive
    rw [harr, hnfds]
    exact hs.kept ssl hlive
  · rw [hslots, hsock]
    exact hs.positive

/-- An `accept` that is not followed by a handshake. -/
theorem turnsAway (hs : LedgerInv s) {sock_client : Int} {phase : Phase}
    (hfresh : 0 ≤ sock_client → sock_client ∉ openFds (insert s.sock_server ∅) (fdHistory s.trace))
    (htable : TableInv (insert s.sock_server ∅)
      { s with phase := phase, trace := .accept sock_client :: s.trace }) :
    LedgerInv { s with phase := phase, trace := .accept sock_client :: s.trace } := by
  refine ⟨htable, ?_, ?_, hs.sslOpens, hs.sslCloses, hs.kept, hs.positive⟩
  · show OpensFresh _ (fdHistory (.accept sock_client :: s.trace))
    rcases lt_or_ge sock_client 0 with hneg | hpos
    · rw [fdHistory_accept_neg hneg]
      exact hs.fdOpens
    · rw [fdHistory_accept_pos hpos]
      exact ⟨hfresh hpos, hs.fdOpens⟩
  · show ClosesOpen _ (fdHistory (.accept sock_client :: s.trace))
    rcases lt_or_ge sock_client 0 with hneg | hpos
    · rw [fdHistory_accept_neg hneg]
      exact hs.fdCloses
    · rw [fdHistory_accept_pos hpos]
      exact hs.fdCloses

/-- A failed handshake: what was opened and made is closed and freed at once. -/
theorem handshakeFails (hs : LedgerInv s) {sock_client : Int} {ssl : Ssl} {phase : Phase}
    {fds : PollArray maxConnection} (hpos : 0 < sock_client)
    (hfresh : sock_client ∉ openFds (insert s.sock_server ∅) (fdHistory s.trace))
    (hnew : ssl ∉ liveSsl s.trace) (hslots : fds.slots s.nfds = s.slots)
    (htable : TableInv (insert s.sock_server ∅)
      { s with
        fds := fds
        arr_ssl := (s.arr_ssl.set s.nfds (some ssl)).set s.nfds none
        phase := phase
        trace := [.sslFree ssl, .close sock_client, .sslAccept ssl, .sslSetFd ssl sock_client,
          .sslNew ssl, .accept sock_client] ++ s.trace }) :
    LedgerInv
      { s with
        fds := fds
        arr_ssl := (s.arr_ssl.set s.nfds (some ssl)).set s.nfds none
        phase := phase
        trace := [.sslFree ssl, .close sock_client, .sslAccept ssl, .sslSetFd ssl sock_client,
          .sslNew ssl, .accept sock_client] ++ s.trace } := by
  set calls : List Call := [.sslFree ssl, .close sock_client, .sslAccept ssl,
    .sslSetFd ssl sock_client, .sslNew ssl, .accept sock_client] with hcalls
  have hfd : fdHistory (calls ++ s.trace) =
      .closed sock_client :: .opened sock_client :: fdHistory s.trace :=
    fdHistory_handshakeFails hpos.le ssl s.trace
  have hssl : sslHistory (calls ++ s.trace) = .closed ssl :: .opened ssl :: sslHistory s.trace := rfl
  refine ⟨htable, ?_, ?_, ⟨hnew, hs.sslOpens⟩, ⟨Finset.mem_insert_self _ _, hs.sslCloses⟩, ?_, ?_⟩
  · show OpensFresh _ (fdHistory (calls ++ s.trace))
    rw [hfd]
    exact ⟨hfresh, hs.fdOpens⟩
  · show ClosesOpen _ (fdHistory (calls ++ s.trace))
    rw [hfd]
    exact ⟨Finset.mem_insert_self _ _, hs.fdCloses⟩
  · intro ssl' hlive
    obtain ⟨hne, hlive⟩ := Finset.mem_erase.mp hlive
    obtain ⟨i, hi, hget⟩ := hs.kept ssl' ((Finset.mem_insert.mp hlive).resolve_left hne)
    refine ⟨i, hi, ?_⟩
    show ((s.arr_ssl.set s.nfds (some ssl)).set s.nfds none).get? i = _
    rw [SlotArray.get?_set_ne _ (ne_of_gt hi), SlotArray.get?_set_ne _ (ne_of_gt hi), hget]
  · intro d hd
    have hd : d ∈ fds.slots s.nfds := hd
    rw [hslots] at hd
    exact hs.positive d hd

/-- A client is appended with its object. -/
theorem stores (hs : LedgerInv s) {sock_client : Int} {ssl : Ssl} {phase : Phase} (hpos : 0 < sock_client)
    (hroom : s.nfds < maxConnection)
    (hfresh : sock_client ∉ openFds (insert s.sock_server ∅) (fdHistory s.trace))
    (hnew : ssl ∉ liveSsl s.trace)
    (htable : TableInv (insert s.sock_server ∅)
      { s with
        fds := s.fds.modify s.nfds fun p => { p with fd := sock_client, events := pollIn }
        arr_ssl := s.arr_ssl.set s.nfds (some ssl)
        nfds := s.nfds + 1
        phase := phase
        trace := [.sslAccept ssl, .sslSetFd ssl sock_client, .sslNew ssl, .accept sock_client] ++
          s.trace }) :
    LedgerInv
      { s with
        fds := s.fds.modify s.nfds fun p => { p with fd := sock_client, events := pollIn }
        arr_ssl := s.arr_ssl.set s.nfds (some ssl)
        nfds := s.nfds + 1
        phase := phase
        trace := [.sslAccept ssl, .sslSetFd ssl sock_client, .sslNew ssl, .accept sock_client] ++
          s.trace } := by
  set calls : List Call := [.sslAccept ssl, .sslSetFd ssl sock_client, .sslNew ssl,
    .accept sock_client] with hcalls
  have hfd : fdHistory (calls ++ s.trace) = .opened sock_client :: fdHistory s.trace :=
    fdHistory_stores hpos.le ssl s.trace
  refine ⟨htable, ?_, ?_, ⟨hnew, hs.sslOpens⟩, hs.sslCloses, ?_, ?_⟩
  · show OpensFresh _ (fdHistory (calls ++ s.trace))
    rw [hfd]
    exact ⟨hfresh, hs.fdOpens⟩
  · show ClosesOpen _ (fdHistory (calls ++ s.trace))
    rw [hfd]
    exact hs.fdCloses
  · intro ssl' hlive
    rcases Finset.mem_insert.mp hlive with rfl | hlive
    · exact ⟨s.nfds, Nat.lt_succ_self _, SlotArray.get?_set_self _ hroom _⟩
    · obtain ⟨i, hi, hget⟩ := hs.kept ssl' hlive
      refine ⟨i, Nat.lt_succ_of_lt hi, ?_⟩
      show (s.arr_ssl.set s.nfds (some ssl)).get? i = _
      rw [SlotArray.get?_set_ne _ (ne_of_gt hi), hget]
  · intro d hd
    have hslots : (s.fds.modify s.nfds fun p => { p with fd := sock_client, events := pollIn }).slots
        (s.nfds + 1) = s.slots ++ [sock_client] := s.fds.slots_append hroom fun _ => rfl
    have hd : d ∈ (s.fds.modify s.nfds _).slots (s.nfds + 1) := hd
    rw [hslots, List.mem_append, List.mem_singleton] at hd
    rcases hd with hd | rfl
    · exact hs.positive d hd
    · exact .inr hpos

/-- A client is closed and its object freed; the last one takes over its slot. -/
theorem refill (hs : LedgerInv s) {i : ℕ} {p q : PollFd} {ssl : Ssl} {lastSsl : Option Ssl}
    (hlt : i < s.nfds) (hp : s.fds.get? i = some p) (hssl : s.arr_ssl.get? i = some (some ssl))
    (hq : s.fds.get? (s.nfds - 1) = some q) (hlast : s.arr_ssl.get? (s.nfds - 1) = some lastSsl)
    (htable : TableInv (insert s.sock_server ∅)
      (s.refill i q.fd lastSsl [.sslFree ssl, .close p.fd, .sslRead ssl])) :
    LedgerInv (s.refill i q.fd lastSsl [.sslFree ssl, .close p.fd, .sslRead ssl]) := by
  have hle := hs.table.le
  obtain ⟨ssl', hssl', hlive, -⟩ := hs.table.exists_ssl hlt hp
  rw [hssl] at hssl'
  cases hssl'
  have hopen : p.fd ∈ openFds (insert s.sock_server ∅) (fdHistory s.trace) :=
    hs.table.isOpen p.fd (PollArray.mem_slots.mpr ⟨i, p, hlt, hp, rfl⟩)
  refine ⟨htable, hs.fdOpens, ⟨hopen, hs.fdCloses⟩, hs.sslOpens, ⟨hlive, hs.sslCloses⟩, ?_, ?_⟩
  · intro ssl' hlive'
    obtain ⟨hne, hlive'⟩ := Finset.mem_erase.mp hlive'
    obtain ⟨j, hj, hget⟩ := hs.kept ssl' hlive'
    have hij : i ≠ j := by
      rintro rfl
      rw [hssl] at hget
      cases hget
      exact hne rfl
    show ∃ k, k < s.nfds - 1 ∧ ((s.arr_ssl.set i lastSsl).set (s.nfds - 1) none).get? k = _
    by_cases hjlast : j = s.nfds - 1
    · -- it was the last one, and has moved to slot `i`
      subst hjlast
      rw [hlast] at hget
      refine ⟨i, by omega, ?_⟩
      rw [SlotArray.get?_set_ne _ (Ne.symm hij), SlotArray.get?_set_self _ (by omega), hget]
    · refine ⟨j, by omega, ?_⟩
      rw [SlotArray.get?_set_ne _ (Ne.symm hjlast), SlotArray.get?_set_ne _ hij, hget]
  · intro d hd
    have hd : d ∈ ((s.fds.modify i fun p => { p with fd := q.fd }).modify (s.nfds - 1) _).slots
      (s.nfds - 1) := hd
    rw [PollArray.slots_modify_of_le _ le_rfl] at hd
    exact hs.positive d ((PollArray.mem_slots_remove hs.table.nodup hle hlt hp hq rfl).mp hd).1

/-! ## The step lemma and the run lemma -/

theorem of_step {e : Event} (hs : LedgerInv s) (hfresh : Fresh (insert s.sock_server ∅) s e)
    (h : step s e = some t) : t.phase = .exited ∨ LedgerInv t := by
  rcases hs.table.of_step hfresh h with hexit | htable
  · exact .inl hexit
  have hstep := Step.of_step hs.table.inRange h
  have hsock := hstep.sock_server
  rw [← hsock] at htable
  rcases hstep with ⟨-, -⟩ | ⟨-, -⟩ | ⟨-, -, -, -, -, -⟩ | ⟨-, -, -, -, -, hpos, -, -⟩ |
    ⟨-, -, -, -, -, hpos, hroom, -⟩ | ⟨-, -, -, -, -, -, -⟩ | ⟨-, hlt, hp, -, -, hssl, -, hq, hlast⟩ |
    ⟨-, -, -, -⟩ | ⟨-, -⟩
  · exact .inl rfl
  · exact .inr (hs.of_eq htable rfl rfl rfl rfl rfl (PollArray.slots_report _ _ _ _))
  · exact .inr (hs.turnsAway hfresh.1 htable)
  · refine .inr (hs.handshakeFails hpos (hfresh.1 hpos.le) hfresh.2 ?_ htable)
    rw [PollArray.slots_modify_of_le _ le_rfl, PollArray.slots_modify_of_le _ le_rfl]
    rfl
  · exact .inr (hs.stores hpos hroom (hfresh.1 hpos.le) hfresh.2 htable)
  · exact .inr (hs.of_eq htable rfl rfl rfl rfl rfl rfl)
  · exact .inr (hs.refill hlt hp hssl hq hlast htable)
  · exact .inr (hs.of_eq htable rfl rfl rfl rfl rfl rfl)
  · exact .inr (hs.of_eq htable rfl rfl rfl rfl rfl rfl)

theorem init (sock_server : Int) (ssl : Ssl) : LedgerInv (init sock_server ssl) := by
  refine ⟨TableInv.init ∅ sock_server ssl, trivial, trivial, ⟨Finset.notMem_empty ssl, trivial⟩, trivial,
    ?_, ?_⟩
  · intro ssl' hlive
    obtain rfl : ssl' = ssl := Finset.mem_singleton.mp hlive
    exact ⟨0, Nat.one_pos, rfl⟩
  · intro d hd
    exact .inl (List.mem_singleton.mp hd)

end LedgerInv

/-! ## The clean-up -/

/-- The descriptors the clean-up closes: the listening socket, then those in the slots that are positive. -/
def closedAtEnd (s : State) : List Int := s.sock_server :: s.descriptors.filter (0 < ·)

theorem fdOps_shutdownCalls {fds : List PollFd} {ssls : List (Option Ssl)}
    (hlen : fds.length = ssls.length) :
    ((fds.zip ssls).flatMap shutdownCalls).filterMap Call.fdOp =
      ((fds.map PollFd.fd).filter (0 < ·)).map FdOp.closed := by
  induction fds generalizing ssls with
  | nil => rfl
  | cons p fds ih =>
      rcases ssls with _ | ⟨o, ssls⟩
      · cases hlen
      · rw [List.zip_cons_cons, List.flatMap_cons, List.filterMap_append, ih (Nat.succ.inj hlen)]
        by_cases hpos : 0 < p.fd
        · cases o <;> simp [shutdownCalls, hpos, Call.fdOp]
        · cases o <;> simp [shutdownCalls, hpos, Call.fdOp]

theorem sslOps_shutdownCalls {fds : List PollFd} {ssls : List (Option Ssl)}
    (hlen : fds.length = ssls.length) :
    ((fds.zip ssls).flatMap shutdownCalls).filterMap Call.sslOp =
      (ssls.filterMap id).map FdOp.closed := by
  induction fds generalizing ssls with
  | nil =>
      obtain rfl := List.length_eq_zero_iff.mp hlen.symm
      rfl
  | cons p fds ih =>
      rcases ssls with _ | ⟨o, ssls⟩
      · cases hlen
      · rw [List.zip_cons_cons, List.flatMap_cons, List.filterMap_append, ih (Nat.succ.inj hlen)]
        by_cases hpos : 0 < p.fd
        · rw [shutdownCalls, if_pos hpos]
          cases o <;> rfl
        · rw [shutdownCalls, if_neg hpos]
          cases o <;> rfl

/-- The two arrays are equally long. -/
theorem length_cells (s : State) : s.fds.cells.length = s.arr_ssl.cells.length := by
  rw [s.fds.size_eq, s.arr_ssl.size_eq]

theorem fdHistory_cleanUp (s : State) : fdHistory (cleanUp s).trace =
    (closedAtEnd s).reverse.map FdOp.closed ++ fdHistory s.trace := by
  show (((s.fds.cells.zip s.arr_ssl.cells).flatMap shutdownCalls).reverse ++
    .close s.sock_server :: s.trace).filterMap Call.fdOp = _
  rw [List.filterMap_append, List.filterMap_reverse, fdOps_shutdownCalls (length_cells s),
    closedAtEnd, List.reverse_cons, List.map_append, List.append_assoc, List.map_reverse]
  rfl

theorem sslHistory_cleanUp (s : State) : sslHistory (cleanUp s).trace =
    s.arr_ssl.values.reverse.map FdOp.closed ++ sslHistory s.trace := by
  show (((s.fds.cells.zip s.arr_ssl.cells).flatMap shutdownCalls).reverse ++
    .close s.sock_server :: s.trace).filterMap Call.sslOp = _
  rw [List.filterMap_append, List.filterMap_reverse, sslOps_shutdownCalls (length_cells s),
    List.map_reverse]
  rfl

namespace LedgerInv

variable {s : State} (hs : LedgerInv s)

include hs

/-- **Every object is freed once**: the live ones are those in the slots, each in one. -/
theorem closedOnce_ssl : ClosedOnce (sslHistory (cleanUp s).trace) := by
  -- an object is in a slot in use: the free ones hold `NULL`
  have huse : ∀ i ssl, s.arr_ssl.get? i = some (some ssl) → i < s.nfds := by
    intro i ssl hget
    by_contra hge
    have hlt : i < maxConnection := by
      rw [← s.arr_ssl.size_eq]
      exact (List.getElem?_eq_some_iff.mp hget).1
    obtain ⟨p, -, -, hnull⟩ := hs.table.vacant i (Nat.not_lt.mp hge) hlt
    rw [hget] at hnull
    cases hnull
  have hnodup : s.arr_ssl.values.Nodup := by
    apply SlotArray.nodup_values
    intro i j ssl hi hj
    by_contra hne
    have hlti := huse i ssl hi
    have hltj := huse j ssl hj
    obtain ⟨p, _, hp, hssl, -, hbound⟩ := hs.table.connected i hlti
    obtain ⟨q, _, hq, hssl', -, hbound'⟩ := hs.table.connected j hltj
    rw [hi] at hssl
    rw [hj] at hssl'
    cases hssl
    cases hssl'
    exact hs.table.ssl_ne hlti hltj hne hp hq hbound hbound' rfl
  rw [sslHistory_cleanUp, closedOnce_closes_iff hs.sslOpens hs.sslCloses]
  intro ssl _
  rw [List.count_reverse]
  split
  next hlive =>
    obtain ⟨i, -, hget⟩ := hs.kept ssl hlive
    exact List.count_eq_one_of_mem hnodup (SlotArray.mem_values.mpr ⟨i, hget⟩)
  next hdead =>
    apply List.count_eq_zero_of_not_mem
    intro hmem
    obtain ⟨i, hget⟩ := SlotArray.mem_values.mp hmem
    obtain ⟨p, ssl', -, hssl, hlive, -⟩ := hs.table.connected i (huse i ssl hget)
    rw [hget] at hssl
    cases hssl
    exact hdead hlive

/-- The slots in use come first; the others have the descriptor -1. -/
theorem count_descriptors {d : Int} (hd : 0 < d) :
    (s.descriptors.filter (0 < ·)).count d = if d ∈ s.slots then 1 else 0 := by
  -- behind the slots in use there is nothing the clean-up closes
  have hrest : ∀ e ∈ (s.fds.cells.drop s.nfds).map PollFd.fd, e = -1 := by
    intro e he
    obtain ⟨p, hp, rfl⟩ := List.mem_map.mp he
    obtain ⟨j, hj⟩ := List.getElem?_of_mem hp
    rw [List.getElem?_drop] at hj
    have hlt : s.nfds + j < maxConnection := by
      rw [← s.fds.size_eq]
      exact (List.getElem?_eq_some_iff.mp hj).1
    obtain ⟨q, hq, hneg, -⟩ := hs.table.vacant _ (Nat.le_add_right _ _) hlt
    have hsame : s.fds.get? (s.nfds + j) = some p := hj
    rw [hsame] at hq
    cases hq
    exact hneg
  have hsplit : s.descriptors = s.slots ++ (s.fds.cells.drop s.nfds).map PollFd.fd := by
    show s.fds.cells.map PollFd.fd = (s.fds.cells.take s.nfds).map PollFd.fd ++ _
    rw [← List.map_append, List.take_append_drop]
  have hzero : ((s.fds.cells.drop s.nfds).map PollFd.fd).count d = 0 := by
    apply List.count_eq_zero_of_not_mem
    intro hmem
    have hneg := hrest d hmem
    omega
  rw [List.count_filter (by simpa using hd), hsplit, List.count_append, hzero, Nat.add_zero]
  split
  next hmem => exact List.count_eq_one_of_mem hs.table.nodup hmem
  next hout => exact List.count_eq_zero_of_not_mem hout

/-- What is open when the loop is left is in the slots, if every client has found one. -/
theorem mem_slots_iff (htracked : Tracked s) {d : Int} :
    d ∈ openFds (insert s.sock_server ∅) (fdHistory s.trace) ↔ d ∈ s.slots := by
  constructor
  · intro hd
    rcases mem_openFds_insert hd with rfl | hd
    · exact List.mem_of_getElem? hs.table.head
    · exact htracked d hd
  · exact hs.table.isOpen d

/-- **When every descriptor is closed once**: exactly when the listening socket is not closed in the clean-up
loop again. -/
theorem closedOnce_fd_iff (hsock : 0 ≤ s.sock_server) (htracked : s.sock_server = 0 → Tracked s) :
    ClosedOnce (fdHistory (cleanUp s).trace ++ [.opened s.sock_server]) ↔ s.sock_server = 0 := by
  have hlistener : s.sock_server ∈ s.slots := List.mem_of_getElem? hs.table.head
  have hopens : OpensFresh ∅ (fdHistory s.trace ++ [.opened s.sock_server]) :=
    (opensFresh_append ∅ _ _).mpr ⟨hs.fdOpens, Finset.notMem_empty _, trivial⟩
  have hcloses : ClosesOpen ∅ (fdHistory s.trace ++ [.opened s.sock_server]) :=
    (closesOpen_append ∅ _ _).mpr ⟨hs.fdCloses, trivial⟩
  have hopen : openFds ∅ (fdHistory s.trace ++ [.opened s.sock_server]) =
      openFds (insert s.sock_server ∅) (fdHistory s.trace) := openFds_append ∅ _ _
  rw [fdHistory_cleanUp, List.append_assoc, closedOnce_closes_iff hopens hcloses, hopen]
  simp only [List.count_reverse, closedAtEnd]
  constructor
  · intro hall
    have hin := hs.table.isOpen _ hlistener
    have hone := hall s.sock_server (lifetimes_ne_nil (by rw [hopen]; exact hin))
    rw [if_pos hin, List.count_cons_self] at hone
    by_contra hne
    -- a positive listening socket is closed a second time, as slot 0
    rw [hs.count_descriptors (by omega), if_pos hlistener] at hone
    omega
  · intro hzero d _
    have hiff := hs.mem_slots_iff (htracked hzero) (d := d)
    by_cases hd : d = s.sock_server
    · have hpos : ¬ 0 < d := by omega
      rw [if_pos (hiff.mpr (by rw [hd]; exact hlistener)), hd, List.count_cons_self,
        List.count_eq_zero_of_not_mem]
      intro hmem
      rw [← hd] at hmem
      exact hpos (by simpa using (List.mem_filter.mp hmem).2)
    · rw [List.count_cons_of_ne (Ne.symm hd)]
      by_cases hpos : 0 < d
      · rw [hs.count_descriptors hpos]
        by_cases hmem : d ∈ s.slots
        · rw [if_pos hmem, if_pos (hiff.mpr hmem)]
        · rw [if_neg hmem, if_neg (fun h => hmem (hiff.mp h))]
      · have hout : d ∉ s.slots := fun hmem => (hs.positive d hmem).elim hd hpos
        rw [if_neg (fun h => hout (hiff.mp h)), List.count_eq_zero_of_not_mem]
        intro hmem
        exact hpos (by simpa using (List.mem_filter.mp hmem).2)

end LedgerInv

/-! ## Runs that end -/

/-- The function returns after the clean-up only. -/
theorem eq_cleanUp_of_exited {s t : State} {e : Event} (hs : InRange s) (h : step s e = some t)
    (hexit : t.phase = .exited) : t = cleanUp s := by
  rcases Step.of_step hs h with ⟨-, -⟩ | ⟨-, -⟩ | ⟨-, -, -, -, -, -⟩ | ⟨-, -, -, -, -, -, -, -⟩ |
    ⟨-, -, -, -, -, -, -, -⟩ | ⟨-, -, -, -, -, -, -⟩ | ⟨-, -, -, -, -, -, -, -, -⟩ | ⟨-, -, -, -⟩ | ⟨-, -⟩
  · rfl
  all_goals cases hexit

/-- What holds of the state in which the loop is left. -/
def Leaving (sock_server : Int) (s : State) : Prop :=
  LedgerInv s ∧ s.sock_server = sock_server ∧ (sock_server = 0 → Tracked s)

/-- A step of the loop. -/
theorem Leaving.of_step {others : Finset Int} {sock_server : Int} {s t : State} {e : Event}
    (hs : Leaving sock_server s) (hok : FreshWithRoom (insert sock_server others) s e)
    (h : step s e = some t) : t.phase = .exited ∨ Leaving sock_server t := by
  obtain ⟨hledger, rfl, htracked⟩ := hs
  have hfresh : Fresh (insert s.sock_server ∅) s e := hok.1.of_insert
  have hroom : s.sock_server = 0 → AcceptsWithRoom s e := by
    intro hzero
    rcases e with _ | ⟨sock_client, ssl, rc⟩ | _ | _
    · trivial
    · intro hpos
      refine ⟨lt_of_le_of_ne hpos ?_, hok.2 hpos⟩
      -- descriptor 0 is the listening socket, which is open
      rintro rfl
      apply hfresh.1 le_rfl
      rw [← hzero]
      exact hledger.table.isOpen _ (List.mem_of_getElem? hledger.table.head)
    · trivial
    · trivial
  rcases hledger.of_step hfresh h with hexit | ht
  · exact .inl hexit
  by_cases hexit : t.phase = .exited
  · exact .inl hexit
  refine .inr ⟨ht, (Step.of_step hledger.table.inRange h).sock_server, fun hzero => ?_⟩
  exact (tracked_of_step hledger.table.inRange (htracked hzero) (hroom hzero) h).resolve_left hexit

/-- A run that has ended went through the clean-up. -/
theorem exists_cleanUp {others : Finset Int} {sock_server : Int} {ssl : Ssl} {t : State}
    (h : Reach step (FreshWithRoom (insert sock_server others)) (init sock_server ssl) t)
    (hexit : t.phase = .exited) : ∃ s, Leaving sock_server s ∧ t = cleanUp s := by
  have hall : t.phase ≠ .exited ∧ Leaving sock_server t ∨ ∃ s, Leaving sock_server s ∧ t = cleanUp s := by
    refine h.invariant
      (I := fun t => t.phase ≠ .exited ∧ Leaving sock_server t ∨
        ∃ s, Leaving sock_server s ∧ t = cleanUp s) ?_
      (.inl ⟨?_, LedgerInv.init sock_server ssl, rfl, ?_⟩)
    · rintro u e v (⟨-, hu⟩ | ⟨s, hs, rfl⟩) hok hstep
      · by_cases hv : v.phase = .exited
        · exact .inr ⟨u, hu, eq_cleanUp_of_exited hu.1.table.inRange hstep hv⟩
        · exact .inl ⟨hv, (hu.of_step hok hstep).resolve_left hv⟩
      · cases hstep
    · intro hphase
      cases hphase
    · intro _ d hd
      cases hd
  rcases hall with ⟨hrun, -⟩ | hend
  · exact absurd hexit hrun
  · exact hend

/-- **When the shutdown is clean.** In every run that ends because `poll` fails, whatever clients came and
went while there was room for them: every descriptor was closed exactly once and every TLS object freed
exactly once if and only if the listening socket is descriptor 0. -/
theorem cleanShutdown_iff (others : Finset Int) {sock_server : Int} (hsock : 0 ≤ sock_server) (ssl : Ssl)
    {t : State} (h : Reach step (FreshWithRoom (insert sock_server others)) (init sock_server ssl) t)
    (hexit : t.phase = .exited) : CleanShutdown sock_server t.trace ↔ sock_server = 0 := by
  obtain ⟨s, ⟨hs, rfl, htracked⟩, rfl⟩ := exists_cleanUp h hexit
  rw [CleanShutdown, hs.closedOnce_fd_iff hsock htracked, and_iff_left hs.closedOnce_ssl]

/-- Listening on descriptor 0, client 4 comes, and then `poll` fails. -/
theorem cleanShutdown_iff_zero : ∃ t, Reach step (FreshWithRoom (insert 0 {1, 2})) (init 0 100) t ∧
    Call.accept 4 ∈ t.trace ∧ CleanShutdown 0 t.trace := by
  have hrun : (execOk step (FreshWithRoom (insert 0 {1, 2})) (init 0 100)
      [.poll 1 fun i => if i = 0 then pollIn else 0, .accept 4 104 1, .tau, .tau]).any
      (fun s => s.phase = .polling ∧ .accept 4 ∈ s.trace) = true := by decide
  obtain ⟨s, hreach, hs⟩ := exists_reach_of_exec hrun
  obtain ⟨hphase, haccept⟩ := of_decide_eq_true hs
  have hfails : step s (.poll (-1) fun _ => 0) = some (cleanUp s) := by
    simp only [step, hphase]
    rfl
  have hend := hreach.trans (.single (e := .poll (-1) fun _ => 0) ⟨trivial, trivial⟩ hfails)
  refine ⟨cleanUp s, hend, ?_, (cleanShutdown_iff {1, 2} le_rfl 100 hend rfl).mpr rfl⟩
  exact List.mem_append_right _ (List.mem_cons_of_mem _ haccept)

/-- **The listening socket is closed twice**, here in a run in which `poll` fails at once. -/
theorem listener_closed_twice :
    ¬ ∀ (others : Finset Int) (sock_server : Int) (ssl : Ssl) (t : State), 0 ≤ sock_server →
      Reach step (FreshWithRoom (insert sock_server others)) (init sock_server ssl) t →
      t.phase = .exited → CleanShutdown sock_server t.trace := by
  intro hall
  have hreach : Reach step (FreshWithRoom (insert 3 {0, 1, 2})) (init 3 100) (cleanUp (init 3 100)) :=
    .single (e := .poll (-1) fun _ => 0) ⟨trivial, trivial⟩ rfl
  have hclean := hall {0, 1, 2} 3 100 _ (by decide) hreach rfl
  have hthree : (3 : Int) = 0 :=
    ((LedgerInv.init 3 100).closedOnce_fd_iff (by decide) (fun h => by cases h)).mp hclean.1
  omega

end LinuxNet.Openssl.SslServer
