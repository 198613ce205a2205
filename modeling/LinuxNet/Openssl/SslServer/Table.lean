/-
# LinuxNet.Openssl.SslServer.Table — two arrays in step

Slot `i` of `fds` and slot `i` of `arr_ssl` belong together. They are changed together at four places: a
client is appended, a failed handshake takes the append back, a client is removed by moving the last one
over it, and the freed last slot is reset. `TableInv` is what every path through the loop keeps.

Two of its parts are about the scan. `ahead`: a readable slot the scan has not come to yet was reported by
this round's `poll`; a slot that is refilled during the scan is behind it, because the index steps on.
`quiet`: at the start of a scan no free slot is readable, because `poll` reports nothing for a negative
descriptor; so the client that is appended in this scan, in the slot the scan will come to last, is not
taken for one that was reported. That the append happens at the start of the scan is a consequence of the
listening socket having slot 0.
-/
import LinuxNet.Openssl.SslServer.Loop

namespace LinuxNet.Openssl.SslServer

open LinuxNet.Lib LinuxNet.Lib.FdLedger LinuxNet.Posix
open LinuxNet.Tutorials.PollServer (responseText)

/-- The descriptors of the slots in use. -/
def State.slots (s : State) : List Int := s.fds.slots s.nfds

/-- Slot `i` holds a connection: its TLS object is live and bound to its descriptor. -/
def Connected (s : State) (i : ℕ) : Prop :=
  ∃ p ssl, s.fds.get? i = some p ∧ s.arr_ssl.get? i = some (some ssl) ∧ ssl ∈ liveSsl s.trace ∧
    boundFd s.trace ssl = some p.fd

/-- Slot `i` is free: its descriptor is -1 and its TLS object `NULL`. -/
def Vacant (s : State) (i : ℕ) : Prop :=
  ∃ p, s.fds.get? i = some p ∧ p.fd = -1 ∧ s.arr_ssl.get? i = some none

/-- **The table invariant** of a running loop. -/
structure TableInv (base : Finset Int) (s : State) : Prop where
  noFault : ∀ i, s.phase ≠ .fault i
  le : s.nfds ≤ maxConnection
  head : s.slots[0]? = some s.sock_server
  nodup : s.slots.Nodup
  isOpen : ∀ d ∈ s.slots, d ∈ openFds base (fdHistory s.trace)
  connected : ∀ i, i < s.nfds → Connected s i
  vacant : ∀ i, s.nfds ≤ i → i < maxConnection → Vacant s i
  ahead : ∀ i, s.phase = .scan i → ∀ j p, i ≤ j → j < s.nfds → s.fds.get? j = some p →
    p.readable = true → p.fd ∈ reported s.trace
  quiet : s.phase = .scan 0 → ∀ j p, s.nfds ≤ j → s.fds.get? j = some p → p.readable = false
  onLive : EachCall OnLive s.trace
  reads : EachCall ReadsReported s.trace

/-! ## What a trace says after some more calls -/

theorem reported_append {calls : List Call} (hcalls : ∀ c ∈ calls, c.ready? = none)
    (trace : List Call) : reported (calls ++ trace) = reported trace := by
  rw [reported, lastMark_append hcalls]
  rfl

theorem boundFd_append {calls : List Call} {ssl : Ssl} (hcalls : ∀ c ∈ calls, c.binds? ssl = none)
    (trace : List Call) : boundFd (calls ++ trace) ssl = boundFd trace ssl := by
  have hnone : calls.findSome? (Call.binds? ssl) = none := List.findSome?_eq_none_iff.mpr hcalls
  rw [boundFd, List.findSome?_append, hnone, Option.none_or]
  rfl

/-! What the calls of an `accept` do to the descriptor history, one lemma per way it ends. -/

theorem fdHistory_accept_neg {sock_client : Int} (hneg : sock_client < 0) (trace : List Call) :
    fdHistory (.accept sock_client :: trace) = fdHistory trace :=
  List.filterMap_cons_none (Call.fdOp_accept_neg hneg)

theorem fdHistory_accept_pos {sock_client : Int} (hpos : 0 ≤ sock_client) (trace : List Call) :
    fdHistory (.accept sock_client :: trace) = .opened sock_client :: fdHistory trace :=
  List.filterMap_cons_some (Call.fdOp_accept_pos hpos)

theorem fdHistory_stores {sock_client : Int} (hpos : 0 ≤ sock_client) (ssl : Ssl) (trace : List Call) :
    fdHistory ([.sslAccept ssl, .sslSetFd ssl sock_client, .sslNew ssl, .accept sock_client] ++ trace) =
      .opened sock_client :: fdHistory trace :=
  fdHistory_accept_pos hpos trace

/-- A failed handshake closes the descriptor that was accepted for it. -/
theorem fdHistory_handshakeFails {sock_client : Int} (hpos : 0 ≤ sock_client) (ssl : Ssl)
    (trace : List Call) :
    fdHistory ([.sslFree ssl, .close sock_client, .sslAccept ssl, .sslSetFd ssl sock_client,
      .sslNew ssl, .accept sock_client] ++ trace) =
      .closed sock_client :: .opened sock_client :: fdHistory trace :=
  congrArg (FdOp.closed sock_client :: ·) (fdHistory_accept_pos hpos trace)

/-- A call that is not made on a TLS object does no harm to one. -/
theorem onLive_of_none {call : Call} (h : call.ssl? = none) (before : List Call) :
    OnLive call before := by
  intro ssl hssl
  rw [h] at hssl
  cases hssl

theorem onLive_of_mem {call : Call} {ssl : Ssl} (h : call.ssl? = some ssl) {before : List Call}
    (hlive : ssl ∈ liveSsl before) : OnLive call before := by
  intro ssl' hssl'
  rw [h] at hssl'
  cases hssl'
  exact hlive

/-- Calls other than `SSL_read` need no report. -/
theorem reads_append {calls trace : List Call} (hcalls : ∀ c ∈ calls, ∀ ssl, c ≠ .sslRead ssl)
    (h : EachCall ReadsReported trace) : EachCall ReadsReported (calls ++ trace) := by
  induction calls with
  | nil => exact h
  | cons c calls ih =>
      obtain ⟨hc, hmore⟩ := List.forall_mem_cons.mp hcalls
      exact ⟨fun ssl heq => absurd heq (hc ssl), ih hmore⟩

namespace TableInv

variable {base : Finset Int} {s t : State}

theorem length_slots (hs : TableInv base s) : s.slots.length = s.nfds := s.fds.length_slots hs.le

theorem pos (hs : TableInv base s) : 0 < s.nfds := by
  rw [← hs.length_slots]
  obtain ⟨hlt, -⟩ := List.getElem?_eq_some_iff.mp hs.head
  exact hlt

theorem inRange (hs : TableInv base s) : InRange s := by
  refine ⟨hs.le, fun i hi => ?_⟩
  obtain ⟨-, ssl, -, hssl, -, -⟩ := hs.connected i hi
  exact ⟨ssl, hssl⟩

/-- **No descriptor is in two slots.** -/
theorem fd_inj (hs : TableInv base s) {i j : ℕ} {p q : PollFd} (hi : i < s.nfds) (hj : j < s.nfds)
    (hp : s.fds.get? i = some p) (hq : s.fds.get? j = some q) (h : p.fd = q.fd) : i = j := by
  have hleni : i < (s.fds.slots s.nfds).length := by
    rw [s.fds.length_slots hs.le]
    exact hi
  have hlenj : j < (s.fds.slots s.nfds).length := by
    rw [s.fds.length_slots hs.le]
    exact hj
  have hsame : (s.fds.slots s.nfds)[i] = (s.fds.slots s.nfds)[j] := by
    rw [PollArray.slots_getElem hi hp hleni, PollArray.slots_getElem hj hq hlenj, h]
  exact (List.Nodup.getElem_inj_iff hs.nodup).mp hsame

/-- The TLS object that belongs to a slot in use. -/
theorem exists_ssl (hs : TableInv base s) {i : ℕ} {p : PollFd} (hi : i < s.nfds)
    (hp : s.fds.get? i = some p) : ∃ ssl, s.arr_ssl.get? i = some (some ssl) ∧
      ssl ∈ liveSsl s.trace ∧ boundFd s.trace ssl = some p.fd := by
  obtain ⟨p', ssl, hp', hssl, hlive, hbound⟩ := hs.connected i hi
  rw [hp] at hp'
  cases hp'
  exact ⟨ssl, hssl, hlive, hbound⟩

/-- The listening socket is in slot 0. -/
theorem get?_zero (hs : TableInv base s) : ∃ p, s.fds.get? 0 = some p ∧ p.fd = s.sock_server := by
  have hhead := hs.head
  rw [State.slots, PollArray.getElem?_slots, if_pos hs.pos] at hhead
  exact Option.map_eq_some_iff.mp hhead

/-- The scan finds the listening socket in slot 0 only. -/
theorem index_eq_zero (hs : TableInv base s) {i : ℕ} {p : PollFd} (hi : i < s.nfds)
    (hp : s.fds.get? i = some p) (hsock : p.fd = s.sock_server) : i = 0 := by
  obtain ⟨p₀, hp₀, hfd₀⟩ := hs.get?_zero
  exact hs.fd_inj hi hs.pos hp hp₀ (hsock.trans hfd₀.symm)

/-- Two connections have two TLS objects. -/
theorem ssl_ne (hs : TableInv base s) {i j : ℕ} {p q : PollFd} {ssl ssl' : Ssl} (hi : i < s.nfds)
    (hj : j < s.nfds) (hne : i ≠ j) (hp : s.fds.get? i = some p) (hq : s.fds.get? j = some q)
    (hssl : boundFd s.trace ssl = some p.fd) (hssl' : boundFd s.trace ssl' = some q.fd) :
    ssl ≠ ssl' := by
  rintro rfl
  rw [hssl] at hssl'
  exact hne (hs.fd_inj hi hj hp hq (Option.some.inj hssl'))

/-! ## The steps that leave the arrays alone -/

/-- A step that changes the phase and makes calls, but leaves both arrays alone. -/
theorem of_calls (hs : TableInv base s) (phase : Phase) (calls : List Call)
    (hfault : ∀ i, phase ≠ .fault i)
    (hphase : ∀ i, phase = .scan i → ∃ j, s.phase = .scan j ∧ i = j + 1)
    (hlive : liveSsl (calls ++ s.trace) = liveSsl s.trace)
    (hbound : ∀ ssl, ∀ c ∈ calls, c.binds? ssl = none) (hready : ∀ c ∈ calls, c.ready? = none)
    (hopen : openFds base (fdHistory s.trace) ⊆ openFds base (fdHistory (calls ++ s.trace)))
    (honLive : EachCall OnLive (calls ++ s.trace))
    (hreads : EachCall ReadsReported (calls ++ s.trace)) :
    TableInv base { s with phase := phase, trace := calls ++ s.trace } := by
  refine ⟨hfault, hs.le, hs.head, hs.nodup, fun d hd => hopen (hs.isOpen d hd), ?_, hs.vacant, ?_, ?_,
    honLive, hreads⟩
  · intro i hi
    obtain ⟨p, ssl, hp, hssl, hin, hfd⟩ := hs.connected i hi
    refine ⟨p, ssl, hp, hssl, ?_, ?_⟩
    · show ssl ∈ liveSsl (calls ++ s.trace)
      rw [hlive]
      exact hin
    · show boundFd (calls ++ s.trace) ssl = some p.fd
      rw [boundFd_append (hbound ssl), hfd]
  · intro i hi j p hij hj hp hr
    obtain ⟨i', hi', rfl⟩ := hphase i hi
    show p.fd ∈ reported (calls ++ s.trace)
    rw [reported_append hready]
    exact hs.ahead i' hi' j p (by omega) hj hp hr
  · intro hi
    obtain ⟨i', -, heq⟩ := hphase 0 hi
    omega

theorem polls (hs : TableInv base s) (revents : ℕ → BitVec 16) :
    TableInv base
      { s with
        fds := s.fds.report maxConnection (pollRevents s.fds revents)
        phase := .scan 0
        trace := .poll ((s.fds.report maxConnection (pollRevents s.fds revents)).readyFds
          maxConnection) :: s.trace } := by
  set fds := s.fds.report maxConnection (pollRevents s.fds revents) with hfds
  have hslots : fds.slots s.nfds = s.slots := s.fds.slots_report _ _ _
  have hget : ∀ j, fds.get? j = (s.fds.get? j).map fun p =>
      if j < maxConnection then { p with revents := pollRevents s.fds revents j } else p := fun j =>
    s.fds.get?_report _ _ j
  have hfd : ∀ j p, s.fds.get? j = some p → ∃ p', fds.get? j = some p' ∧ p'.fd = p.fd := by
    intro j p hp
    rw [hget, hp]
    refine ⟨_, rfl, ?_⟩
    split
    · rfl
    · rfl
  have hlt : ∀ j p, fds.get? j = some p → j < maxConnection := by
    intro j p hp
    obtain ⟨hlen, -⟩ := List.getElem?_eq_some_iff.mp hp
    rw [fds.size_eq] at hlen
    exact hlen
  refine ⟨nofun, hs.le, ?_, ?_, ?_, ?_, ?_, ?_, ?_, ?_, ?_⟩
  · show (fds.slots s.nfds)[0]? = some s.sock_server
    rw [hslots]
    exact hs.head
  · show (fds.slots s.nfds).Nodup
    rw [hslots]
    exact hs.nodup
  · intro d hd
    have hd : d ∈ fds.slots s.nfds := hd
    rw [hslots] at hd
    exact hs.isOpen d hd
  · intro i hi
    obtain ⟨p, ssl, hp, hssl, hin, hbound⟩ := hs.connected i hi
    obtain ⟨p', hp', heq⟩ := hfd i p hp
    refine ⟨p', ssl, hp', hssl, hin, ?_⟩
    rw [heq]
    exact hbound
  · intro i hi hlt
    obtain ⟨p, hp, hneg, hnull⟩ := hs.vacant i hi hlt
    obtain ⟨p', hp', heq⟩ := hfd i p hp
    exact ⟨p', hp', heq.trans hneg, hnull⟩
  · intro i _ j p _ _ hp hr
    show p.fd ∈ fds.readyFds maxConnection
    exact PollArray.mem_readyFds.mpr ⟨j, p, hlt j p hp, hp, hr, rfl⟩
  · -- a free slot has a negative descriptor, and nothing is reported for it
    intro _ j p hj hp
    have hjlt := hlt j p hp
    obtain ⟨p₀, hp₀, hneg, -⟩ := hs.vacant j hj hjlt
    have hzero : pollRevents s.fds revents j = 0 := by
      rw [pollRevents, hp₀]
      exact if_pos (by simp [hneg])
    have hp : fds.get? j = some p := hp
    rw [hget, hp₀, Option.map_some, if_pos hjlt, hzero] at hp
    rw [← Option.some.inj hp]
    show hasPollIn 0 = false
    decide
  · exact ⟨onLive_of_none rfl _, hs.onLive⟩
  · exact ⟨nofun, hs.reads⟩

/-! ## The steps that change the arrays -/

/-- A handshake that fails leaves both arrays as they were, but for the `events` of a free slot. -/
theorem handshakeFails (hs : TableInv base s) {sock_client : Int} {ssl : Ssl}
    (hphase : s.phase = .scan 0) (hpos : 0 < sock_client) (hroom : s.nfds < maxConnection)
    (hfresh : sock_client ∉ openFds base (fdHistory s.trace)) (hnew : ssl ∉ liveSsl s.trace) :
    TableInv base
      { s with
        fds := (s.fds.modify s.nfds fun p => { p with fd := sock_client, events := pollIn }).modify
          s.nfds fun p => { p with fd := -1 }
        arr_ssl := (s.arr_ssl.set s.nfds (some ssl)).set s.nfds none
        phase := .scan (0 + 1)
        trace := [.sslFree ssl, .close sock_client, .sslAccept ssl, .sslSetFd ssl sock_client,
          .sslNew ssl, .accept sock_client] ++ s.trace } := by
  set calls : List Call := [.sslFree ssl, .close sock_client, .sslAccept ssl,
    .sslSetFd ssl sock_client, .sslNew ssl, .accept sock_client] with hcalls
  obtain ⟨p₀, hp₀, -, hnull⟩ := hs.vacant s.nfds le_rfl hroom
  have harr : (s.arr_ssl.set s.nfds (some ssl)).set s.nfds none = s.arr_ssl :=
    SlotArray.set_set_of_get? hnull (some ssl)
  rw [harr]
  set fds := (s.fds.modify s.nfds fun p => { p with fd := sock_client, events := pollIn }).modify
    s.nfds fun p => { p with fd := -1 } with hfds
  have hslots : fds.slots s.nfds = s.slots := by
    rw [hfds, PollArray.slots_modify_of_le _ le_rfl, PollArray.slots_modify_of_le _ le_rfl]
    rfl
  have hget : ∀ j, s.nfds ≠ j → fds.get? j = s.fds.get? j := by
    intro j hj
    rw [hfds, PollArray.get?_modify_ne _ _ hj, PollArray.get?_modify_ne _ _ hj]
  have hlive : ∀ ssl', ssl' ∈ liveSsl s.trace → ssl' ≠ ssl ∧ ssl' ∈ liveSsl (calls ++ s.trace) := by
    intro ssl' hin
    have hne : ssl' ≠ ssl := ne_of_mem_of_not_mem hin hnew
    exact ⟨hne, Finset.mem_erase.mpr ⟨hne, Finset.mem_insert_of_mem hin⟩⟩
  have hready : ∀ c ∈ calls, c.ready? = none := by
    simp [hcalls, Call.ready?]
  refine ⟨nofun, hs.le, ?_, ?_, ?_, ?_, ?_, ?_, nofun, ?_, ?_⟩
  · show (fds.slots s.nfds)[0]? = some s.sock_server
    rw [hslots]
    exact hs.head
  · show (fds.slots s.nfds).Nodup
    rw [hslots]
    exact hs.nodup
  · intro d hd
    have hd : d ∈ fds.slots s.nfds := hd
    rw [hslots] at hd
    have hin := hs.isOpen d hd
    rw [fdHistory_handshakeFails hpos.le]
    show d ∈ (insert sock_client (openFds base (fdHistory s.trace))).erase sock_client
    exact Finset.mem_erase.mpr ⟨ne_of_mem_of_not_mem hin hfresh, Finset.mem_insert_of_mem hin⟩
  · intro i hi
    obtain ⟨p, ssl', hp, hssl', hin, hbound⟩ := hs.connected i hi
    obtain ⟨hne, hin'⟩ := hlive ssl' hin
    refine ⟨p, ssl', (hget i (ne_of_gt hi)).trans hp, hssl', hin', ?_⟩
    show boundFd (calls ++ s.trace) ssl' = some p.fd
    rw [boundFd_append, hbound]
    simp [hcalls, Call.binds?, Ne.symm hne]
  · intro i hi hlt
    obtain ⟨p, hp, hneg, hnull'⟩ := hs.vacant i hi hlt
    by_cases hij : s.nfds = i
    · refine ⟨{ p₀ with fd := -1, events := pollIn }, ?_, rfl, hnull'⟩
      show fds.get? i = _
      rw [← hij, hfds, PollArray.get?_modify_self, PollArray.get?_modify_self, hp₀]
      rfl
    · exact ⟨p, (hget i hij).trans hp, hneg, hnull'⟩
  · intro i hi j p hij hj hp hr
    cases hi
    show p.fd ∈ reported (calls ++ s.trace)
    rw [reported_append hready]
    exact hs.ahead 0 hphase j p (by omega) hj ((hget j (ne_of_gt hj)).symm.trans hp) hr
  · have hin : ssl ∈ liveSsl (Call.sslNew ssl :: .accept sock_client :: s.trace) :=
      Finset.mem_insert_self ssl (liveSsl s.trace)
    exact ⟨onLive_of_mem rfl hin, onLive_of_none rfl _, onLive_of_mem rfl hin, onLive_of_mem rfl hin,
      onLive_of_none rfl _, onLive_of_none rfl _, hs.onLive⟩
  · apply reads_append _ hs.reads
    simp [hcalls]

/-- A client is appended to both arrays. -/
theorem stores (hs : TableInv base s) {sock_client : Int} {ssl : Ssl} (hphase : s.phase = .scan 0)
    (hpos : 0 < sock_client) (hroom : s.nfds < maxConnection)
    (hfresh : sock_client ∉ openFds base (fdHistory s.trace)) (hnew : ssl ∉ liveSsl s.trace) :
    TableInv base
      { s with
        fds := s.fds.modify s.nfds fun p => { p with fd := sock_client, events := pollIn }
        arr_ssl := s.arr_ssl.set s.nfds (some ssl)
        nfds := s.nfds + 1
        phase := .scan (0 + 1)
        trace := [.sslAccept ssl, .sslSetFd ssl sock_client, .sslNew ssl, .accept sock_client] ++
          s.trace } := by
  set calls : List Call := [.sslAccept ssl, .sslSetFd ssl sock_client, .sslNew ssl,
    .accept sock_client] with hcalls
  set fds := s.fds.modify s.nfds fun p => { p with fd := sock_client, events := pollIn } with hfds
  obtain ⟨p₀, hp₀, -, -⟩ := hs.vacant s.nfds le_rfl hroom
  have hslots : fds.slots (s.nfds + 1) = s.slots ++ [sock_client] :=
    s.fds.slots_append hroom fun _ => rfl
  have hget : ∀ j, s.nfds ≠ j → fds.get? j = s.fds.get? j := fun j hj =>
    PollArray.get?_modify_ne _ _ hj
  have hnewGet : fds.get? s.nfds = some { p₀ with fd := sock_client, events := pollIn } := by
    rw [hfds, PollArray.get?_modify_self, hp₀]
    rfl
  have hlive : ∀ ssl', ssl' ∈ liveSsl s.trace → ssl' ≠ ssl ∧ ssl' ∈ liveSsl (calls ++ s.trace) := by
    intro ssl' hin
    exact ⟨ne_of_mem_of_not_mem hin hnew, Finset.mem_insert_of_mem hin⟩
  have hout : sock_client ∉ s.slots := fun hmem => hfresh (hs.isOpen _ hmem)
  have hready : ∀ c ∈ calls, c.ready? = none := by
    simp [hcalls, Call.ready?]
  refine ⟨nofun, hroom, ?_, ?_, ?_, ?_, ?_, ?_, nofun, ?_, ?_⟩
  · show (fds.slots (s.nfds + 1))[0]? = some s.sock_server
    rw [hslots, List.getElem?_append_left (by rw [hs.length_slots]; exact hs.pos)]
    exact hs.head
  · exact PollArray.nodup_slots_append hs.nodup hroom (fun _ => rfl) hout
  · intro d hd
    have hd : d ∈ fds.slots (s.nfds + 1) := hd
    rw [hslots, List.mem_append, List.mem_singleton] at hd
    rw [fdHistory_stores hpos.le]
    show d ∈ insert sock_client (openFds base (fdHistory s.trace))
    rcases hd with hd | hd
    · exact Finset.mem_insert_of_mem (hs.isOpen d hd)
    · rw [hd]
      exact Finset.mem_insert_self _ _
  · intro i hi
    rcases Nat.lt_succ_iff_lt_or_eq.mp hi with hi | rfl
    · obtain ⟨p, ssl', hp, hssl', hin, hbound⟩ := hs.connected i hi
      obtain ⟨hne, hin'⟩ := hlive ssl' hin
      refine ⟨p, ssl', (hget i (ne_of_gt hi)).trans hp, ?_, hin', ?_⟩
      · show (s.arr_ssl.set s.nfds (some ssl)).get? i = _
        rw [SlotArray.get?_set_ne _ (ne_of_gt hi), hssl']
      · show boundFd (calls ++ s.trace) ssl' = some p.fd
        rw [boundFd_append, hbound]
        simp [hcalls, Call.binds?, Ne.symm hne]
    · refine ⟨_, ssl, hnewGet, SlotArray.get?_set_self _ hroom _,
        Finset.mem_insert_self ssl (liveSsl s.trace), ?_⟩
      simp [hcalls, boundFd, List.findSome?_cons, Call.binds?]
  · intro i hi hlt
    have hi : s.nfds + 1 ≤ i := hi
    obtain ⟨p, hp, hneg, hnull⟩ := hs.vacant i (by omega) hlt
    refine ⟨p, (hget i (by omega)).trans hp, hneg, ?_⟩
    show (s.arr_ssl.set s.nfds (some ssl)).get? i = _
    rw [SlotArray.get?_set_ne _ (by omega), hnull]
  · intro i hi j p hij hj hp hr
    cases hi
    show p.fd ∈ reported (calls ++ s.trace)
    rw [reported_append hready]
    rcases Nat.lt_succ_iff_lt_or_eq.mp hj with hj | rfl
    · exact hs.ahead 0 hphase j p (by omega) hj ((hget j (ne_of_gt hj)).symm.trans hp) hr
    · -- the slot of the new client still has the `revents` it had when it was free
      have hp : fds.get? s.nfds = some p := hp
      rw [hnewGet] at hp
      cases hp
      have hquiet : p₀.readable = false := hs.quiet hphase s.nfds p₀ le_rfl hp₀
      have hr : p₀.readable = true := hr
      rw [hquiet] at hr
      cases hr
  · have hin : ssl ∈ liveSsl (Call.sslNew ssl :: .accept sock_client :: s.trace) :=
      Finset.mem_insert_self ssl (liveSsl s.trace)
    exact ⟨onLive_of_mem rfl hin, onLive_of_mem rfl hin, onLive_of_none rfl _, onLive_of_none rfl _,
      hs.onLive⟩
  · apply reads_append _ hs.reads
    simp [hcalls]

/-- A client is removed from both arrays, and the last one moves over it. -/
theorem refill (hs : TableInv base s) {i : ℕ} {p q : PollFd} {ssl : Ssl} {lastSsl : Option Ssl}
    (hphase : s.phase = .scan i) (hlt : i < s.nfds) (hp : s.fds.get? i = some p)
    (hr : p.readable = true) (hsock : p.fd ≠ s.sock_server)
    (hssl : s.arr_ssl.get? i = some (some ssl)) (hq : s.fds.get? (s.nfds - 1) = some q)
    (hlast : s.arr_ssl.get? (s.nfds - 1) = some lastSsl) :
    TableInv base (s.refill i q.fd lastSsl [.sslFree ssl, .close p.fd, .sslRead ssl]) := by
  set calls : List Call := [.sslFree ssl, .close p.fd, .sslRead ssl] with hcalls
  set t := s.refill i q.fd lastSsl calls with ht
  have hle := hs.le
  obtain ⟨ssl', hssl', hlive, hbound⟩ := hs.exists_ssl hlt hp
  rw [hssl] at hssl'
  cases hssl'
  obtain ⟨sslq, hsslq, hliveq, hboundq⟩ := hs.exists_ssl (i := s.nfds - 1) (by omega) hq
  rw [hlast] at hsslq
  cases hsslq
  -- the listening socket is not removed
  have hi : i ≠ 0 := by
    rintro rfl
    obtain ⟨p₀, hp₀, hfd₀⟩ := hs.get?_zero
    rw [hp] at hp₀
    cases hp₀
    exact hsock hfd₀
  have hslots : t.slots = swapRemove s.slots i := by
    show ((s.fds.modify i _).modify (s.nfds - 1) _).slots (s.nfds - 1) = _
    rw [PollArray.slots_modify_of_le _ le_rfl]
    exact s.fds.slots_remove hle hlt hp hq rfl
  have hlen : i < s.slots.length := by
    rw [hs.length_slots]
    exact hlt
  have hmem : ∀ d, d ∈ t.slots → d ∈ s.slots ∧ d ≠ p.fd := by
    intro d hd
    rw [hslots] at hd
    have hin := (mem_swapRemove hs.nodup hlen).mp hd
    rw [show s.slots[i] = p.fd from PollArray.slots_getElem hlt hp hlen] at hin
    exact hin
  have hget : ∀ j, j ≠ i → j ≠ s.nfds - 1 → t.fds.get? j = s.fds.get? j := by
    intro j hj hj'
    show ((s.fds.modify i _).modify (s.nfds - 1) _).get? j = _
    rw [PollArray.get?_modify_ne _ _ (Ne.symm hj'), PollArray.get?_modify_ne _ _ (Ne.symm hj)]
  have harr : ∀ j, j ≠ i → j ≠ s.nfds - 1 → t.arr_ssl.get? j = s.arr_ssl.get? j := by
    intro j hj hj'
    show ((s.arr_ssl.set i _).set (s.nfds - 1) _).get? j = _
    rw [SlotArray.get?_set_ne _ (Ne.symm hj'), SlotArray.get?_set_ne _ (Ne.symm hj)]
  have hbounds : ∀ ssl', boundFd t.trace ssl' = boundFd s.trace ssl' := by
    intro ssl'
    exact boundFd_append (by simp [hcalls, Call.binds?]) s.trace
  have hlive' : ∀ ssl', ssl' ≠ ssl → ssl' ∈ liveSsl s.trace → ssl' ∈ liveSsl t.trace := by
    intro ssl' hne hin
    exact Finset.mem_erase.mpr ⟨hne, hin⟩
  refine ⟨nofun, (Nat.sub_le _ _).trans hle, ?_, ?_, ?_, ?_, ?_, ?_, nofun, ?_, ?_⟩
  · show t.slots[0]? = some s.sock_server
    rw [hslots, getElem?_swapRemove hlen, hs.length_slots, if_pos (by omega), if_neg hi.symm]
    exact hs.head
  · rw [hslots]
    exact nodup_swapRemove hs.nodup i
  · intro d hd
    obtain ⟨hin, hne⟩ := hmem d hd
    show d ∈ (openFds base (fdHistory s.trace)).erase p.fd
    exact Finset.mem_erase.mpr ⟨hne, hs.isOpen d hin⟩
  · intro j hj
    have hj : j < s.nfds - 1 := hj
    by_cases hij : j = i
    · subst hij
      refine ⟨{ p with fd := q.fd }, sslq, ?_, ?_, ?_, ?_⟩
      · show ((s.fds.modify j _).modify (s.nfds - 1) _).get? j = _
        rw [PollArray.get?_modify_ne _ _ (by omega), PollArray.get?_modify_self, hp]
        rfl
      · show ((s.arr_ssl.set j _).set (s.nfds - 1) _).get? j = _
        rw [SlotArray.get?_set_ne _ (by omega), SlotArray.get?_set_self _ (by omega)]
      · exact hlive' sslq (hs.ssl_ne (by omega) hlt (by omega) hq hp hboundq hbound) hliveq
      · rw [hbounds, hboundq]
    · obtain ⟨p', ssl', hp', hssl', hin, hbound'⟩ := hs.connected j (by omega)
      refine ⟨p', ssl', (hget j hij (by omega)).trans hp', (harr j hij (by omega)).trans hssl', ?_, ?_⟩
      · exact hlive' ssl' (hs.ssl_ne (by omega) hlt hij hp' hp hbound' hbound) hin
      · rw [hbounds, hbound']
  · intro j hj hjlt
    have hj : s.nfds - 1 ≤ j := hj
    by_cases hjlast : j = s.nfds - 1
    · subst hjlast
      obtain ⟨c, hc⟩ : ∃ c, (s.fds.modify i fun p => { p with fd := q.fd }).get? (s.nfds - 1) = some c :=
        PollArray.exists_get? _ hjlt
      refine ⟨{ c with fd := -1 }, ?_, rfl, SlotArray.get?_set_self _ hjlt _⟩
      show ((s.fds.modify i _).modify (s.nfds - 1) _).get? (s.nfds - 1) = _
      rw [PollArray.get?_modify_self, hc]
      rfl
    · obtain ⟨p', hp', hneg, hnull⟩ := hs.vacant j (by omega) hjlt
      exact ⟨p', (hget j (by omega) hjlast).trans hp', hneg,
        (harr j (by omega) hjlast).trans hnull⟩
  · intro k hk j p' hkj hj hp' hr'
    cases hk
    have hj : j < s.nfds - 1 := hj
    rw [hget j (by omega) (by omega)] at hp'
    show p'.fd ∈ reported (calls ++ s.trace)
    rw [reported_append (by simp [hcalls, Call.ready?])]
    exact hs.ahead i hphase j p' (by omega) (by omega) hp' hr'
  · exact ⟨onLive_of_mem rfl hlive, onLive_of_none rfl _, onLive_of_mem rfl hlive, hs.onLive⟩
  · refine ⟨nofun, nofun, ?_, hs.reads⟩
    intro ssl' heq
    cases heq
    exact ⟨p.fd, hbound, hs.ahead i hphase i p le_rfl hlt hp hr⟩

/-! ## The step lemma and the run lemma -/

theorem of_step {e : Event} (hs : TableInv base s) (hfresh : Fresh base s e)
    (h : step s e = some t) : t.phase = .exited ∨ TableInv base t := by
  rcases Step.of_step hs.inRange h with ⟨-, -⟩ | ⟨-, -⟩ |
    @⟨i, p, sock_client, ssl, rc, hphase, -, -, -, -, -⟩ |
    ⟨hphase, hlt, hp, -, hsock, hpos, hroom, -⟩ | ⟨hphase, hlt, hp, -, hsock, hpos, hroom, -⟩ |
    @⟨i, p, ssl, received, time, sent_bytes, hphase, hlt, hp, hr, -, hssl, -⟩ |
    ⟨hphase, hlt, hp, hr, hsock, hssl, -, hq, hlast⟩ | @⟨i, p, hphase, -, -, -⟩ | ⟨-, -⟩
  · exact .inl rfl
  · exact .inr (hs.polls _)
  · right
    refine hs.of_calls (.scan (i + 1)) [.accept sock_client] nofun ?_ rfl ?_ ?_ ?_
      ⟨onLive_of_none rfl _, hs.onLive⟩ ⟨nofun, hs.reads⟩
    · intro j hj
      cases hj
      exact ⟨i, hphase, rfl⟩
    · simp [Call.binds?]
    · simp [Call.ready?]
    · show openFds base (fdHistory s.trace) ⊆
        openFds base (fdHistory (.accept sock_client :: s.trace))
      rcases lt_or_ge sock_client 0 with hneg | hpos
      · rw [fdHistory_accept_neg hneg]
      · rw [fdHistory_accept_pos hpos]
        exact Finset.subset_insert _ _
  · obtain rfl := hs.index_eq_zero hlt hp hsock
    exact .inr (hs.handshakeFails hphase hpos hroom (hfresh.1 hpos.le) hfresh.2)
  · obtain rfl := hs.index_eq_zero hlt hp hsock
    exact .inr (hs.stores hphase hpos hroom (hfresh.1 hpos.le) hfresh.2)
  · right
    obtain ⟨ssl', hssl', hlive, hbound⟩ := hs.exists_ssl hlt hp
    rw [hssl] at hssl'
    cases hssl'
    refine hs.of_calls (.scan (i + 1)) [.sslWrite ssl (responseText time), .sslRead ssl] nofun ?_ rfl
      ?_ ?_ (Finset.Subset.refl _) ⟨onLive_of_mem rfl hlive, onLive_of_mem rfl hlive, hs.onLive⟩
      ⟨nofun, ?_, hs.reads⟩
    · intro j hj
      cases hj
      exact ⟨i, hphase, rfl⟩
    · simp [Call.binds?]
    · simp [Call.ready?]
    · intro ssl' heq
      cases heq
      exact ⟨p.fd, hbound, hs.ahead i hphase i p le_rfl hlt hp hr⟩
  · exact .inr (hs.refill hphase hlt hp hr hsock hssl hq hlast)
  · right
    refine hs.of_calls (.scan (i + 1)) [] nofun ?_ rfl (by simp) (by simp) (Finset.Subset.refl _)
      hs.onLive hs.reads
    intro j hj
    cases hj
    exact ⟨i, hphase, rfl⟩
  · right
    exact hs.of_calls .polling [] nofun nofun rfl (by simp) (by simp) (Finset.Subset.refl _)
      hs.onLive hs.reads

theorem init (others : Finset Int) (sock_server : Int) (ssl : Ssl) :
    TableInv (insert sock_server others) (init sock_server ssl) := by
  set s := SslServer.init sock_server ssl with hs
  have hslots : s.slots = [sock_server] := rfl
  have hfds : ∀ j, 1 ≤ j → j < maxConnection → s.fds.get? j = some ⟨-1, 0, 0⟩ := by
    intro j hj hlt
    show ((PollArray.filled ⟨-1, 0, 0⟩).modify 0 _).get? j = _
    rw [PollArray.get?_modify_ne _ _ (by omega)]
    exact List.getElem?_replicate_of_lt hlt
  have hle : 1 ≤ maxConnection := by decide
  refine ⟨nofun, hle, ?_, ?_, ?_, ?_, ?_, nofun, nofun, ?_, ?_⟩
  · rw [hslots]
    rfl
  · rw [hslots]
    exact List.nodup_singleton sock_server
  · intro d hd
    rw [hslots, List.mem_singleton] at hd
    rw [hd]
    exact Finset.mem_insert_self sock_server others
  · intro i hi
    obtain rfl : i = 0 := Nat.lt_one_iff.mp hi
    refine ⟨⟨sock_server, pollIn, 0⟩, ssl, rfl, rfl, Finset.mem_insert_self ssl ∅, ?_⟩
    simp [hs, SslServer.init, boundFd, Call.binds?]
  · intro i hi hlt
    have hi : 1 ≤ i := hi
    refine ⟨_, hfds i hi hlt, rfl, ?_⟩
    show ((SlotArray.filled none).set 0 (some ssl)).get? i = _
    rw [SlotArray.get?_set_ne _ (by omega)]
    exact List.getElem?_replicate_of_lt hlt
  · exact ⟨onLive_of_mem rfl (Finset.mem_insert_self ssl ∅), onLive_of_none rfl _, trivial⟩
  · exact ⟨nofun, nofun, trivial⟩

theorem of_reach {others : Finset Int} {sock_server : Int} {ssl : Ssl}
    (h : Reach step (Fresh (insert sock_server others)) (SslServer.init sock_server ssl) s)
    (hrun : s.phase ≠ .exited) :
    TableInv (insert sock_server others) s ∧ s.sock_server = sock_server := by
  have hall : s.phase = .exited ∨
      TableInv (insert sock_server others) s ∧ s.sock_server = sock_server := by
    refine h.invariant (I := fun s => s.phase = .exited ∨ TableInv _ s ∧ s.sock_server = sock_server) ?_
      (.inr ⟨init others sock_server ssl, rfl⟩)
    rintro s e t (hexit | ⟨hs, hsock⟩) hok hstep
    · simp only [step, hexit] at hstep
      cases hstep
    · rcases hs.of_step hok hstep with hexit | ht
      · exact .inl hexit
      · exact .inr ⟨ht, (Step.of_step hs.inRange hstep).sock_server.trans hsock⟩
  exact hall.resolve_left hrun

end TableInv

/-! ## The arrays of a running server -/

/-- A handshake that fails, and an `accept` that fails, change neither the descriptors nor the TLS
objects. -/
theorem descriptors_of_handshakeFails {base : Finset Int} {s t : State} (hs : TableInv base s)
    {sock_client : Int} {ssl : Ssl} {rc : Int} (hrc : rc ≤ 0)
    (h : step s (.accept sock_client ssl rc) = some t) :
    t.nfds = s.nfds ∧ t.descriptors = s.descriptors ∧ t.arr_ssl = s.arr_ssl := by
  rcases Step.of_step hs.inRange h with ⟨⟩ | ⟨⟩ | ⟨-, -, -, -, -, -⟩ |
    ⟨-, -, -, -, -, -, hroom, -⟩ | ⟨-, -, -, -, -, -, -, hpos⟩
  · exact ⟨rfl, rfl, rfl⟩
  · obtain ⟨p, hp, hneg, hnull⟩ := hs.vacant s.nfds le_rfl hroom
    refine ⟨rfl, ?_, SlotArray.set_set_of_get? hnull (some ssl)⟩
    apply List.ext_getElem?
    intro j
    show ((((s.fds.modify s.nfds _).modify s.nfds _).cells.map PollFd.fd)[j]?) =
      (s.fds.cells.map PollFd.fd)[j]?
    rw [List.getElem?_map, List.getElem?_map]
    show ((((s.fds.modify s.nfds _).modify s.nfds _).get? j).map PollFd.fd) =
      (s.fds.get? j).map PollFd.fd
    by_cases hj : s.nfds = j
    · rw [← hj, PollArray.get?_modify_self, PollArray.get?_modify_self, hp]
      show some (-1) = some p.fd
      rw [hneg]
    · rw [PollArray.get?_modify_ne _ _ hj, PollArray.get?_modify_ne _ _ hj]
  · omega

/-- **The two arrays of the TLS server.** Whatever `poll`, `accept`, `SSL_accept`, `SSL_read` and
`SSL_write` answer, as long as `accept` returns a descriptor that is not open and `SSL_new` an object that
is not live: while the loop runs, the slots below `nfds` hold live TLS objects bound to their distinct
descriptors, the slots from `nfds` on are free, a failed handshake leaves everything as it was before,
every TLS call is made on a live object, and `SSL_read` only on a connection that was reported. -/
theorem arrays_of_reach (others : Finset Int) (sock_server : Int) (ssl : Ssl) (s : State)
    (h : Reach step (Fresh (insert sock_server others)) (init sock_server ssl) s)
    (hrun : s.phase ≠ .exited) :
    (∀ i, s.phase ≠ .fault i) ∧ (∀ i, i < s.nfds → Connected s i) ∧ s.slots.Nodup ∧
      (∀ i, s.nfds ≤ i → i < maxConnection → Vacant s i) ∧
      (∀ sock_client ssl rc t, rc ≤ 0 → step s (.accept sock_client ssl rc) = some t →
        t.nfds = s.nfds ∧ t.descriptors = s.descriptors ∧ t.arr_ssl = s.arr_ssl) ∧
      EachCall OnLive s.trace ∧ EachCall ReadsReported s.trace := by
  obtain ⟨hs, -⟩ := TableInv.of_reach h hrun
  refine ⟨hs.noFault, hs.connected, hs.nodup, hs.vacant, ?_, hs.onLive, hs.reads⟩
  intro sock_client ssl rc t hrc hstep
  exact descriptors_of_handshakeFails hs hrc hstep

/-- Two clients are accepted, a third one fails its handshake, and the first one quits: the second one
takes over its slot. -/
theorem arrays_of_reach_two_clients :
    ∃ s, Reach step (Fresh (insert 3 {0, 1, 2})) (init 3 100) s ∧ s.slots = [3, 5] ∧
      Connected s 1 ∧ Vacant s 2 := by
  have hrun : (execOk step (Fresh (insert 3 {0, 1, 2})) (init 3 100)
      [.poll 1 fun i => if i = 0 then pollIn else 0, .accept 4 104 1, .tau, .tau,
        .poll 1 fun i => if i = 0 then pollIn else 0, .accept 5 105 1, .tau, .tau, .tau,
        .poll 2 fun i => if i ≤ 1 then pollIn else 0, .accept 6 106 0,
        .serve (.data (ofText "quit")) 0 0]).any
        (fun s => s.phase = .scan 2 ∧ s.nfds = 2 ∧ s.slots = [3, 5]) = true := by decide
  obtain ⟨s, hreach, hs⟩ := exists_reach_of_exec hrun
  obtain ⟨hphase, hnfds, hslots⟩ := of_decide_eq_true hs
  obtain ⟨-, hconnected, -, hvacant, -⟩ :=
    arrays_of_reach {0, 1, 2} 3 100 s hreach (by rw [hphase]; nofun)
  exact ⟨s, hreach, hslots, hconnected 1 (by omega), hvacant 2 (by omega) (by decide)⟩

end LinuxNet.Openssl.SslServer
