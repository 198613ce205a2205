/-
# LinuxNet.Openssl.SslServer.Tracked — which accepted clients the TLS server monitors

The test `nfds < MAX_CONNECTION` has no else branch here either, so a client that finds the table full is
neither monitored nor closed. Descriptor 0 is lost in any case, because the server takes it for a failure
of `accept`.
-/
import LinuxNet.Openssl.SslServer.Table

namespace LinuxNet.Openssl.SslServer

open LinuxNet.Lib LinuxNet.Lib.FdLedger LinuxNet.Posix

/-- Every accepted descriptor that has not been closed is in a slot of `fds` below `nfds`. -/
def Tracked (s : State) : Prop := ∀ d ∈ openFds ∅ (fdHistory s.trace), d ∈ s.slots

/-- **The condition**: `accept` returns a descriptor only while there is a free slot, and never 0. -/
def AcceptsWithRoom (s : State) : Event → Prop
  | .accept sock_client _ _ => 0 ≤ sock_client → 0 < sock_client ∧ s.nfds < maxConnection
  | _ => True

instance (s : State) : (e : Event) → Decidable (AcceptsWithRoom s e)
  | .accept sock_client _ _ =>
    inferInstanceAs (Decidable (0 ≤ sock_client → 0 < sock_client ∧ s.nfds < maxConnection))
  | .poll _ _ | .serve _ _ _ | .tau => isTrue trivial

/-! ## Clients that find a slot are tracked -/

/-- Both arrays stay in range, whatever descriptors and objects are handed out. -/
theorem InRange.of_step {s t : State} {e : Event} (hs : InRange s) (h : step s e = some t) :
    t.phase = .exited ∨ InRange t := by
  have hle := hs.le
  rcases Step.of_step hs h with ⟨-, -⟩ | ⟨-, -⟩ | ⟨-, -, -, -, -, -⟩ |
    @⟨i, p, sock_client, ssl, rc, -, -, -, -, -, -, hroom, -⟩ |
    @⟨i, p, sock_client, ssl, rc, -, -, -, -, -, -, hroom, -⟩ | ⟨-, -, -, -, -, -, -⟩ |
    @⟨i, p, q, ssl, lastSsl, received, time, sent_bytes, -, hlt, -, -, -, -, -, -, hlast⟩ |
    ⟨-, -, -, -⟩ | ⟨-, -⟩
  · exact .inl rfl
  · exact .inr ⟨hs.le, hs.ssl⟩
  · exact .inr ⟨hs.le, hs.ssl⟩
  · refine .inr ⟨hs.le, fun j hj => ?_⟩
    have hj : j < s.nfds := hj
    obtain ⟨ssl', hssl'⟩ := hs.ssl j hj
    refine ⟨ssl', ?_⟩
    show ((s.arr_ssl.set s.nfds _).set s.nfds _).get? j = _
    rw [SlotArray.get?_set_ne _ (by omega), SlotArray.get?_set_ne _ (by omega), hssl']
  · refine .inr ⟨hroom, fun j hj => ?_⟩
    show ∃ ssl', (s.arr_ssl.set s.nfds (some ssl)).get? j = some (some ssl')
    rcases Nat.lt_succ_iff_lt_or_eq.mp hj with hj | rfl
    · obtain ⟨ssl', hssl'⟩ := hs.ssl j hj
      exact ⟨ssl', by rw [SlotArray.get?_set_ne _ (by omega), hssl']⟩
    · exact ⟨ssl, SlotArray.get?_set_self _ hroom _⟩
  · exact .inr ⟨hs.le, hs.ssl⟩
  · refine .inr ⟨(Nat.sub_le _ _).trans hle, fun j hj => ?_⟩
    have hj : j < s.nfds - 1 := hj
    show ∃ ssl', ((s.arr_ssl.set i lastSsl).set (s.nfds - 1) none).get? j = some (some ssl')
    rw [SlotArray.get?_set_ne _ (by omega)]
    by_cases hij : i = j
    · subst hij
      obtain ⟨ssl', hssl'⟩ := hs.ssl (s.nfds - 1) (by omega)
      rw [hlast] at hssl'
      rw [SlotArray.get?_set_self _ (by omega)]
      exact ⟨ssl', hssl'⟩
    · obtain ⟨ssl', hssl'⟩ := hs.ssl j (by omega)
      exact ⟨ssl', by rw [SlotArray.get?_set_ne _ hij, hssl']⟩
  · exact .inr ⟨hs.le, hs.ssl⟩
  · exact .inr ⟨hs.le, hs.ssl⟩

theorem tracked_of_step {s t : State} {e : Event} (hs : InRange s) (htracked : Tracked s)
    (hroom : AcceptsWithRoom s e) (h : step s e = some t) : t.phase = .exited ∨ Tracked t := by
  have hle := hs.le
  rcases Step.of_step hs h with ⟨-, -⟩ | ⟨-, -⟩ | @⟨i, p, sock_client, ssl, rc, -, -, -, -, -, hno⟩ |
    @⟨i, p, sock_client, ssl, rc, -, -, -, -, -, hpos, -, -⟩ |
    @⟨i, p, sock_client, ssl, rc, -, -, -, -, -, hpos, hlt, -⟩ | ⟨-, -, -, -, -, -, -⟩ |
    @⟨i, p, q, ssl, lastSsl, received, time, sent_bytes, -, hlt, hp, -, -, -, -, hq, -⟩ |
    ⟨-, -, -, -⟩ | ⟨-, -⟩
  · exact .inl rfl
  · right
    intro d hd
    show d ∈ (s.fds.report maxConnection _).slots s.nfds
    rw [PollArray.slots_report]
    exact htracked d hd
  · right
    rcases lt_or_ge sock_client 0 with hneg | hpos
    · intro d hd
      rw [fdHistory_accept_neg hneg] at hd
      exact htracked d hd
    · obtain ⟨hpos', hlt⟩ := hroom hpos
      omega
  · right
    intro d hd
    rw [fdHistory_handshakeFails hpos.le] at hd
    obtain ⟨hne, hd⟩ := Finset.mem_erase.mp hd
    show d ∈ ((s.fds.modify s.nfds _).modify s.nfds _).slots s.nfds
    rw [PollArray.slots_modify_of_le _ le_rfl, PollArray.slots_modify_of_le _ le_rfl]
    exact htracked d ((Finset.mem_insert.mp hd).resolve_left hne)
  · right
    intro d hd
    rw [fdHistory_stores hpos.le] at hd
    have hslots : (s.fds.modify s.nfds fun p => { p with fd := sock_client, events := pollIn }).slots
        (s.nfds + 1) = s.slots ++ [sock_client] := s.fds.slots_append hlt fun _ => rfl
    show d ∈ (s.fds.modify s.nfds _).slots (s.nfds + 1)
    rw [hslots, List.mem_append, List.mem_singleton]
    rcases Finset.mem_insert.mp hd with hd | hd
    · exact .inr hd
    · exact .inl (htracked d hd)
  · exact .inr htracked
  · right
    intro d hd
    have hd : d ∈ (openFds ∅ (fdHistory s.trace)).erase p.fd := hd
    obtain ⟨hne, hd⟩ := Finset.mem_erase.mp hd
    show d ∈ ((s.fds.modify i _).modify (s.nfds - 1) _).slots (s.nfds - 1)
    rw [PollArray.slots_modify_of_le _ le_rfl]
    exact PollArray.mem_slots_remove_of_ne hle hlt hp hq rfl (htracked d hd) hne
  · exact .inr htracked
  · exact .inr htracked

theorem tracked_of_room {sock_server : Int} {ssl : Ssl} {s : State}
    (h : Reach step AcceptsWithRoom (init sock_server ssl) s) (hrun : s.phase ≠ .exited) :
    Tracked s := by
  have hall : s.phase = .exited ∨ InRange s ∧ Tracked s := by
    refine h.invariant (I := fun s => s.phase = .exited ∨ InRange s ∧ Tracked s) ?_
      (.inr ⟨(TableInv.init ∅ sock_server ssl).inRange, ?_⟩)
    · rintro s e t (hexit | ⟨hs, htracked⟩) hroom hstep
      · simp only [step, hexit] at hstep
        cases hstep
      · rcases hs.of_step hstep with hexit | ht
        · exact .inl hexit
        · rcases tracked_of_step hs htracked hroom hstep with hexit | htracked'
          · exact .inl hexit
          · exact .inr ⟨ht, htracked'⟩
    · intro d hd
      exact absurd hd (Finset.notMem_empty d)
  exact (hall.resolve_left hrun).2

/-! ## The table gets full -/

theorem ne_exited_of_polling {s : State} (h : s.phase = .polling) : s.phase ≠ .exited := by
  intro hexit
  rw [h] at hexit
  cases hexit

theorem ne_exited_of_scan {s : State} {i : ℕ} (h : s.phase = .scan i) : s.phase ≠ .exited := by
  intro hexit
  rw [h] at hexit
  cases hexit

section Full

variable {base : Finset Int}

/-- One slot of a scan in which nobody comes and nobody goes. -/
theorem exists_idle_step {s : State} {i : ℕ} (hs : TableInv base s) (hphase : s.phase = .scan i)
    (hlt : i < s.nfds) :
    ∃ t, Reach step (Fresh base) s t ∧ TableInv base t ∧ t.phase = .scan (i + 1) ∧ t.nfds = s.nfds := by
  have hle := hs.le
  have hidle : ∃ e t, Fresh base s e ∧ step s e = some t ∧ t.phase = .scan (i + 1) ∧
      t.nfds = s.nfds := by
    obtain ⟨p, hp⟩ := s.fds.exists_get? (i := i) (by omega)
    obtain ⟨ssl, hssl, -, -⟩ := hs.exists_ssl hlt hp
    obtain ⟨fresh, -, hfresh⟩ := exists_fresh 0 (liveSsl s.trace)
    rcases hr : p.readable with _ | _
    · refine ⟨.tau, { s with phase := .scan (i + 1) }, trivial, ?_, rfl, rfl⟩
      simp only [step, hphase, if_pos hlt, hp, hr]
      rfl
    · by_cases hsock : p.fd = s.sock_server
      · -- `accept` fails
        refine ⟨.accept (-1) fresh 0, acceptClient { s with phase := .scan (i + 1) } (-1) fresh 0,
          ⟨by omega, hfresh⟩, ?_, rfl, rfl⟩
        simp only [step, hphase, if_pos hlt, hp, hr, if_pos hsock, if_true]
      · -- the client sends a byte, and stays
        refine ⟨.serve (.data [65]) 0 1,
          serveClient { s with phase := .scan (i + 1) } i p.fd ssl (.data [65]) 0, trivial, ?_, rfl, rfl⟩
        simp only [step, hphase, if_pos hlt, hp, hr, hssl, if_neg hsock, if_true]
  obtain ⟨e, t, hok, hstep, htphase, htnfds⟩ := hidle
  have ht := (hs.of_step hok hstep).resolve_left (ne_exited_of_scan htphase)
  exact ⟨t, .single hok hstep, ht, htphase, htnfds⟩

/-- The scan can be brought to its end without changing the table. -/
theorem exists_idle_end {s : State} {i : ℕ} (hs : TableInv base s) (hphase : s.phase = .scan i) :
    ∃ t, Reach step (Fresh base) s t ∧ t.phase = .polling ∧ t.nfds = s.nfds := by
  obtain ⟨t, ht, -, htphase, htnfds⟩ : ∃ t, Reach step (Fresh base) s t ∧
      TableInv base t ∧ t.phase = .scan (i + (s.nfds - i)) ∧ t.nfds = s.nfds := by
    refine Reach.exists_of_grow
      (P := fun n (t : State) => TableInv base t ∧ t.phase = .scan (i + n) ∧ t.nfds = s.nfds)
      ⟨hs, hphase, rfl⟩ _ ?_
    rintro n t hn - ⟨ht, htphase, htnfds⟩
    obtain ⟨u, hu, huinv, huphase, hunfds⟩ := exists_idle_step ht htphase (by omega)
    exact ⟨u, hu, huinv, huphase, hunfds.trans htnfds⟩
  have hstep : step t .tau = some { t with phase := .polling } := by
    simp only [step, htphase]
    rw [if_neg (by omega)]
  exact ⟨_, ht.trans (.single (e := .tau) trivial hstep), rfl, htnfds⟩

/-- A round in which the listening socket is reported comes to the call of `accept`. -/
theorem exists_at_listener {s : State} (hphase : s.phase = .polling) (hs : TableInv base s)
    (hsock : 0 ≤ s.sock_server) :
    ∃ t, Reach step (Fresh base) s t ∧ t.phase = .scan 0 ∧ t.nfds = s.nfds ∧
      ∀ d ssl rc, step t (.accept d ssl rc) =
        some (acceptClient { t with phase := .scan (0 + 1) } d ssl rc) := by
  obtain ⟨p, hp, hfd⟩ := hs.get?_zero
  have hpos := hs.pos
  have hstep : step s (.poll 1 fun _ => pollIn) = some (pollReturns s 1 fun _ => pollIn) := by
    simp only [step, hphase]
  set t := pollReturns s 1 fun _ => pollIn with ht
  have hrevents : pollRevents s.fds (fun _ => pollIn) 0 = pollIn := by
    rw [pollRevents, hp]
    exact if_neg (by simp [hfd, hsock])
  have hzero : t.fds.get? 0 = some { p with revents := pollIn } := by
    show (s.fds.report maxConnection _).get? 0 = _
    rw [PollArray.get?_report, hp, Option.map_some, if_pos (by decide), hrevents]
  have hreadable : ({ p with revents := pollIn } : PollFd).readable = true := by
    show hasPollIn pollIn = true
    decide
  refine ⟨t, .single (e := .poll _ _) trivial hstep, rfl, rfl, ?_⟩
  intro d ssl rc
  have htphase : t.phase = .scan 0 := rfl
  have htnfds : 0 < t.nfds := hpos
  have htsock : ({ p with revents := pollIn } : PollFd).fd = t.sock_server := hfd
  simp only [step, htphase, if_pos htnfds, hzero, hreadable, if_true]
  rw [if_pos htsock]

theorem acceptClient_room {s : State} {d : Int} (hd : 0 < d) (hroom : s.nfds < maxConnection)
    (ssl : Ssl) :
    (acceptClient s d ssl 1).phase = s.phase ∧ (acceptClient s d ssl 1).nfds = s.nfds + 1 := by
  obtain ⟨c, hc⟩ := s.fds.exists_get? hroom
  have hc' : (s.log (.accept d)).fds.get? (s.log (.accept d)).nfds = some c := hc
  rw [acceptClient, if_pos hd, if_pos hroom, storeClient, hc']
  exact ⟨rfl, rfl⟩

theorem acceptClient_full {s : State} {d : Int} (hd : 0 < d) (hfull : s.nfds = maxConnection)
    (ssl : Ssl) (rc : Int) :
    (acceptClient s d ssl rc).slots = s.slots ∧
      fdHistory (acceptClient s d ssl rc).trace = .opened d :: fdHistory s.trace := by
  rw [acceptClient, if_pos hd, if_neg (by omega)]
  exact ⟨rfl, fdHistory_accept_pos hd.le s.trace⟩

variable (others : Finset Int) {sock_server : Int} (ssl : Ssl)

/-- One more client comes, and stays. -/
theorem exists_one_more (hsock : 0 ≤ sock_server) {s : State}
    (hs : Reach step (Fresh (insert sock_server others)) (init sock_server ssl) s)
    (hphase : s.phase = .polling) (hroom : s.nfds < maxConnection) :
    ∃ t, Reach step (Fresh (insert sock_server others)) s t ∧
      t.phase = .polling ∧ t.nfds = s.nfds + 1 := by
  obtain ⟨hinv, hconst⟩ := TableInv.of_reach hs (ne_exited_of_polling hphase)
  obtain ⟨t, ht, htphase, htnfds, haccept⟩ :=
    exists_at_listener hphase hinv (by rw [hconst]; exact hsock)
  obtain ⟨d, hd, hfresh⟩ := exists_fresh 0 (openFds (insert sock_server others) (fdHistory t.trace))
  obtain ⟨fresh, -, hnew⟩ := exists_fresh 0 (liveSsl t.trace)
  set u := acceptClient { t with phase := .scan (0 + 1) } d fresh 1 with hu
  obtain ⟨huphase, hunfds⟩ : u.phase = .scan (0 + 1) ∧ u.nfds = t.nfds + 1 :=
    acceptClient_room (s := { t with phase := .scan (0 + 1) }) hd (htnfds.trans_lt hroom) fresh
  have hok : Fresh (insert sock_server others) t (.accept d fresh 1) := ⟨fun _ => hfresh, hnew⟩
  have hu' := ht.trans (.single hok (haccept d fresh 1))
  obtain ⟨huinv, -⟩ := TableInv.of_reach (hs.trans hu') (ne_exited_of_scan huphase)
  -- the rest of the scan leaves the table as it is
  obtain ⟨v, hv, hvphase, hvnfds⟩ := exists_idle_end huinv huphase
  refine ⟨v, hu'.trans hv, hvphase, ?_⟩
  rw [hvnfds, hunfds, htnfds]

/-- **The table gets full**: after `n` clients that stay, `n` slots are in use besides the first. -/
theorem exists_full (hsock : 0 ≤ sock_server) {n : ℕ} (hn : n < maxConnection) :
    ∃ s, Reach step (Fresh (insert sock_server others)) (init sock_server ssl) s ∧
      s.phase = .polling ∧ s.nfds = n + 1 := by
  refine Reach.exists_of_grow (P := fun n (s : State) => s.phase = .polling ∧ s.nfds = n + 1)
    ⟨rfl, rfl⟩ n ?_
  rintro k s hk hs ⟨hphase, hnfds⟩
  obtain ⟨t, ht, htphase, htnfds⟩ := exists_one_more others ssl hsock hs hphase (by omega)
  exact ⟨t, ht, htphase, by omega⟩

/-- **A client that finds the table full is lost**: it is open, and not tracked. -/
theorem exists_untracked (hsock : 0 ≤ sock_server) :
    ∃ s, Reach step (Fresh (insert sock_server others)) (init sock_server ssl) s ∧
      s.phase ≠ .exited ∧ ¬ Tracked s := by
  have hroom : 99 < maxConnection := by decide
  obtain ⟨s, hs, hphase, hnfds⟩ := exists_full others ssl hsock hroom
  obtain ⟨hinv, hconst⟩ := TableInv.of_reach hs (ne_exited_of_polling hphase)
  obtain ⟨t, ht, htphase, htnfds, haccept⟩ :=
    exists_at_listener hphase hinv (by rw [hconst]; exact hsock)
  have hreach := hs.trans ht
  obtain ⟨htinv, -⟩ := TableInv.of_reach hreach (ne_exited_of_scan htphase)
  obtain ⟨d, hd, hfresh⟩ := exists_fresh 0 (openFds (insert sock_server others) (fdHistory t.trace))
  obtain ⟨fresh, -, hnew⟩ := exists_fresh 0 (liveSsl t.trace)
  have hfull : t.nfds = maxConnection := htnfds.trans hnfds
  set u := acceptClient { t with phase := .scan (0 + 1) } d fresh 1 with hu
  obtain ⟨huslots, huhist⟩ : u.slots = t.slots ∧ fdHistory u.trace = .opened d :: fdHistory t.trace :=
    acceptClient_full (s := { t with phase := .scan (0 + 1) }) hd hfull fresh 1
  have huphase : u.phase = .scan (0 + 1) := by
    rw [hu, acceptClient, if_pos hd, if_neg (by show ¬ t.nfds < maxConnection; omega)]
    rfl
  have hok : Fresh (insert sock_server others) t (.accept d fresh 1) := ⟨fun _ => hfresh, hnew⟩
  refine ⟨u, hreach.trans (.single hok (haccept d fresh 1)), ne_exited_of_scan huphase, ?_⟩
  intro htracked
  have hopen : d ∈ openFds ∅ (fdHistory u.trace) := by
    rw [huhist]
    exact Finset.mem_insert_self d _
  have hmem := htracked d hopen
  rw [huslots] at hmem
  exact hfresh (htinv.isOpen d hmem)

end Full

end LinuxNet.Openssl.SslServer
