/-
# LinuxNet.Openssl.SslServer.Reading — is a client read that poll reports?

The scan passes over a client that was reported when another one is closed in the same round: the last client
is moved into the slot of that one, which is behind the scan then. So a client may have to wait for the next
round. But each time it is moved to a lower slot, and slot 0 is the listening socket: a client that `poll` keeps
reporting is read within as many rounds as its slot says (`read_in_time`). `Waiting` is a client that is not
read yet, with the rounds it can still lose.

Together with `healthy_run_iff` this is what a client can rely on: its request is read, and once it is read
it is answered, or the client is closed for a reason (`healthy_iff`).
-/
import LinuxNet.Openssl.SslServer.Records

namespace LinuxNet.Openssl.SslServer

open LinuxNet.Lib LinuxNet.Lib.FdLedger LinuxNet.Posix
open LinuxNet.Tutorials.PollServer (responseText)

/-- The loop calls `poll`. -/
def TlsEvent.isPoll : TlsEvent → Bool
  | .poll _ _ => true
  | .accept _ _ _ | .serve _ _ _ | .tau => false

/-- `poll` succeeds and reports the connection `fd`. -/
def Reports (fd : Int) (s : State) : TlsEvent → Prop
  | .poll activity revents =>
    0 < activity ∧ ∀ j, j < s.nfds → ∀ p ∈ s.fds.get? j, p.fd = fd → hasPollIn (revents j) = true
  | .accept _ _ _ | .serve _ _ _ | .tau => True

instance (fd : Int) (s : State) : (e : TlsEvent) → Decidable (Reports fd s e)
  | .poll activity revents =>
    inferInstanceAs (Decidable
      (0 < activity ∧ ∀ j, j < s.nfds → ∀ p ∈ s.fds.get? j, p.fd = fd → hasPollIn (revents j) = true))
  | .accept _ _ _ | .serve _ _ _ | .tau => isTrue trivial

/-- The client in slot `j`, its connection and its TLS object. -/
structure InSlot (fd : Int) (ssl : Ssl) (s : State) (j : ℕ) (p : PollFd) : Prop where
  pos : 0 < j
  lt : j < s.nfds
  get : s.fds.get? j = some p
  fd_eq : p.fd = fd
  ssl_eq : s.arr_ssl.get? j = some (some ssl)

/-- What slot `j` is worth, `k` rounds being allowed and `rounds` begun: before a `poll` all of them are over;
during a scan the client is ahead of it and will be read, or was passed over and this round is lost. -/
def Phase.Allows (k rounds j : ℕ) (p : PollFd) : Phase → Prop
  | .polling => j + rounds ≤ k
  | .scan i => i ≤ j ∧ p.readable = true ∧ j + rounds ≤ k + 1 ∨ j < i ∧ j + rounds ≤ k
  | .exited | .fault _ => False

/-- **A client that is not read yet.** -/
def Waiting (fd : Int) (ssl : Ssl) (k rounds : ℕ) (s : State) : Prop :=
  ∃ j p, InSlot fd ssl s j p ∧ s.phase.Allows k rounds j p

namespace Waiting

variable {base : Finset Int} {fd : Int} {ssl : Ssl} {k rounds : ℕ} {s t : State}

/-- The scan goes on behind a slot that is not that of the client, or not readable. -/
theorem next {i j : ℕ} {p p' : PollFd} (hslot : InSlot fd ssl t j p') (hphase : s.phase = .scan i)
    (hallows : s.phase.Allows k rounds j p) (hrevents : p'.revents = p.revents)
    (hother : i = j → p.readable = false) (ht : t.phase = .scan (i + 1)) : Waiting fd ssl k rounds t := by
  refine ⟨j, p', hslot, ?_⟩
  rw [hphase] at hallows
  rw [ht]
  have hreadable : p'.readable = p.readable := congrArg hasPollIn hrevents
  rcases hallows with ⟨hle, hr, hrounds⟩ | ⟨hlt, hrounds⟩
  · have hne : i ≠ j := by
      intro heq
      rw [hother heq] at hr
      cases hr
    exact .inl ⟨by omega, hreadable.trans hr, hrounds⟩
  · exact .inr ⟨by omega, hrounds⟩

theorem polls (hs : Waiting fd ssl k rounds s) (hfd : 0 < fd) (htable : TableInv base s)
    (hphase : s.phase = .polling) {activity : Int} {revents : ℕ → BitVec 16}
    (hreports : Reports fd s (.poll activity revents)) (trace : List Call) :
    Waiting fd ssl k (rounds + 1)
      { s with
        fds := s.fds.report maxConnection (pollRevents s.fds revents)
        phase := .scan 0
        trace := trace } := by
  obtain ⟨j, p, hslot, hallows⟩ := hs
  rw [hphase] at hallows
  have hrounds : j + rounds ≤ k := hallows
  have hle := htable.le
  have hlt := hslot.lt
  have hroom : j < maxConnection := by omega
  have hrevents : pollRevents s.fds revents j = revents j := by
    rw [pollRevents, hslot.get]
    have hneg : ¬ p.fd < 0 := by
      rw [hslot.fd_eq]
      omega
    simp [hneg]
  refine ⟨j, { p with revents := pollRevents s.fds revents j }, ⟨hslot.pos, hslot.lt, ?_, hslot.fd_eq,
    hslot.ssl_eq⟩, .inl ⟨Nat.zero_le _, ?_, by omega⟩⟩
  · rw [PollArray.get?_report, hslot.get, Option.map_some, if_pos hroom]
  · show hasPollIn (pollRevents s.fds revents j) = true
    rw [hrevents]
    exact hreports.2 j hslot.lt p hslot.get hslot.fd_eq

/-- Another client is closed: this one stays in its slot, or is moved to a lower one, behind the scan. -/
theorem refill (hs : Waiting fd ssl k rounds s) {i : ℕ} {q : PollFd} {lastSsl : Option Ssl}
    (hphase : s.phase = .scan i) (hpos : 0 < i) (hlt : i < s.nfds)
    (hq : s.fds.get? (s.nfds - 1) = some q) (hlast : s.arr_ssl.get? (s.nfds - 1) = some lastSsl)
    (hother : ∀ j p, InSlot fd ssl s j p → i ≠ j) (calls : List Call) (hle : s.nfds ≤ maxConnection) :
    Waiting fd ssl k rounds (s.refill i q.fd lastSsl calls) := by
  obtain ⟨j, p, hslot, hallows⟩ := hs
  have hne := hother j p hslot
  have hlt' := hslot.lt
  by_cases hlastSlot : j = s.nfds - 1
  · -- the client was in the last slot, and the scan is behind its new one
    obtain ⟨p', hp'⟩ := s.fds.exists_get? (i := i) (by omega)
    rw [hlastSlot] at hne
    have hget : (s.refill i q.fd lastSsl calls).fds.get? i = some { p' with fd := q.fd } := by
      show ((s.fds.modify i _).modify (s.nfds - 1) _).get? i = _
      rw [PollArray.get?_modify_ne _ _ (Ne.symm hne), PollArray.get?_modify_self, hp', Option.map_some]
    have hssl : (s.refill i q.fd lastSsl calls).arr_ssl.get? i = some lastSsl := by
      show ((s.arr_ssl.set i lastSsl).set (s.nfds - 1) none).get? i = _
      rw [SlotArray.get?_set_ne _ (Ne.symm hne), SlotArray.get?_set_self _ (by omega)]
    have hsame : q = p := by
      have hget := hslot.get
      rw [hlastSlot, hq] at hget
      exact Option.some.inj hget
    have hobject : lastSsl = some ssl := by
      have hobject := hslot.ssl_eq
      rw [hlastSlot, hlast] at hobject
      exact Option.some.inj hobject
    refine ⟨i, { p' with fd := q.fd }, ⟨hpos, ?_, hget, ?_, hssl.trans (congrArg some hobject)⟩, ?_⟩
    · show i < s.nfds - 1
      omega
    · rw [hsame]
      exact hslot.fd_eq
    · rw [hphase] at hallows
      refine .inr ⟨Nat.lt_succ_self i, ?_⟩
      rcases hallows with ⟨-, -, hrounds⟩ | ⟨hbehind, -⟩
      · omega
      · omega
  · have hget : (s.refill i q.fd lastSsl calls).fds.get? j = some p := by
      show ((s.fds.modify i _).modify (s.nfds - 1) _).get? j = _
      rw [PollArray.get?_modify_ne _ _ (Ne.symm hlastSlot), PollArray.get?_modify_ne _ _ hne]
      exact hslot.get
    have hssl : (s.refill i q.fd lastSsl calls).arr_ssl.get? j = some (some ssl) := by
      show ((s.arr_ssl.set i lastSsl).set (s.nfds - 1) none).get? j = _
      rw [SlotArray.get?_set_ne _ (Ne.symm hlastSlot), SlotArray.get?_set_ne _ hne]
      exact hslot.ssl_eq
    refine next (s := s) (i := i) ⟨hslot.pos, ?_, hget, hslot.fd_eq, hssl⟩ hphase hallows rfl
      (fun heq => absurd heq hne) rfl
    show j < s.nfds - 1
    omega

/-- **The step lemma**: the client goes on waiting, or is read. -/
theorem of_step {e : TlsEvent} (hs : Waiting fd ssl k rounds s) (hfd : 0 < fd) (htable : TableInv base s)
    (hreports : Reports fd s e) (h : tlsStep s e = some t) :
    Waiting fd ssl k (rounds + if e.isPoll then 1 else 0) t ∨ .sslRead ssl ∈ newCalls s t := by
  have hle := htable.le
  have hstep := Step.of_step htable.inRange h
  rcases e with ⟨activity, revents⟩ | ⟨sock_client, ssl', rc⟩ | ⟨incoming, time, sent_bytes⟩ | _
  · rcases hstep with ⟨-, hact⟩ | ⟨hphase, -⟩
    · have hact' := hreports.1
      omega
    · exact .inl (hs.polls hfd htable hphase hreports _)
  · -- the listening socket is in slot 0
    obtain ⟨j, p, hslot, hallows⟩ := hs
    have hlt' := hslot.lt
    have hlistener {i : ℕ} {p' : PollFd} (hlt : i < s.nfds) (hp' : s.fds.get? i = some p')
        (hsock : p'.fd = s.sock_server) : i ≠ j := by
      have hzero := htable.index_eq_zero hlt hp' hsock
      have hpos := hslot.pos
      omega
    left
    rcases hstep with _ | _ | ⟨hphase, hlt, hp, -, hsock, -⟩ | ⟨hphase, hlt, hp, -, hsock, -, hroom, -⟩ |
      ⟨hphase, hlt, hp, -, hsock, -, hroom, -⟩
    · exact next (s := s) ⟨hslot.pos, hslot.lt, hslot.get, hslot.fd_eq, hslot.ssl_eq⟩ hphase hallows rfl
        (fun heq => absurd heq (hlistener hlt hp hsock)) rfl
    · refine next (s := s) ⟨hslot.pos, hslot.lt, ?_, hslot.fd_eq, ?_⟩ hphase hallows rfl
        (fun heq => absurd heq (hlistener hlt hp hsock)) rfl
      · show ((s.fds.modify s.nfds _).modify s.nfds _).get? j = some p
        rw [PollArray.get?_modify_ne _ _ (by omega), PollArray.get?_modify_ne _ _ (by omega)]
        exact hslot.get
      · show ((s.arr_ssl.set s.nfds (some ssl')).set s.nfds none).get? j = some (some ssl)
        rw [SlotArray.get?_set_ne _ (by omega), SlotArray.get?_set_ne _ (by omega)]
        exact hslot.ssl_eq
    · refine next (s := s) ⟨hslot.pos, Nat.lt_succ_of_lt hlt', ?_, hslot.fd_eq, ?_⟩ hphase hallows rfl
        (fun heq => absurd heq (hlistener hlt hp hsock)) rfl
      · show (s.fds.modify s.nfds _).get? j = some p
        rw [PollArray.get?_modify_ne _ _ (by omega)]
        exact hslot.get
      · show (s.arr_ssl.set s.nfds (some ssl')).get? j = some (some ssl)
        rw [SlotArray.get?_set_ne _ (by omega)]
        exact hslot.ssl_eq
  · -- in the slot of the client it is the client that is read
    have hread {i : ℕ} {ssl' : Ssl} (hssl : s.arr_ssl.get? i = some (some ssl')) {j : ℕ} {p : PollFd}
        (hslot : InSlot fd ssl s j p) (heq : i = j) : ssl' = ssl := by
      rw [heq, hslot.ssl_eq] at hssl
      cases hssl
      rfl
    rcases hstep with _ | _ | _ | _ | _ | @⟨i, p', ssl', _, _, _, hphase, hlt, hp, -, hsock, hssl, -⟩ |
      @⟨i, p', q, ssl', lastSsl, _, _, _, hphase, hlt, hp, -, hsock, hssl, -, hq, hlast⟩
    · obtain ⟨j, p, hslot, hallows⟩ := hs
      by_cases heq : i = j
      · right
        rw [newCalls_eq [_, _] rfl, hread hssl hslot heq]
        simp
      · left
        exact next (s := s) ⟨hslot.pos, hslot.lt, hslot.get, hslot.fd_eq, hslot.ssl_eq⟩ hphase hallows rfl
          (fun h => absurd h heq) rfl
    · by_cases heq : ∃ p, InSlot fd ssl s i p
      · obtain ⟨p, hslot⟩ := heq
        right
        rw [newCalls_eq [_, _, _] rfl, hread hssl hslot rfl]
        simp
      · left
        have hpos : 0 < i := by
          rcases Nat.eq_zero_or_pos i with rfl | hpos
          · obtain ⟨p₀, hp₀, hfd₀⟩ := htable.get?_zero
            rw [hp] at hp₀
            cases hp₀
            exact absurd hfd₀ hsock
          · exact hpos
        refine hs.refill hphase hpos hlt hq hlast ?_ _ hle
        rintro j p hslot rfl
        exact heq ⟨p, hslot⟩
  · obtain ⟨j, p, hslot, hallows⟩ := hs
    left
    rcases hstep with _ | _ | _ | _ | _ | _ | _ | @⟨i, p', hphase, hlt, hp, hr⟩ | @⟨i, hphase, hend⟩
    · refine next (s := s) ⟨hslot.pos, hslot.lt, hslot.get, hslot.fd_eq, hslot.ssl_eq⟩ hphase hallows rfl
        ?_ rfl
      rintro rfl
      have hget := hslot.get
      rw [hp] at hget
      cases hget
      exact hr
    · refine ⟨j, p, ⟨hslot.pos, hslot.lt, hslot.get, hslot.fd_eq, hslot.ssl_eq⟩, ?_⟩
      rw [hphase] at hallows
      have hlt := hslot.lt
      show j + rounds ≤ k
      rcases hallows with ⟨hle', -, -⟩ | ⟨-, hrounds⟩
      · omega
      · exact hrounds

end Waiting

/-! ## The run -/

/-- A step adds its calls to the trace. -/
theorem exists_calls_of_step {base : Finset Int} {s t : State} {e : TlsEvent} (hs : TableInv base s)
    (h : tlsStep s e = some t) : ∃ calls, t.trace = calls ++ s.trace := by
  have hstep := Step.of_step hs.inRange h
  generalize e.answer = answer at hstep
  cases hstep with
  | pollFails =>
      refine ⟨((s.fds.cells.zip s.arr_ssl.cells).flatMap shutdownCalls).reverse ++ [.close s.sock_server], ?_⟩
      rw [List.append_assoc]
      rfl
  | polls => exact ⟨[_], rfl⟩
  | turnsAway => exact ⟨[_], rfl⟩
  | skips | endRound => exact ⟨[], rfl⟩
  | handshakeFails | stores | keeps | drops => exact ⟨_, rfl⟩

/-- What is assumed while a client waits: `poll` reports it until it is read. -/
def KeepsReporting (base : Finset Int) (fd : Int) (ssl : Ssl) (s u : State) (e : TlsEvent) : Prop :=
  FreshTls base u e ∧ (.sslRead ssl ∉ newCalls s u → Reports fd u e)

instance (base : Finset Int) (fd : Int) (ssl : Ssl) (s u : State) (e : TlsEvent) :
    Decidable (KeepsReporting base fd ssl s u e) :=
  inferInstanceAs (Decidable (FreshTls base u e ∧ (.sslRead ssl ∉ newCalls s u → Reports fd u e)))

/-- **Clients are read in time**: if, from this state before a `poll` on, `poll` reports the client in slot `k`
until it is read, then it is read within `k` rounds. -/
def ReadInTime (base : Finset Int) (s : State) : Prop :=
  ∀ k p ssl, s.phase = .polling → 0 < k → k < s.nfds → s.fds.get? k = some p →
    s.arr_ssl.get? k = some (some ssl) →
      ∀ es t, Run tlsStep (KeepsReporting base p.fd ssl s) s es t → t.phase = .polling →
        k ≤ es.countP TlsEvent.isPoll → .sslRead ssl ∈ newCalls s t

/-- **A client that `poll` keeps reporting is read**, from every state of every run. -/
theorem read_in_time {others : Finset Int} {sock_server : Int} {s : State} (hs : Accounted sock_server s) :
    ReadInTime (insert sock_server others) s := by
  intro k p ssl hphase hpos hlt hp hssl es t h htphase hrounds
  obtain ⟨hledger, rfl⟩ : LedgerInv s ∧ s.sock_server = sock_server := by
    rcases hs with hexit | hs
    · rw [hphase] at hexit
      cases hexit
    · exact hs
  have hfd : 0 < p.fd := by
    refine (hledger.positive p.fd (PollArray.mem_slots.mpr ⟨k, p, hlt, hp, rfl⟩)).resolve_left fun hsock => ?_
    have hzero := hledger.table.index_eq_zero hlt hp hsock
    omega
  have hwait : Waiting p.fd ssl k 0 s := by
    refine ⟨k, p, ⟨hpos, hlt, hp, rfl, hssl⟩, ?_⟩
    rw [hphase]
    exact Nat.le_refl k
  obtain ⟨-, -, hread | ⟨j, q, hslot, hallows⟩⟩ : Accounted s.sock_server t ∧
      (∃ calls, t.trace = calls ++ s.trace) ∧
        (.sslRead ssl ∈ newCalls s t ∨ Waiting p.fd ssl k (es.countP TlsEvent.isPoll) t) := by
    refine h.invariant_events (I := fun es u => Accounted s.sock_server u ∧
      (∃ calls, u.trace = calls ++ s.trace) ∧
        (.sslRead ssl ∈ newCalls s u ∨ Waiting p.fd ssl k (es.countP TlsEvent.isPoll) u))
      ?_ ⟨.inr ⟨hledger, rfl⟩, ⟨[], rfl⟩, .inr hwait⟩
    rintro es u e v ⟨hu, ⟨calls, hcalls⟩, hclient⟩ ⟨hfresh, hreports⟩ hstep
    have htable : ∃ base, TableInv base u := by
      rcases hu with hexit | ⟨hu, -⟩
      · simp [tlsStep, step, hexit] at hstep
      · exact ⟨_, hu.table⟩
    obtain ⟨base, htable⟩ := htable
    obtain ⟨made, hmade⟩ := exists_calls_of_step htable hstep
    have hall : v.trace = (made ++ calls) ++ s.trace := by
      rw [hmade, hcalls, List.append_assoc]
    refine ⟨hu.of_step hfresh hstep, ⟨made ++ calls, hall⟩, ?_⟩
    rw [newCalls_eq _ hcalls] at hclient hreports
    rw [newCalls_eq _ hall, List.countP_append, List.countP_singleton]
    by_cases hread : .sslRead ssl ∈ calls
    · exact .inl (List.mem_append_right made hread)
    · rcases (hclient.resolve_left hread).of_step hfd htable (hreports hread) hstep with hwaits | hnow
      · exact .inr hwaits
      · rw [newCalls_eq made hmade] at hnow
        exact .inl (List.mem_append_left calls hnow)
  · exact hread
  · rw [htphase] at hallows
    have hmore : j + es.countP TlsEvent.isPoll ≤ k := hallows
    have hclient := hslot.pos
    omega

/-- The clients 4 and 5 come. -/
def twoClients : List TlsEvent :=
  [.poll 1 fun i => if i = 0 then pollIn else 0, .accept 4 104 1, .tau, .tau,
    .poll 1 fun i => if i = 0 then pollIn else 0, .accept 5 105 1, .tau, .tau, .tau]

/-- Both are reported; 4 quits, so 5 gets its slot and is passed over; 5 is reported again, and read. -/
def readsSecond : List TlsEvent :=
  [.poll 2 fun i => if i = 0 then 0 else pollIn, .tau, .serve (.record (ofText "quit") 26 26) 1000 17, .tau,
    .poll 1 fun i => if i = 1 then pollIn else 0, .tau, .serve (.record (ofText "time") 26 26) 1000 17, .tau]

/-- Client 4 comes, and the first 10 bytes of its request are there when the loop reads it. -/
def twoSegments : List TlsEvent :=
  [.poll 1 fun i => if i = 0 then pollIn else 0, .accept 4 104 1, .tau, .tau,
    .poll 1 fun i => if i = 1 then pollIn else 0, .tau, .serve (.record (ofText "time") 26 10) 1000 17]

end LinuxNet.Openssl.SslServer
