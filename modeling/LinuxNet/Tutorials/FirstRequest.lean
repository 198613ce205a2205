/-
# LinuxNet.Tutorials.FirstRequest — `main` of `05_send_first_http_request.c`

Behind `connect` the program sends one request. Its loop counts what `send` takes, but it offers the whole
request again each time, from its first byte; and what it tests is `rc`, the answer of `connect`, not that of
`send`. So the loop does what it is for only if the first call takes everything (`sends_once_iff`): a failed
call is followed by another one, and a call that takes a part is followed by the start of the request.

The answers of `send` are an infinite sequence, of which a run takes as many as it asks for.
-/
import Mathlib.Data.Stream.Init
import LinuxNet.Lib.Bytes
import LinuxNet.Lib.Machine

namespace LinuxNet.Tutorials.FirstRequest

open LinuxNet.Lib

/-- `CPP_HOSTNAME`. -/
def cppHostname : Bytes := ofText "httpstat.us"

/-- `request`. -/
def request : Bytes :=
  ofText "GET / HTTP/1.1\r\nHost: " ++ cppHostname ++ ofText "\r\nConnection: close\r\n\r\n"

/-- Where the program is. -/
inductive Phase where
  | sending
  | returned (code : Int)
  deriving DecidableEq, Repr

/-- The local variables of the loop. -/
structure State where
  phase : Phase
  rc : Int
  sent_bytes : Int
  deriving DecidableEq, Repr

/-- `while (sent_bytes < request_len)`; behind the loop the socket is closed, and `main` returns 0. -/
def State.loop (s : State) : State :=
  if s.sent_bytes < request.length then { s with phase := .sending } else { s with phase := .returned 0 }

/-- Behind `rc = connect(…)`. -/
def connectReturns (rc : Int) : State :=
  if rc ≠ 0 then ⟨.returned (-1), rc, 0⟩ else (State.mk .sending rc 0).loop

/-- **One call of `send`**, which is offered the whole request, and what follows it. -/
def step (s : State) (sent : Int) : Option State :=
  match s.phase with
  | .sending =>
    if s.rc < 0 then some { s with phase := .returned (-1) }
    else some { s with sent_bytes := s.sent_bytes + sent }.loop
  | .returned _ => none

/-- What a call of `send` takes. -/
def accepted (_ : State) (sent : Int) (_ : State) : Bytes := request.take sent.toNat

/-- What `send` can answer: it fails, or it takes some of the request. -/
def Answer (sent : Int) : Prop := sent < 0 ∨ 1 ≤ sent ∧ sent ≤ request.length

/-- The program is connected. -/
def start : State := connectReturns 0

/-- **What the loop is for**: there is no call behind one that failed, and when the program ends normally the
connection has taken the request. -/
def SendsOnce (results : Stream' Int) : Prop :=
  ∀ n t, Run step (fun _ sent => Answer sent) start (results.take n) t →
    (∀ i < n, results.get i < 0 → i + 1 = n) ∧
      (t.phase = .returned 0 → observations step accepted start (results.take n) = request)

/-! ## The steps -/

section Steps

variable {s : State} {sent : Int}

theorem start_eq : start = ⟨.sending, 0, 0⟩ := by decide

/-- As `connect` has not failed, the loop goes on until it has counted as many bytes as the request has. -/
theorem step_sending (hphase : s.phase = .sending) (hrc : s.rc = 0) :
    step s sent = some { s with sent_bytes := s.sent_bytes + sent }.loop := by
  rw [step, hphase]
  exact if_neg (by omega)

theorem step_more (hphase : s.phase = .sending) (hrc : s.rc = 0)
    (hmore : s.sent_bytes + sent < request.length) :
    step s sent = some ⟨.sending, 0, s.sent_bytes + sent⟩ := by
  rw [step_sending hphase hrc, State.loop, if_pos hmore, ← hrc]

theorem step_last (hphase : s.phase = .sending) (hrc : s.rc = 0)
    (hall : request.length ≤ s.sent_bytes + sent) :
    step s sent = some ⟨.returned 0, 0, s.sent_bytes + sent⟩ := by
  rw [step_sending hphase hrc, State.loop, if_neg (Int.not_lt.mpr hall), ← hrc]

end Steps

/-- The request has no second `G`. -/
theorem request_eq : ∃ rest, request = 71 :: rest ∧ (71 : UInt8) ∉ rest :=
  ⟨request.tail, by decide, by decide⟩

/-! ## The run -/

/-- **Every sequence of answers goes wrong or comes to an end**: some call fails and another one follows, or the
calls take something each until the program returns. -/
theorem exists_run {results : Stream' Int} (hresults : ∀ i, Answer (results.get i)) {s : State}
    (hphase : s.phase = .sending) (hrc : s.rc = 0) (hfew : s.sent_bytes < request.length) :
    ∃ n t, Run step (fun _ sent => Answer sent) s (results.take n) t ∧
      ((∃ i, i + 1 < n ∧ results.get i < 0) ∨
        t.phase = .returned 0 ∧ ∀ i < n, 0 < results.get i) := by
  -- a call that takes something leaves less to be counted
  induction hleft : (request.length - s.sent_bytes).toNat using Nat.strong_induction_on
    generalizing s results with
  | _ left ih =>
      have hhead : Answer results.head := hresults 0
      rcases hhead with hfail | ⟨hpos, hle⟩
      · have hless : s.sent_bytes + results.head < request.length := by omega
        have hstep := step_more hphase hrc hless
        obtain ⟨u, hu⟩ : ∃ u, step ⟨.sending, 0, s.sent_bytes + results.head⟩ results.tail.head = some u :=
          ⟨_, step_sending rfl rfl⟩
        exact ⟨2, u, .cons (.inl hfail) hstep (.cons (hresults 1) hu (.nil u)), .inl ⟨0, by omega, hfail⟩⟩
      · by_cases hmore : s.sent_bytes + results.head < request.length
        · have htail : ∀ i, Answer (results.tail.get i) := fun i => hresults (i + 1)
          have hsmaller : (request.length - (s.sent_bytes + results.head)).toNat < left := by omega
          obtain ⟨n, t, hrun, hend⟩ := ih _ hsmaller htail
            (s := ⟨.sending, 0, s.sent_bytes + results.head⟩) rfl rfl hmore rfl
          refine ⟨n + 1, t, .cons (.inr ⟨hpos, hle⟩) (step_more hphase hrc hmore) hrun, ?_⟩
          rcases hend with ⟨i, hi, hfail⟩ | ⟨ht, hall⟩
          · exact .inl ⟨i + 1, by omega, hfail⟩
          · refine .inr ⟨ht, fun i hi => ?_⟩
            rcases i with _ | i
            · exact hpos
            · exact hall i (by omega)
        · refine ⟨1, _, .cons (.inr ⟨hpos, hle⟩) (step_last hphase hrc (by omega)) (.nil _), .inr ⟨rfl, ?_⟩⟩
          intro i hi
          obtain rfl : i = 0 := by omega
          exact hpos

/-- A program that has returned makes no more calls. -/
theorem take_of_returned {results : Stream' Int} {n : ℕ} {s t : State} {code : Int}
    (hphase : s.phase = .returned code) (h : Run step (fun _ sent => Answer sent) s (results.take n) t) :
    n = 0 ∧ t = s := by
  rcases n with _ | n
  · cases h
    exact ⟨rfl, rfl⟩
  · rcases h with _ | ⟨-, hst, -⟩
    rw [step, hphase] at hst
    cases hst

/-- What a run from the start has handed over, with a second call. -/
theorem accepted_two {results : Stream' Int} (hmore : results.head < request.length) (n : ℕ) :
    ∃ rest, observations step accepted start (results.take (n + 2)) =
      request.take results.head.toNat ++ (request.take results.tail.head.toNat ++ rest) := by
  have hfirst : step start results.head = some ⟨.sending, 0, 0 + results.head⟩ := by
    have hless : (0 : Int) + results.head < request.length := by omega
    rw [start_eq]
    exact step_more rfl rfl hless
  obtain ⟨u, hu⟩ : ∃ u, step ⟨.sending, 0, 0 + results.head⟩ results.tail.head = some u :=
    ⟨_, step_sending rfl rfl⟩
  refine ⟨observations step accepted u (results.tail.tail.take n), ?_⟩
  rw [Stream'.take_succ, Stream'.take_succ, observations_cons hfirst, observations_cons hu]
  rfl

/-- Behind a part of the request, its start is not what comes next. -/
theorem request_ne_append {k j : ℕ} (hk : 0 < k) (hless : k ≤ request.length) (hj : 0 < j) (rest : Bytes) :
    request.take k ++ (request.take j ++ rest) ≠ request := by
  intro heq
  have hnext : request.take j ++ rest = request.drop k := by
    have hlen : (request.take k).length = k := List.length_take_of_le hless
    have hdrop := congrArg (List.drop k) heq
    rw [List.drop_left' hlen] at hdrop
    exact hdrop
  obtain ⟨tail, hrequest, htail⟩ := request_eq
  obtain ⟨k, rfl⟩ := Nat.exists_eq_succ_of_ne_zero hk.ne'
  obtain ⟨j, rfl⟩ := Nat.exists_eq_succ_of_ne_zero hj.ne'
  rw [hrequest, List.take_succ_cons, List.drop_succ_cons] at hnext
  have hsecond : (71 : UInt8) ∈ tail.drop k := by
    rw [← hnext]
    exact List.mem_cons_self
  exact htail (List.mem_of_mem_drop hsecond)

/-- A program that ends normally after a first call that took only a part has not sent the request alone. -/
theorem accepted_ne_request {results : Stream' Int} (hmore : results.head < request.length) {n : ℕ} {t : State}
    (hrun : Run step (fun _ sent => Answer sent) start (results.take n) t) (ht : t.phase = .returned 0)
    (hall : ∀ i < n, 0 < results.get i) : observations step accepted start (results.take n) ≠ request := by
  rcases n with _ | _ | n
  · cases hrun
    rw [start_eq] at ht
    cases ht
  · -- the first call has not taken everything, so there is a second one
    rcases hrun with _ | ⟨-, hst, hrest⟩
    cases hrest
    have hless : (0 : Int) + results.head < request.length := by omega
    rw [start_eq, step_more rfl rfl hless] at hst
    cases hst
    cases ht
  · have hfirst : 0 < results.head := hall 0 (by omega)
    have hsecond : 0 < results.tail.head := hall 1 (by omega)
    obtain ⟨rest, haccepted⟩ := accepted_two hmore n
    rw [haccepted]
    exact request_ne_append (by omega) (by omega) (by omega) rest

/-- A first call that takes everything is the last one. -/
theorem sendsOnce_of_whole {results : Stream' Int} (hall : results.head = request.length) :
    SendsOnce results := by
  intro n t hrun
  rcases n with _ | n
  · cases hrun
    refine ⟨fun i hi => absurd hi (Nat.not_lt_zero i), fun ht => ?_⟩
    rw [start_eq] at ht
    cases ht
  · have hlast : request.length ≤ (0 : Int) + results.head := by omega
    have hfirst : step start results.head = some ⟨.returned 0, 0, 0 + results.head⟩ := by
      rw [start_eq]
      exact step_last rfl rfl hlast
    obtain ⟨-, hrest⟩ := hrun.of_cons hfirst
    obtain ⟨rfl, rfl⟩ := take_of_returned rfl hrest
    refine ⟨fun i hi _ => by omega, fun _ => ?_⟩
    rw [Stream'.take_succ, observations_cons hfirst, accepted, hall, Int.toNat_natCast, List.take_length]
    exact List.append_nil _

/-- **When the request is sent once.** For every sequence of answers of `send`: no call follows a failed one,
and the program ends normally only when the connection has taken the request, if and only if the first call
takes all of it. -/
theorem sends_once_iff {results : Stream' Int} (hresults : ∀ i, Answer (results.get i)) :
    SendsOnce results ↔ results.head = request.length := by
  refine ⟨fun hsends => ?_, sendsOnce_of_whole⟩
  by_contra hne
  have hmore : results.head < request.length := by
    have hhead : Answer results.head := hresults 0
    rcases hhead with hfail | ⟨-, hle⟩
    · omega
    · omega
  have hphase : start.phase = .sending ∧ start.rc = 0 ∧ start.sent_bytes < request.length := by decide
  obtain ⟨n, t, hrun, hend⟩ := exists_run hresults hphase.1 hphase.2.1 hphase.2.2
  obtain ⟨hfailed, hwhole⟩ := hsends n t hrun
  rcases hend with ⟨i, hi, hfail⟩ | ⟨ht, hall⟩
  · have hlast := hfailed i (by omega) hfail
    omega
  · exact accepted_ne_request hmore hrun ht hall (hwhole ht)

theorem answer_whole : Answer request.length := .inr ⟨by decide, le_rfl⟩

/-- Each call takes everything. -/
def wholes : Stream' Int := Stream'.const request.length

theorem sends_once_iff_wholes : SendsOnce wholes :=
  (sends_once_iff fun _ => answer_whole).mpr rfl

/-- The first call takes ten bytes. -/
def tenFirst : Stream' Int := Stream'.cons 10 wholes

theorem answer_tenFirst : ∀ i, Answer (tenFirst.get i) := by
  rintro (_ | i)
  · exact .inr ⟨by decide, by decide⟩
  · exact answer_whole

/-- **After ten bytes the request begins again.** -/
theorem request_repeated :
    ¬ ∀ results : Stream' Int, (∀ i, Answer (results.get i)) → SendsOnce results := by
  intro hall
  have hfirst : step start 10 = some ⟨.sending, 0, 10⟩ := by decide
  have hsecond : step ⟨.sending, 0, 10⟩ request.length = some ⟨.returned 0, 0, 66⟩ := by decide
  have hrun : Run step (fun _ sent => Answer sent) start (tenFirst.take 2) ⟨.returned 0, 0, 66⟩ :=
    .cons (answer_tenFirst 0) hfirst (.cons answer_whole hsecond (.nil _))
  obtain ⟨-, hwhole⟩ := hall tenFirst answer_tenFirst 2 _ hrun
  have hmore : tenFirst.head < request.length := by decide
  obtain ⟨rest, haccepted⟩ := accepted_two hmore 0
  rw [hwhole rfl] at haccepted
  exact request_ne_append (by decide) (by decide) (by decide) rest haccepted.symm

end LinuxNet.Tutorials.FirstRequest
