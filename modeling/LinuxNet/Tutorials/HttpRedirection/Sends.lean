/-
# LinuxNet.Tutorials.HttpRedirection.Sends — is the request sent once, and whole?

`send` may take a part of what it is offered. The loop of `perform_http_request` offers what is left, from the
byte behind the last one that was taken, and gives up when nothing is taken. So what the connection has taken
(`accepted`) is always the part of the request that is counted by `http_sent_bytes` (`sends_from`), and the
reply is waited for exactly when that is all of it (`request_sent_once`).
-/
import LinuxNet.Tutorials.HttpRedirection.Buffers

namespace LinuxNet.Tutorials.HttpRedirection

open LinuxNet.Lib LinuxNet.Posix

/-! ## What is taken -/

/-- What a call has handed over to the connection. -/
def Call.accepted : Call → Bytes
  | .send _ message sent_bytes => message.take sent_bytes.toNat
  | .getaddrinfo _ _ _ | .freeaddrinfo _ | .socket _ | .connect _ _ | .recv _ _ | .close _ => []

/-- What some calls have handed over, newest call first. -/
def accepted (calls : List Call) : Bytes := calls.reverse.flatMap Call.accepted

/-- The call is a `send` on this socket. -/
def Call.IsSend (http_sock : Int) : Call → Prop
  | .send sock _ _ => sock = http_sock
  | .getaddrinfo _ _ _ | .freeaddrinfo _ | .socket _ | .connect _ _ | .recv _ _ | .close _ => False

theorem accepted_append (calls before : List Call) :
    accepted (calls ++ before) = accepted before ++ accepted calls := by
  rw [accepted, List.reverse_append, List.flatMap_append]
  rfl

theorem accepted_send (http_sock : Int) (message : Bytes) (sent_bytes : Int) :
    accepted [.send http_sock message sent_bytes] = message.take sent_bytes.toNat :=
  List.append_nil _

/-- The part of a text from one index to another. -/
theorem take_append_drop_take (text : Bytes) {n m : ℕ} (k : ℕ) (hm : n + k ≤ m) :
    (text.drop n).take k ++ (text.drop (n + k)).take (m - (n + k)) = (text.drop n).take (m - n) := by
  have hsum : m - n = k + (m - (n + k)) := by omega
  rw [hsum, List.take_add, List.drop_drop]

/-! ## The loop -/

/-- **`Sent c n m sends s t`** — the calls `sends` have brought the loop from `http_sent_bytes = n` to
`http_sent_bytes = m`: they have handed over the bytes in between, and the loop goes on, has sent the whole
request, or has given up. -/
structure Sent (c : Connection) (n m : ℕ) (sends : List Call) (s t : State) : Prop where
  isSend : ∀ call ∈ sends, call.IsSend c.http_sock
  calls_le : n + sends.length ≤ c.httpRequest.length
  sent_le : m ≤ c.httpRequest.length
  accepted_eq : accepted sends = (c.httpRequest.drop n).take (m - n)
  outcome :
    t.phase = .sending c m ∧ m < c.httpRequest.length ∧ t.trace = sends ++ s.trace ∨
    t.phase = .receiving c [] ∧ m = c.httpRequest.length ∧ t.trace = sends ++ s.trace ∨
    t.phase = .returned .unknown ∧ m < c.httpRequest.length ∧
      t.trace = .close c.http_sock :: .freeaddrinfo c.http_addr :: (sends ++ s.trace)

/-- A loop that was left makes no more calls. -/
theorem results_of_left {s t : State} (hleft : ∀ k, step s (.send k) = none) {results : List Int}
    (h : Run step Allowed s (results.map .send) t) : results = [] ∧ t = s := by
  rcases results with _ | ⟨k, results⟩
  · cases h
    exact ⟨rfl, rfl⟩
  · rcases h with _ | ⟨-, hst, -⟩
    rw [hleft k] at hst
    cases hst

section Sent

variable {c : Connection} {n m : ℕ} {k : Int} {sends : List Call} {s u t : State}

/-- Before the first call. -/
theorem Sent.none (hphase : s.phase = .sending c n) (hn : n < c.httpRequest.length) : Sent c n n [] s s where
  isSend := List.forall_mem_nil _
  calls_le := hn.le
  sent_le := hn.le
  accepted_eq := by
    rw [Nat.sub_self, List.take_zero]
    rfl
  outcome := .inl ⟨hphase, hn, rfl⟩

/-- One more call in front: what it takes comes first. -/
theorem Sent.send (h : Sent c (n + k.toNat) m sends u t) (hpos : 0 < k) (hm : n + k.toNat ≤ m)
    (hu : u.trace = .send c.http_sock (c.httpRequest.drop n) k :: s.trace) :
    Sent c n m (sends ++ [.send c.http_sock (c.httpRequest.drop n) k]) s t where
  isSend := List.forall_mem_append.mpr ⟨h.isSend, List.forall_mem_singleton.mpr rfl⟩
  calls_le := by
    have hcalls := h.calls_le
    rw [List.length_append, List.length_singleton]
    omega
  sent_le := h.sent_le
  accepted_eq := by
    rw [accepted_append, accepted_send, h.accepted_eq, take_append_drop_take c.httpRequest k.toNat hm]
  outcome := by
    rw [List.append_assoc, List.singleton_append, ← hu]
    exact h.outcome

/-- The call that takes the rest. -/
theorem Sent.last (hn : n < c.httpRequest.length) (hall : n + k.toNat = c.httpRequest.length)
    (ht : t.phase = .receiving c [])
    (htrace : t.trace = .send c.http_sock (c.httpRequest.drop n) k :: s.trace) :
    Sent c n (n + k.toNat) [.send c.http_sock (c.httpRequest.drop n) k] s t where
  isSend := List.forall_mem_singleton.mpr rfl
  calls_le := hn
  sent_le := hall.le
  accepted_eq := by rw [accepted_send, Nat.add_sub_cancel_left]
  outcome := .inr (.inl ⟨ht, hall, htrace⟩)

/-- The call that takes nothing. -/
theorem Sent.failed (hn : n < c.httpRequest.length) (hfail : k ≤ 0) (ht : t.phase = .returned .unknown)
    (htrace : t.trace = [.close c.http_sock, .freeaddrinfo c.http_addr,
      .send c.http_sock (c.httpRequest.drop n) k] ++ s.trace) :
    Sent c n n [.send c.http_sock (c.httpRequest.drop n) k] s t where
  isSend := List.forall_mem_singleton.mpr rfl
  calls_le := hn
  sent_le := hn.le
  accepted_eq := by rw [accepted_send, Int.toNat_of_nonpos hfail, Nat.sub_self, List.take_zero]
  outcome := .inr (.inr ⟨ht, hn, htrace⟩)

/-- **The run of the loop**, from any place in it. -/
theorem sends_from {results : List Int} (hphase : s.phase = .sending c n) (hn : n < c.httpRequest.length)
    (h : Run step Allowed s (results.map .send) t) :
    ∃ sends, sends.length = results.length ∧ Sent c n (n + (results.map Int.toNat).sum) sends s t := by
  induction results generalizing s n with
  | nil =>
      cases h
      exact ⟨[], rfl, .none hphase hn⟩
  | cons k results ih =>
      rcases h with _ | ⟨hok, hst, hrest⟩
      simp only [Allowed, hphase, Phase.asked] at hok
      rw [List.map_cons, List.sum_cons]
      cases Step.of_step hst with
      | sendFails hphase' hfail =>
          rw [hphase] at hphase'
          cases hphase'
          obtain ⟨rfl, rfl⟩ := results_of_left (fun _ => rfl) hrest
          rw [Int.toNat_of_nonpos hfail]
          exact ⟨_, rfl, .failed hn hfail rfl rfl⟩
      | sends hphase' hpos hmore =>
          rw [hphase] at hphase'
          cases hphase'
          obtain ⟨sends, hlen, hsent⟩ := ih rfl hmore hrest
          rw [Nat.add_assoc] at hsent
          refine ⟨_, ?_, hsent.send hpos (by omega) rfl⟩
          rw [List.length_append, hlen]
          rfl
      | sendsLast hphase' hpos hall =>
          rw [hphase] at hphase'
          cases hphase'
          obtain ⟨rfl, rfl⟩ := results_of_left (fun _ => rfl) hrest
          exact ⟨_, rfl, .last hn (by omega) rfl rfl⟩

end Sent

/-! ## The request -/

/-- A request is never empty. -/
theorem httpRequest_pos (c : Connection) : 0 < c.httpRequest.length := by
  rw [Connection.httpRequest, length_requestText]
  omega

/-- **The request is sent once, and whole.** For every request and every sequence of results of `send`: the loop
makes at most as many calls as the request has bytes; the bytes the calls have taken, one after the other, are
the first `http_sent_bytes` bytes of the request; and the reply is waited for if and only if that is all of the
request. Otherwise the loop goes on, whatever the next call answers, or, after the first call that takes
nothing, `HTTP_UNKNOWN` is returned with the list freed and the socket closed. -/
theorem request_sent_once {c : Connection} {s t : State} (hphase : s.phase = .sending c 0) {results : List Int}
    (h : Run step Allowed s (results.map .send) t) :
    ∃ (sends : List Call) (http_sent_bytes : ℕ), sends.length = results.length ∧
      (∀ call ∈ sends, call.IsSend c.http_sock) ∧ results.length ≤ c.httpRequest.length ∧
      http_sent_bytes = (results.map Int.toNat).sum ∧
      accepted sends = c.httpRequest.take http_sent_bytes ∧
      (t.phase = .receiving c [] ↔ accepted sends = c.httpRequest) ∧
      (t.phase = .receiving c [] ∧ t.trace = sends ++ s.trace ∨
        t.phase = .sending c http_sent_bytes ∧ t.trace = sends ++ s.trace ∧
          (∀ k, ∃ u, step t (.send k) = some u) ∨
        t.phase = .returned .unknown ∧
          t.trace = .close c.http_sock :: .freeaddrinfo c.http_addr :: (sends ++ s.trace)) := by
  obtain ⟨sends, hlen, hsent⟩ := sends_from hphase (httpRequest_pos c) h
  rw [Nat.zero_add] at hsent
  have hcalls := hsent.calls_le
  rw [Nat.zero_add, hlen] at hcalls
  have haccepted : accepted sends = c.httpRequest.take (results.map Int.toNat).sum := hsent.accepted_eq
  -- a part of the request is not all of it
  have hpart : (results.map Int.toNat).sum < c.httpRequest.length → accepted sends ≠ c.httpRequest := by
    intro hless hwhole
    rw [haccepted] at hwhole
    have hshort := congrArg List.length hwhole
    rw [List.length_take_of_le hless.le] at hshort
    omega
  refine ⟨sends, _, hlen, hsent.isSend, hcalls, rfl, haccepted, ?_, ?_⟩
  · rcases hsent.outcome with ⟨ht, hless, -⟩ | ⟨ht, hall, -⟩ | ⟨ht, hless, -⟩
    · refine iff_of_false (fun hno => ?_) (hpart hless)
      rw [ht] at hno
      cases hno
    · refine iff_of_true ht ?_
      rw [haccepted, hall, List.take_length]
    · refine iff_of_false (fun hno => ?_) (hpart hless)
      rw [ht] at hno
      cases hno
  · rcases hsent.outcome with ⟨ht, -, htrace⟩ | ⟨ht, -, htrace⟩ | ⟨ht, -, htrace⟩
    · refine .inr (.inl ⟨ht, htrace, fun k => ⟨sendReturns t c (results.map Int.toNat).sum k, ?_⟩⟩)
      rw [step, ht]
    · exact .inl ⟨ht, htrace⟩
    · exact .inr (.inr ⟨ht, htrace⟩)

/-- The request for `/200` is about to be sent. -/
def atRequest : State := ⟨.sending firstConnection 0, none, []⟩

theorem request_sent_once_twoParts :
    ∃ t sends, Run step Allowed atRequest ([30, 29].map .send) t ∧ sends.length = 2 ∧
      accepted sends = firstConnection.httpRequest := by
  have hexec : (execOk step Allowed atRequest ([30, 29].map .send)).any
      (fun t => t.phase = .receiving firstConnection []) = true := by decide
  obtain ⟨t, hrun, ht⟩ := exists_run_of_exec_any hexec
  obtain ⟨sends, http_sent_bytes, hlen, -, -, -, -, hiff, -⟩ := request_sent_once rfl hrun
  exact ⟨t, sends, hrun, hlen, hiff.mp (of_decide_eq_true ht)⟩

end LinuxNet.Tutorials.HttpRedirection
