/-
# LinuxNet.ReceiveLoops — does it matter in which pieces a reply arrives?

Three clients receive a whole reply into an array: `main` of `06_receive_http_response.c`,
`perform_http_request` of `07_http_redirection.c` and `perform_https_request` of `https_client.c`. Their loops
are written in three ways (`while (1 == 1)` with a `break`, `while` with the call in its condition, and
`do … while`), and each of them does the same: it asks for what there is still room for, puts it behind what it
has, and ends when nothing comes. The arrays differ, and the last program puts a NUL behind the reply.

So one machine with the numbers of a program (`ReceiveLoop`) stands for the three. What it holds is always the
part of the stream that it has counted (`Collected`), and the numbers decide where it ends
(`receive_loops_collect`). The machine of `perform_http_request` goes through its loop in the same steps
(`receives_of_step`).
-/
import LinuxNet.Tutorials.HttpRedirection.Messages

namespace LinuxNet.ReceiveLoops

open LinuxNet.Lib LinuxNet.Posix LinuxNet.Tutorials

/-! ## The loops -/

/-- What a loop works with. -/
structure ReceiveLoop where
  /-- the size of `http_response` -/
  size : ℕ
  /-- how many bytes of it are zeroed before the loop -/
  zeroed : ℕ
  /-- how many bytes are received at most -/
  capacity : ℕ
  /-- what is put behind the reply -/
  terminator : Bytes
  room : capacity + terminator.length ≤ size

/-- The program a loop is in. -/
inductive Program where
  | receiveHttpResponse
  | performHttpRequest
  | performHttpsRequest
  deriving DecidableEq, Repr

/-- `RESPONSE_SIZE`. -/
def responseSize : ℕ := 4096

/-- Its loop. -/
def Program.loop : Program → ReceiveLoop
  | .receiveHttpResponse => ⟨1024, 1024, 1024, [], le_rfl⟩
  | .performHttpRequest =>
    ⟨HttpRedirection.messageSize, HttpRedirection.messageSize, HttpRedirection.messageSize, [], le_rfl⟩
  -- the last byte of the array is not zeroed, and the NUL gets there when the reply is as long as it may be
  | .performHttpsRequest => ⟨responseSize + 1, responseSize, responseSize, [0], le_rfl⟩

/-- The array, the counter, and whether the loop has been left. -/
structure State where
  http_response : Bytes
  received_bytes : ℕ
  ended : Bool
  deriving DecidableEq, Repr

variable (l : ReceiveLoop)

/-- The array after `memset`; `before` was in it. -/
def ReceiveLoop.cleared (before : Bytes) : Bytes := store before 0 (List.replicate l.zeroed 0)

/-- Before the first call. -/
def ReceiveLoop.start (before : Bytes) : State := ⟨l.cleared before, 0, false⟩

/-- How many bytes the next call asks for. -/
def ReceiveLoop.asked (s : State) : ℕ := l.capacity - s.received_bytes

/-- One call of `recv` or `SSL_read`, and what follows it. -/
def ReceiveLoop.step (s : State) (received : Received) : Option State :=
  if s.ended then none
  else if received.received ≤ 0 then
    some { s with http_response := store s.http_response s.received_bytes l.terminator, ended := true }
  else
    some { s with
      http_response := store s.http_response s.received_bytes received.bytes
      received_bytes := s.received_bytes + received.bytes.length }

/-- The bytes of the array that are written. -/
def ReceiveLoop.written (s : State) (received : Received) (_ : State) : List Access :=
  if received.received ≤ 0 then [.write s.received_bytes l.terminator.length]
  else [.write s.received_bytes received.bytes.length]

/-- The assumption on the connection: it delivers `stream`, in any pieces. -/
def ReceiveLoop.Streams (stream : Bytes) (s : State) (received : Received) : Prop :=
  Delivers (stream.drop s.received_bytes) (l.asked s) received

/-! ## What is in the array -/

/-- The first `n` bytes of the stream, and what the array had behind them. -/
def ReceiveLoop.held (before stream : Bytes) (n : ℕ) : Bytes := stream.take n ++ (l.cleared before).drop n

/-- What is received is put behind what is there. -/
theorem ReceiveLoop.store_held {before stream : Bytes} {n : ℕ} (hn : n ≤ stream.length) (bytes : Bytes) :
    store (l.held before stream n) n bytes =
      stream.take n ++ bytes ++ (l.cleared before).drop (n + bytes.length) := by
  have hlen : (stream.take n).length = n := List.length_take_of_le hn
  have hstore := store_append_drop (stream.take n) (l.cleared before) bytes
  rw [List.length_append, hlen] at hstore
  exact hstore

/-- The array and the counter when the loop has been left. -/
def ReceiveLoop.final (before stream : Bytes) : State :=
  let n := min stream.length l.capacity
  ⟨stream.take n ++ l.terminator ++ (l.cleared before).drop (n + l.terminator.length), n, true⟩

/-- **The invariant**: the array holds what has been counted, until it is final. -/
def Collected (before stream : Bytes) (s : State) : Prop :=
  if s.ended then s = l.final before stream
  else s.received_bytes ≤ min stream.length l.capacity ∧
    s.http_response = l.held before stream s.received_bytes

/-- How many calls are left, at most. -/
def ReceiveLoop.left (stream : Bytes) (s : State) : ℕ :=
  if s.ended then 0 else min stream.length l.capacity - s.received_bytes + 1

section Steps

variable {l} {before stream : Bytes} {s t : State} {received : Received}

theorem collected_running (hrunning : s.ended = false) :
    Collected l before stream s ↔ s.received_bytes ≤ min stream.length l.capacity ∧
      s.http_response = l.held before stream s.received_bytes := by
  rw [Collected, hrunning]
  exact Iff.rfl

/-- A step is made in a loop that has not been left. -/
theorem running_of_step (h : l.step s received = some t) : s.ended = false := by
  rw [ReceiveLoop.step] at h
  split at h
  · cases h
  next hrunning => exact Bool.not_eq_true _ ▸ hrunning

/-- **The step lemma**: what is counted is held, what is written stays in the array, and the loop comes nearer
to its end. -/
theorem collected_of_step (hs : Collected l before stream s) (hok : l.Streams stream s received)
    (h : l.step s received = some t) :
    Collected l before stream t ∧ l.left stream t < l.left stream s ∧
      ∀ a ∈ l.written s received t, a.Inside l.size := by
  have hrunning := running_of_step h
  obtain ⟨hn, hheld⟩ := (collected_running hrunning).mp hs
  have hthere : s.received_bytes ≤ stream.length := hn.trans (Nat.min_le_left _ _)
  have hroom := l.room
  rw [ReceiveLoop.step, hrunning, if_neg Bool.false_ne_true, hheld, l.store_held hthere,
    l.store_held hthere] at h
  rw [ReceiveLoop.written, ReceiveLoop.left, ReceiveLoop.left, hrunning, if_neg Bool.false_ne_true]
  split at h
  next hend =>
    -- the end: nothing comes any more, so everything that fits has come
    cases h
    have hall : s.received_bytes = min stream.length l.capacity := hok.complete hend hn
    rw [if_pos hend, List.forall_mem_singleton, inside_write]
    refine ⟨?_, Nat.succ_pos _, by omega⟩
    show _ = l.final before stream
    rw [ReceiveLoop.final, hall]
  next hmore =>
    cases h
    have hle := hok.add_le hn
    have hpos := length_pos_of_received_pos (Int.not_le.mp hmore)
    rw [if_neg hmore, List.forall_mem_singleton, inside_write]
    refine ⟨(collected_running rfl).mpr ⟨hle, ?_⟩, ?_, by omega⟩
    · show stream.take s.received_bytes ++ received.bytes ++ _ = _
      rw [hok.take_append]
      rfl
    · rw [if_neg Bool.false_ne_true]
      show min stream.length l.capacity - (s.received_bytes + received.bytes.length) + 1 < _
      omega

/-- A loop that has not been left makes another call, and whatever that gives it goes on. -/
theorem exists_step (hrunning : s.ended = false) (received : Received) : ∃ t, l.step s received = some t := by
  rw [ReceiveLoop.step, hrunning, if_neg Bool.false_ne_true]
  split
  · exact ⟨_, rfl⟩
  · exact ⟨_, rfl⟩

end Steps

/-! ## The run -/

theorem collected_start (before stream : Bytes) : Collected l before stream (l.start before) := by
  refine (collected_running rfl).mpr ⟨Nat.zero_le _, ?_⟩
  show l.cleared before = stream.take 0 ++ (l.cleared before).drop 0
  rw [List.take_zero, List.drop_zero, List.nil_append]

/-- What a loop has done when it has been left, and how long that takes at most. -/
theorem ReceiveLoop.run_collects {before stream : Bytes} {es : List Received} {t : State}
    (h : Run l.step (l.Streams stream) (l.start before) es t) :
    es.length ≤ min stream.length l.capacity + 1 ∧
      (∀ a ∈ observations l.step l.written (l.start before) es, a.Inside l.size) ∧
      (t.ended = true → t = l.final before stream) := by
  refine ⟨?_, ?_, fun hended => ?_⟩
  · have hle := h.length_add_le (I := Collected l before stream)
      (fun s e t hs hok hst => ⟨(collected_of_step hs hok hst).1, (collected_of_step hs hok hst).2.1⟩)
      (collected_start l before stream)
    exact (Nat.le_add_right _ _).trans hle
  · refine (h.forall_observations_iff (I := Collected l before stream) ?_
      (collected_start l before stream)).mpr h
    intro s e t hs hok hst
    obtain ⟨ht, -, hinside⟩ := collected_of_step hs hok hst
    exact ⟨iff_of_true hinside hok, fun _ => ht⟩
  · have ht : Collected l before stream t :=
      h.invariant (fun s e t hs hok hst => (collected_of_step hs hok hst).1) (collected_start l before stream)
    rw [Collected, hended, if_pos rfl] at ht
    exact ht

/-- **A reply is received the same way in any pieces.** For each of the three loops and every stream that is
delivered in any pieces: the loop comes to its end, it has written inside its array only, and the array holds
the first bytes of the stream, as many as there is room for; it has counted them; and nothing in the array
depends on the pieces. -/
theorem receive_loops_collect (p : Program) (before stream : Bytes) :
    (∀ es t, Run p.loop.step (p.loop.Streams stream) (p.loop.start before) es t →
      es.length ≤ min stream.length p.loop.capacity + 1 ∧
      (t.ended = false → ∃ received u, p.loop.Streams stream t received ∧ p.loop.step t received = some u) ∧
      (∀ a ∈ observations p.loop.step p.loop.written (p.loop.start before) es, a.Inside p.loop.size) ∧
      (t.ended = true → t.received_bytes = min stream.length p.loop.capacity ∧
        t.http_response.take t.received_bytes = stream.take p.loop.capacity)) ∧
    ∀ es es' t t', Run p.loop.step (p.loop.Streams stream) (p.loop.start before) es t →
      Run p.loop.step (p.loop.Streams stream) (p.loop.start before) es' t' →
      t.ended = true → t'.ended = true → t = t' := by
  refine ⟨fun es t h => ?_, fun es es' t t' h h' hended hended' => ?_⟩
  · obtain ⟨hle, hinside, hfinal⟩ := p.loop.run_collects h
    refine ⟨hle, fun hrunning => ?_, hinside, fun hended => ?_⟩
    · obtain ⟨received, hdelivers⟩ := exists_delivers (stream.drop t.received_bytes) (p.loop.asked t)
      obtain ⟨u, hu⟩ := exists_step hrunning received
      exact ⟨received, u, hdelivers, hu⟩
    · rw [hfinal hended]
      refine ⟨rfl, ?_⟩
      have hlen : (stream.take (min stream.length p.loop.capacity)).length =
          min stream.length p.loop.capacity := List.length_take_of_le (Nat.min_le_left _ _)
      show (stream.take (min stream.length p.loop.capacity) ++ _ ++ _).take
        (min stream.length p.loop.capacity) = _
      rw [List.append_assoc, List.take_left' hlen, Nat.min_comm, ← List.take_eq_take_min]
  · obtain ⟨-, -, hfinal⟩ := p.loop.run_collects h
    obtain ⟨-, -, hfinal'⟩ := p.loop.run_collects h'
    rw [hfinal hended, hfinal' hended']

/-! ## The loop of `perform_http_request` -/

/-- The array of `perform_http_request` where it has received `http_response`. -/
def receiving (http_response : Bytes) : State :=
  ⟨bufferMemory HttpRedirection.messageSize http_response [], http_response.length, false⟩

/-- What is received is put into the zeroed part of the array. -/
theorem store_bufferMemory (size : ℕ) (bytes bytes' : Bytes) :
    store (bufferMemory size bytes []) bytes.length bytes' = bufferMemory size (bytes ++ bytes') [] := by
  rw [bufferMemory, bufferMemory, List.append_nil, List.append_nil, store, List.take_left, List.drop_left,
    memcpy, List.drop_replicate, List.length_append, List.append_assoc, Nat.sub_sub]

/-- Before the first call the array is zeroed. -/
theorem receiving_nil {before : Bytes} (hsize : before.length = HttpRedirection.messageSize) :
    receiving [] = Program.performHttpRequest.loop.start before := by
  have hnone : before.drop (List.replicate HttpRedirection.messageSize (0 : UInt8)).length = [] := by
    rw [List.length_replicate, List.drop_eq_nil_iff, hsize]
  have hcleared : Program.performHttpRequest.loop.cleared before =
      List.replicate HttpRedirection.messageSize 0 := by
    show before.take 0 ++ (List.replicate HttpRedirection.messageSize 0 ++
      (before.drop 0).drop (List.replicate HttpRedirection.messageSize (0 : UInt8)).length) = _
    rw [List.take_zero, List.nil_append, List.drop_zero, hnone, List.append_nil]
  rw [receiving, ReceiveLoop.start, hcleared, bufferMemory, List.append_nil]
  rfl

theorem loop_receives {http_response : Bytes} {received : Received} (hpos : 0 < received.received) :
    Program.performHttpRequest.loop.step (receiving http_response) received =
      some (receiving (http_response ++ received.bytes)) := by
  show (if received.received ≤ 0 then _ else _) = _
  rw [if_neg (Int.not_le.mpr hpos), receiving, store_bufferMemory, receiving, List.length_append]

theorem loop_ends {http_response : Bytes} {received : Received} (hend : received.received ≤ 0) :
    Program.performHttpRequest.loop.step (receiving http_response) received =
      some { receiving http_response with ended := true } := by
  have hstore : store (receiving http_response).http_response http_response.length [] =
      (receiving http_response).http_response := by
    rw [receiving, store_bufferMemory, List.append_nil]
  show (if received.received ≤ 0 then
    some (State.mk (store (receiving http_response).http_response http_response.length []) _ _) else _) = _
  rw [if_pos hend, hstore]

/-- **The function goes through its loop in the same steps**: it stays in the loop with what the loop holds, or
it leaves the loop, and what the loop holds is the reply. -/
theorem receives_of_step {s t : HttpRedirection.State} {c : HttpRedirection.Connection}
    {http_response behind : Bytes} {received : Received} (hphase : s.phase = .receiving c http_response)
    (h : HttpRedirection.step s (.recv received behind) = some t) :
    Program.performHttpRequest.loop.step (receiving http_response) received =
        some (receiving (http_response ++ received.bytes)) ∧
      t.phase = .receiving c (http_response ++ received.bytes) ∨
    Program.performHttpRequest.loop.step (receiving http_response) received =
        some { receiving http_response with ended := true } ∧
      HttpRedirection.messages s (.recv received behind) t = [.reply http_response] := by
  cases HttpRedirection.Step.of_step h with
  | receives hphase' hpos =>
      rw [hphase] at hphase'
      cases hphase'
      exact .inl ⟨loop_receives hpos, rfl⟩
  | redirects _ hend _ => exact .inr ⟨loop_ends hend, HttpRedirection.messages_ends hphase hend behind _⟩
  | finishes _ hend _ => exact .inr ⟨loop_ends hend, HttpRedirection.messages_ends hphase hend behind _⟩

end LinuxNet.ReceiveLoops
