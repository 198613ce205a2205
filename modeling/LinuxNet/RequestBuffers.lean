/-
# LinuxNet.RequestBuffers — does a request stay in its buffer?

Four server loops read a request into `request_buffer`, an array of `MESSAGE_SIZE` bytes: those of the poll
and of the select tutorial, the thread function of the multithreading tutorial, and the TLS server. They ask
for `MESSAGE_SIZE` bytes and put a NUL behind what they got. The accesses to the buffer are listed here, for
one iteration of each loop, and `RequestLoop` puts them together with the loop's machine. An event comes with
the bytes that stand behind the buffer in memory at that moment, since a string function may get there.

Three loops stay in the buffer as long as fewer than `MESSAGE_SIZE` bytes are received
(`inside_recvAccesses_iff`). The TLS server puts the NUL only behind requests it answers, so a full buffer
that begins with the string `quit` or `exit` does no harm there (`inside_readAccesses_iff`).
-/
import LinuxNet.Lib.CString
import LinuxNet.Openssl.SslServer.Records
import LinuxNet.Tutorials.HandleClient
import LinuxNet.Tutorials.SelectServer.Loop

namespace LinuxNet.RequestBuffers

open LinuxNet.Lib LinuxNet.Posix LinuxNet.Tutorials LinuxNet.Openssl
open LinuxNet.Tutorials.Conversation (messageSize)

/-! ## The accesses of one iteration -/

/-- The memory from the start of a buffer of `size` bytes that was zeroed and then received into. -/
def filled (size : ℕ) (received : Received) (behind : Bytes) : Bytes :=
  bufferMemory size received.bytes behind

/-- `request_buffer[received_bytes] = 0;` -/
def terminated (size : ℕ) (received : Received) (behind : Bytes) : Bytes :=
  (filled size received behind).set received.bytes.length 0

/-- `memset(request_buffer, 0, MESSAGE_SIZE)` and what `recv` or `SSL_read` writes. -/
def fillAccesses (size : ℕ) (received : Received) : List Access :=
  [.write 0 size, .write 0 received.bytes.length]

/-- The NUL behind the request, and `printf` of the request. -/
def printAccesses (size : ℕ) (received : Received) (behind : Bytes) : List Access :=
  [.write received.bytes.length 1, readString (terminated size received behind) 0]

/-- An iteration of a loop with `recv`, which compares the request with these words. -/
def recvAccesses (words : List String) (received : Received) (behind : Bytes) : List Access :=
  fillAccesses messageSize received ++
    if received.received ≤ 0 then []
    else
      printAccesses messageSize received behind ++
        readsCompared (terminated messageSize received behind) (words.map ofText)

/-- An iteration of the client loop of the poll server. -/
def pollAccesses : Received → Bytes → List Access := recvAccesses ["quit", "exit"]

/-- An iteration of the scan of the select server at a client. -/
def selectAccesses : Received → Bytes → List Access := recvAccesses ["quit", "exit"]

/-- An iteration of `server_handle_client`. -/
def handleClientAccesses : Received → Bytes → List Access :=
  recvAccesses ["exit", "quit", "shutdown", "time"]

/-- An iteration of the scan of the TLS server at a client: the comparisons come first, whatever `SSL_read`
answered, and the NUL is put behind a request that is answered. -/
def readAccesses (received : Received) (behind : Bytes) : List Access :=
  fillAccesses SslServer.messageSize received ++
    (readsCompared (filled SslServer.messageSize received behind) [ofText "quit", ofText "exit"] ++
      if SslServer.shouldDisconnect received then []
      else printAccesses SslServer.messageSize received behind)

/-- What may be received when `size` bytes are asked for. -/
def Fits (size : ℕ) (received : Received) : Prop := received.bytes.length ≤ size

/-- Fewer bytes than were asked for are received. -/
def Short (size : ℕ) (received : Received) : Prop := received.bytes.length < size

instance (size : ℕ) (received : Received) : Decidable (Fits size received) :=
  inferInstanceAs (Decidable (_ ≤ _))

instance (size : ℕ) (received : Received) : Decidable (Short size received) :=
  inferInstanceAs (Decidable (_ < _))

theorem inside_fillAccesses {size : ℕ} {received : Received} (hfits : Fits size received) :
    ∀ a ∈ fillAccesses size received, a.Inside size := by
  rw [fillAccesses, List.forall_mem_cons, List.forall_mem_singleton, inside_write, inside_write, zero_add,
    zero_add]
  exact ⟨le_rfl, hfits⟩

/-- **The NUL and the print** stay in the buffer exactly when the request leaves room for the NUL. -/
theorem inside_printAccesses_iff {size : ℕ} {received : Received} (hfits : Fits size received)
    (behind : Bytes) :
    (∀ a ∈ printAccesses size received behind, a.Inside size) ↔ Short size received := by
  rw [printAccesses, List.forall_mem_cons, List.forall_mem_singleton, inside_write]
  constructor
  · rintro ⟨hnul, -⟩
    exact hnul
  · intro hshort
    have hlen : size ≤ (filled size received behind).length := le_length_bufferMemory hfits behind
    -- `printf` stops at the NUL that was just written, if not before
    have hget : (terminated size received behind)[received.bytes.length]? = some 0 :=
      List.getElem?_set_self (lt_of_lt_of_le hshort hlen)
    refine ⟨hshort, (readString_inside_iff (Nat.zero_le size) ?_).mpr ?_⟩
    · rw [terminated, List.length_set]
      exact hlen
    · rw [List.drop_zero, Nat.sub_zero]
      apply List.mem_of_getElem? (i := received.bytes.length)
      rw [List.getElem?_take_of_lt hshort, hget]

/-- **A loop with `recv`** stays in the buffer exactly when fewer than `MESSAGE_SIZE` bytes are received. -/
theorem inside_recvAccesses_iff {words : List String}
    (hwords : ∀ word ∈ words.map ofText, word.length < messageSize) {received : Received}
    (hfits : Fits messageSize received) (behind : Bytes) :
    (∀ a ∈ recvAccesses words received behind, a.Inside messageSize) ↔ Short messageSize received := by
  rw [recvAccesses, List.forall_mem_append, and_iff_right (inside_fillAccesses hfits)]
  split
  next hnone =>
    refine iff_of_true (List.forall_mem_nil _) ?_
    rw [Short, bytes_eq_nil_of_nonpos hnone]
    decide
  next =>
    rw [List.forall_mem_append, inside_printAccesses_iff hfits, and_iff_left]
    exact readsCompared_inside hwords

/-- **The TLS server** stays in the buffer exactly when fewer than `MESSAGE_SIZE` bytes are received, or the
client is dropped. -/
theorem inside_readAccesses_iff {received : Received} (hfits : Fits SslServer.messageSize received)
    (behind : Bytes) :
    (∀ a ∈ readAccesses received behind, a.Inside SslServer.messageSize) ↔
      Short SslServer.messageSize received ∨ SslServer.shouldDisconnect received = true := by
  -- a comparison is decided within the word, even without a NUL in the buffer
  have hcompared : ∀ a ∈ readsCompared (filled SslServer.messageSize received behind)
      [ofText "quit", ofText "exit"], a.Inside SslServer.messageSize :=
    readsCompared_inside (by decide)
  rw [readAccesses, List.forall_mem_append, and_iff_right (inside_fillAccesses hfits),
    List.forall_mem_append, and_iff_right hcompared]
  split
  next hdrop => exact iff_of_true (List.forall_mem_nil _) (.inr hdrop)
  next hkeep => rw [inside_printAccesses_iff hfits, or_iff_left hkeep]

/-! ## The loops -/

/-- **`RequestLoop`** — a loop that reads requests into a buffer: its machine, the size of the buffer, what an
event brings for the buffer, and the accesses it makes then. -/
structure RequestLoop (σ ε : Type) where
  step : σ → ε → Option σ
  size : ℕ
  received? : ε → Option Received
  accesses : Received → Bytes → List Access

namespace RequestLoop

variable {σ ε : Type} (L : RequestLoop σ ε)

/-- One step; the memory behind the buffer has no influence on it. -/
def stepBehind (s : σ) (e : ε × Bytes) : Option σ := L.step s e.1

/-- The accesses a step shows. -/
def shown (_ : σ) (e : ε × Bytes) (_ : σ) : List Access :=
  (L.received? e.1).elim [] fun received => L.accesses received e.2

/-- What an event brings for the buffer satisfies `P`. -/
def EachReceived (P : Received → Prop) (_ : σ) (e : ε × Bytes) : Prop :=
  ∀ received ∈ L.received? e.1, P received

instance (P : Received → Prop) [DecidablePred P] (s : σ) (e : ε × Bytes) :
    Decidable (L.EachReceived P s e) :=
  inferInstanceAs (Decidable (∀ received ∈ L.received? e.1, P received))

/-- No step of the run touches anything beyond the buffer. -/
def InBounds (s : σ) (es : List (ε × Bytes)) : Prop :=
  ∀ a ∈ observations L.stepBehind L.shown s es, a.Inside L.size

variable {L}

/-- **The run lemma**: the accesses of a run stay in the buffer exactly when those of each request do. -/
theorem inBounds_iff {P : Received → Prop}
    (hiff : ∀ received behind, Fits L.size received →
      ((∀ a ∈ L.accesses received behind, a.Inside L.size) ↔ P received))
    {s t : σ} {es : List (ε × Bytes)} (h : Run L.stepBehind (L.EachReceived (Fits L.size)) s es t) :
    L.InBounds s es ↔ Run L.stepBehind (L.EachReceived P) s es t := by
  refine h.forall_observations_iff (I := fun _ => True) (fun s e t _ hfits _ => ⟨?_, fun _ => trivial⟩) trivial
  rw [shown, EachReceived]
  rcases hreceived : L.received? e.1 with _ | received
  · refine iff_of_true (List.forall_mem_nil _) fun received h => ?_
    cases h
  · rw [Option.elim_some, hiff received e.2 (hfits received hreceived)]
    refine ⟨fun h received' heq => ?_, fun h => h received rfl⟩
    cases heq
    exact h

end RequestLoop

/-- `run_server` of the poll tutorial. -/
def pollServer : RequestLoop PollServer.State PollServer.Event where
  step := PollServer.step
  size := messageSize
  received?
    | .serve received _ _ => some received
    | .poll _ _ | .accept _ | .tau => none
  accesses := pollAccesses

/-- `run_server` of the select tutorial. -/
def selectServer : RequestLoop SelectServer.State SelectServer.Event where
  step := SelectServer.step
  size := messageSize
  received?
    | .serve received _ _ => some received
    | .select _ _ | .accept _ | .tau => none
  accesses := selectAccesses

/-- `server_handle_client` of the multithreading tutorial. -/
def serverHandleClient : RequestLoop HandleClient.State HandleClient.Event where
  step := HandleClient.step
  size := messageSize
  received? e := some e.received
  accesses := handleClientAccesses

/-- `run_server` of `ssl_client_server.c`. -/
def sslServer : RequestLoop SslServer.State SslServer.Event where
  step := SslServer.step
  size := SslServer.messageSize
  received?
    | .serve received _ _ => some received
    | .poll _ _ | .accept _ _ _ | .tau => none
  accesses := readAccesses

/-! ## The four servers -/

/-- **`SafeExactlyIf L s P`** — in every run from `s` the accesses stay in the buffer exactly when `P` is true
of whatever is received. -/
def SafeExactlyIf {σ ε : Type} (L : RequestLoop σ ε) (s : σ) (P : Received → Prop) : Prop :=
  ∀ (es : List (ε × Bytes)) (t : σ), Run L.stepBehind (L.EachReceived (Fits L.size)) s es t →
    (L.InBounds s es ↔ Run L.stepBehind (L.EachReceived P) s es t)

/-- In every run from `s` the accesses stay in the buffer. -/
def KeepsToBuffer {σ ε : Type} (L : RequestLoop σ ε) (s : σ) : Prop :=
  ∀ (es : List (ε × Bytes)) (t : σ), Run L.stepBehind (L.EachReceived (Fits L.size)) s es t →
    L.InBounds s es

/-- Fewer bytes than were asked for are received, or a request to quit. -/
def ShortOrLeaving (received : Received) : Prop :=
  Short SslServer.messageSize received ∨ SslServer.asksToLeave received.bytes = true

instance (received : Received) : Decidable (ShortOrLeaving received) :=
  inferInstanceAs (Decidable (_ ∨ _))

/-- The TLS server drops a client for nothing else. -/
theorem shortOrLeaving_iff {received : Received} : ShortOrLeaving received ↔
    Short SslServer.messageSize received ∨ SslServer.shouldDisconnect received = true := by
  by_cases hnone : received.received ≤ 0
  -- nothing was received, so the buffer is not full either
  · have hshort : Short SslServer.messageSize received := by
      rw [Short, bytes_eq_nil_of_nonpos hnone]
      decide
    exact iff_of_true (.inl hshort) (.inl hshort)
  · have hdrop : SslServer.shouldDisconnect received = SslServer.asksToLeave received.bytes := by
      rw [SslServer.shouldDisconnect, decide_eq_false hnone, Bool.false_or]
      rfl
    rw [ShortOrLeaving, hdrop]

/-- A full buffer. -/
def fullBuffer : Received := .data (List.replicate messageSize 65)

/-- **When the requests stay in their buffers.** In every run of the four loops, with anything in the memory
behind the buffer: every write, every comparison and every print stays in `request_buffer` if and only if
no call returns `MESSAGE_SIZE` bytes, but for a request to quit in the case of the TLS server. -/
theorem request_buffers (sock_server sock_client : Int) (ssl : SslServer.Ssl) :
    SafeExactlyIf pollServer (PollServer.init sock_server) (Short messageSize) ∧
      SafeExactlyIf selectServer (SelectServer.init sock_server) (Short messageSize) ∧
      SafeExactlyIf serverHandleClient (HandleClient.init sock_client) (Short messageSize) ∧
      SafeExactlyIf sslServer (SslServer.init sock_server ssl) ShortOrLeaving := by
  refine ⟨fun es t h => RequestLoop.inBounds_iff ?_ h, fun es t h => RequestLoop.inBounds_iff ?_ h,
    fun es t h => RequestLoop.inBounds_iff ?_ h, fun es t h => RequestLoop.inBounds_iff ?_ h⟩
  · exact fun received behind hfits => inside_recvAccesses_iff (by decide) hfits behind
  · exact fun received behind hfits => inside_recvAccesses_iff (by decide) hfits behind
  · exact fun received behind hfits => inside_recvAccesses_iff (by decide) hfits behind
  · exact fun received behind hfits => (inside_readAccesses_iff hfits behind).trans shortOrLeaving_iff.symm

/-- Client 4 comes to the poll server and asks for the time; `behind` is the memory behind the buffer. -/
def pollRequest (behind : Bytes) : List (PollServer.Event × Bytes) :=
  [(.poll 1 fun i => if i = 0 then pollIn else 0, behind), (.accept 4, behind), (.tau, behind),
    (.tau, behind), (.poll 1 fun i => if i = 1 then pollIn else 0, behind), (.tau, behind),
    (.serve (.data (ofText "time")) 1000 17, behind)]

/-- The same with the select server. -/
def selectRequest (behind : Bytes) : List (SelectServer.Event × Bytes) :=
  [(.select 1 {3}, behind), (.tau, behind), (.tau, behind), (.tau, behind), (.accept 4, behind),
    (.tau, behind), (.tau, behind), (.select 1 {4}, behind), (.tau, behind), (.tau, behind), (.tau, behind),
    (.tau, behind), (.serve (.data (ofText "time")) 1000 17, behind)]

/-- The same with the thread function. -/
def handleClientRequest (behind : Bytes) : List (HandleClient.Event × Bytes) :=
  [(⟨.data (ofText "time"), 1000, 1024⟩, behind), (⟨.data (ofText "quit"), 1000, 1024⟩, behind)]

/-- The same with the TLS server. -/
def sslRequest (behind : Bytes) : List (SslServer.Event × Bytes) :=
  [(.poll 1 fun i => if i = 0 then pollIn else 0, behind), (.accept 4 104 1, behind), (.tau, behind),
    (.tau, behind), (.poll 1 fun i => if i = 1 then pollIn else 0, behind), (.tau, behind),
    (.serve (.data (ofText "time")) 1000 17, behind)]

/-- A run that can be executed with what is received being as wanted is safe. -/
theorem SafeExactlyIf.inBounds_of_exec {σ ε : Type} {L : RequestLoop σ ε} {s : σ} {P : Received → Prop}
    [DecidablePred P] (h : SafeExactlyIf L s P) {es : List (ε × Bytes)}
    (hexec : (execOk L.stepBehind (L.EachReceived fun r => Fits L.size r ∧ P r) s es).isSome = true) :
    L.InBounds s es := by
  obtain ⟨t, hrun⟩ := exists_run_of_exec hexec
  exact (h es t (hrun.mono fun _ _ hok received hr => (hok received hr).1)).mpr
    (hrun.mono fun _ _ hok received hr => (hok received hr).2)

theorem request_buffers_one_request :
    pollServer.InBounds (PollServer.init 3) (pollRequest [65]) ∧
      selectServer.InBounds (SelectServer.init 3) (selectRequest [65]) ∧
      serverHandleClient.InBounds (HandleClient.init 4) (handleClientRequest [65]) ∧
      sslServer.InBounds (SslServer.init 3 100) (sslRequest [65]) := by
  obtain ⟨hpoll, hselect, hhandle, hssl⟩ := request_buffers 3 4 100
  exact ⟨hpoll.inBounds_of_exec (by decide), hselect.inBounds_of_exec (by decide),
    hhandle.inBounds_of_exec (by decide), hssl.inBounds_of_exec (by decide)⟩

/-- The thread function receives anything as its first request. -/
theorem exists_run_handleClient {received : Received} (hfits : Fits messageSize received) : ∃ t,
    Run serverHandleClient.stepBehind (serverHandleClient.EachReceived (Fits messageSize))
      (HandleClient.init 4) [(⟨received, 1000, 1024⟩, [])] t := by
  have hsome : (HandleClient.step (HandleClient.init 4) ⟨received, 1000, 1024⟩).isSome = true := by
    show (if received.received ≤ 0 then _ else _ : Option _).isSome = true
    split <;> rfl
  obtain ⟨t, ht⟩ := Option.isSome_iff_exists.mp hsome
  refine ⟨t, .cons (fun received' hreceived => ?_) ht (.nil t)⟩
  obtain rfl : received = received' := Option.some.inj hreceived
  exact hfits

/-- **A request of `MESSAGE_SIZE` bytes** has its NUL written behind the buffer. -/
theorem full_buffer_overrun :
    ¬ ∀ (sock_server sock_client : Int) (ssl : SslServer.Ssl),
      KeepsToBuffer pollServer (PollServer.init sock_server) ∧
        KeepsToBuffer selectServer (SelectServer.init sock_server) ∧
        KeepsToBuffer serverHandleClient (HandleClient.init sock_client) ∧
        KeepsToBuffer sslServer (SslServer.init sock_server ssl) := by
  intro hall
  have hlen : fullBuffer.bytes.length = messageSize := by
    rw [fullBuffer, Received.bytes, List.length_replicate]
  obtain ⟨t, hrun⟩ := exists_run_handleClient hlen.le
  have hshort := (RequestLoop.inBounds_iff
    (fun received behind hfits => inside_recvAccesses_iff (by decide) hfits behind) hrun).mp
    ((hall 3 4 100).2.2.1 _ t hrun)
  obtain ⟨u, hu⟩ := hshort.exists_ok List.mem_cons_self
  exact absurd hlen (ne_of_lt (hu fullBuffer rfl))

end LinuxNet.RequestBuffers
