/-
# LinuxNet.Http.ConnectionHandler — `HTTPConnectionHandler::handle_client`

One `recv` into a zeroed array of `MESSAGE_SIZE` bytes, one `parse` of the array read as a C string, one
`route`, one `send`. The C string ends at the first NUL: inside the message when the client sent one, at
the first byte not written otherwise; when all `MESSAGE_SIZE` bytes were written and none is NUL it runs
on into the memory behind the array (`Env.after`).

Nothing between here and `main` catches an exception, so one request whose handling throws ends the
server. `handleClient_ok_iff` says exactly which requests do not, and `handleClient_throws` is one that
does.
-/
import LinuxNet.Http.Router
import LinuxNet.Posix.Recv

namespace LinuxNet.Http

open LinuxNet.Lib LinuxNet.Posix LinuxNet.Cpp LinuxNet.Http.Parser LinuxNet.Http.Router

/-- What one call of `handle_client` depends on besides the bytes it receives. -/
structure Env where
  lim : Limits
  fs : FileSystem
  /-- what the constructor of the response leaves in `m_status` -/
  uninitialised : Int
  /-- the order in which a hash map is read out -/
  order : ∀ headers : Headers, IterationOrder headers
  /-- the memory behind `buffer` -/
  after : Bytes
  /-- what `send` returns when it is asked to send that many bytes -/
  send : ℕ → Int

namespace ConnectionHandler

/-- `buffer` after `memset` and a `recv` that wrote these bytes. -/
def bufferOf (received : Bytes) : Bytes :=
  received ++ List.replicate (messageSize - received.length) 0

/-- The `std::string` that is made of `buffer`. -/
def rawRequest (after received : Bytes) : Bytes := cString (bufferOf received ++ after)

/-- The part of `handle_client` after a successful `recv`: the activity, and the bytes `send` accepted. -/
def respond (env : Env) (received : Bytes) : Except Exn (ClientActivity × Bytes) := do
  let client_request ← parse env.lim (rawRequest env.after received)
  let server_response ← route env.lim env.fs env.uninitialised client_request
  let s_server_response := server_response.toString (env.order server_response.mHeaders)
  let rc_send := env.send s_server_response.length
  if rc_send ≤ 0 then return (.disconnect, [])
  else return (.completed, s_server_response.take rc_send.toNat)

/-- **`HTTPConnectionHandler::handle_client`.** -/
def handleClient (env : Env) (rc_recv : Received) : Except Exn (ClientActivity × Bytes) :=
  if rc_recv.received ≤ 0 then .ok (.disconnect, []) else respond env rc_recv.bytes

/-! ## What the parser gets to see -/

/-- A message that does not fill the array is followed by a NUL. -/
theorem rawRequest_of_lt {received : Bytes} (hlen : received.length < messageSize) (after : Bytes) :
    rawRequest after received = cString received := by
  obtain ⟨k, hk⟩ : ∃ k, messageSize - received.length = k + 1 :=
    ⟨messageSize - received.length - 1, by omega⟩
  rw [rawRequest, bufferOf, hk, List.replicate_succ, List.append_assoc, List.cons_append,
    cString_append_nul]

/-- How many bytes are read, from the start of `buffer` on, to make the `std::string`: those of the C
string and the NUL behind it. -/
def bytesRead (after received : Bytes) : ℕ := (rawRequest after received).length + 1

/-- A message that fills the array is followed by whatever stands behind the array. -/
theorem rawRequest_of_eq {received : Bytes} (hlen : received.length = messageSize) (after : Bytes) :
    rawRequest after received = cString (received ++ after) := by
  rw [rawRequest, bufferOf, hlen, Nat.sub_self, List.replicate_zero, List.append_nil]

/-- What the parser gets to see: the message up to its first NUL, or the message and what stands behind the
array up to the first NUL there. -/
theorem rawRequest_eq {received : Bytes} (hlen : received.length ≤ messageSize) (after : Bytes) :
    rawRequest after received =
      if received.length < messageSize ∨ (0 : UInt8) ∈ received then cString received
      else received ++ cString after := by
  rcases Nat.lt_or_ge received.length messageSize with hlt | hge
  · rw [rawRequest_of_lt hlt, if_pos (.inl hlt)]
  · rw [rawRequest_of_eq (Nat.le_antisymm hlen hge)]
    by_cases hnul : (0 : UInt8) ∈ received
    · rw [if_pos (.inr hnul), cString_append_of_mem hnul]
    · rw [if_neg (not_or.mpr ⟨Nat.not_lt.mpr hge, hnul⟩), cString_append hnul]

/-- **When the parser sees exactly what was received, and nothing outside `buffer` is read**: exactly
when there is no NUL in the message and the message leaves room for one. -/
theorem rawRequest_exact_iff (after received : Bytes) (hlen : received.length ≤ messageSize) :
    rawRequest after received = received ∧ bytesRead after received ≤ messageSize ↔
      (0 : UInt8) ∉ received ∧ received.length < messageSize := by
  rcases Nat.lt_or_ge received.length messageSize with hlt | hge
  · rw [bytesRead, rawRequest_of_lt hlt]
    constructor
    · rintro ⟨heq, -⟩
      refine ⟨?_, hlt⟩
      rw [← heq]
      exact nul_notMem_cString received
    · rintro ⟨hnul, -⟩
      rw [cString_of_notMem hnul]
      exact ⟨rfl, hlt⟩
  · have hfull : received.length = messageSize := Nat.le_antisymm hlen hge
    constructor
    · rintro ⟨heq, hread⟩
      -- the string is as long as the array, so its NUL is outside
      rw [bytesRead, heq] at hread
      omega
    · rintro ⟨-, hlt⟩
      omega

/-- A message of seven bytes. -/
theorem rawRequest_exact_iff_get :
    rawRequest [] (ofText "GET / a") = ofText "GET / a" ∧
      bytesRead [] (ofText "GET / a") ≤ messageSize :=
  (rawRequest_exact_iff [] (ofText "GET / a") (by decide)).mpr ⟨by decide, by decide⟩

/-- **Not every message gets through**: one with a NUL is cut, and one of `MESSAGE_SIZE` bytes without NUL
is read beyond the array. -/
theorem rawRequest_inexact :
    (¬ ∀ after received : Bytes, 1 ≤ received.length → received.length ≤ messageSize →
      rawRequest after received = received) ∧
    ¬ ∀ after received : Bytes, 1 ≤ received.length → received.length ≤ messageSize →
      bytesRead after received ≤ messageSize := by
  refine ⟨?_, ?_⟩
  · intro hall
    have heq := hall [] [65, 0, 66] (by decide) (by decide)
    rw [rawRequest_of_lt (by decide)] at heq
    exact absurd heq (by decide)
  · intro hall
    have hlen : (List.replicate messageSize (65 : UInt8)).length = messageSize := List.length_replicate
    have hread := hall [] (List.replicate messageSize 65) (by rw [hlen]; decide) hlen.le
    have hnul : (0 : UInt8) ∉ List.replicate messageSize (65 : UInt8) := by
      intro hmem
      exact absurd (List.eq_of_mem_replicate hmem) (by decide)
    rw [bytesRead, rawRequest_of_eq hlen, List.append_nil, cString_of_notMem hnul, hlen] at hread
    omega

/-! ## When it returns -/

/-- **The length announced in these bytes can be read**: the last `Content-Length` field of the head, if
there is one, starts with a number that is an `int` and not negative. -/
def LengthReadable (raw : Bytes) : Prop :=
  ∀ val, lastValue contentLength (headFields raw) = some val → ∃ n : ℕ, stoi val = .ok n

/-- **The file system answers for this path**: it knows the current directory, the status of the path can
be queried, and the page, if it can be opened, has a size that a string can have. -/
def PathAnswered (lim : Limits) (fs : FileSystem) (mPath : Bytes) : Prop :=
  ∃ cwd, fs.currentPath = .ok cwd ∧ fs.status (cString (pathOf cwd mPath)) ≠ .error ∧
    ∀ file, fs.openIn (cString (pageOf fs cwd mPath)) = some file →
      toSizeT file.endPos ≤ lim.maxSize

/-- The path a request asks for. -/
theorem mPath_of_parse {lim : Limits} {raw : Bytes} {request : HTTPRequest}
    (h : parse lim raw = .ok request) : request.mPath = (methodAndPath raw).2 := by
  rw [parse_eq] at h
  cases hbody : readBody lim (assign ∅ (headFields raw)) (afterHead raw) with
  | error exn => simp [hbody, Except.map] at h
  | ok body =>
      rw [hbody] at h
      cases h
      rfl

/-- What one `send` of the response comes to: the activity, and the bytes that were accepted. -/
def sent (env : Env) (response : HTTPResponse) : ClientActivity × Bytes :=
  let s_server_response := response.toString (env.order response.mHeaders)
  let rc_send := env.send s_server_response.length
  if rc_send ≤ 0 then (.disconnect, []) else (.completed, s_server_response.take rc_send.toNat)

/-- The exchange is completed when `send` accepts something. -/
theorem sent_eq_completed {env : Env} {response : HTTPResponse} {accepted : Bytes} :
    sent env response = (.completed, accepted) ↔
      0 < env.send (response.toString (env.order response.mHeaders)).length ∧
        accepted = (response.toString (env.order response.mHeaders)).take
          (env.send (response.toString (env.order response.mHeaders)).length).toNat := by
  simp only [sent]
  split
  next hneg => simp [Int.not_lt.mpr hneg]
  next hpos => simp [Int.not_le.mp hpos, eq_comm]

theorem sent_ne_waiting (env : Env) (response : HTTPResponse) : (sent env response).1 ≠ .waiting := by
  simp only [sent]
  split
  · show ClientActivity.disconnect ≠ .waiting
    decide
  · show ClientActivity.completed ≠ .waiting
    decide

/-- **The inversion lemma**: what `handle_client` returns comes from a request, its response and one
`send`. -/
theorem respond_eq_ok {env : Env} {received : Bytes} {r : ClientActivity × Bytes} :
    respond env received = .ok r ↔
      ∃ request response, parse env.lim (rawRequest env.after received) = .ok request ∧
        route env.lim env.fs env.uninitialised request = .ok response ∧ r = sent env response := by
  unfold respond sent
  rcases parse env.lim (rawRequest env.after received) with exn | request
  · simp [bind, Except.bind]
  · rcases hroute : route env.lim env.fs env.uninitialised request with exn | response
    · simp [bind, Except.bind, hroute]
    · simp only [bind, Except.bind, hroute, Except.ok.injEq, ↓existsAndEq, true_and]
      split
      · simp [pure, Except.pure, eq_comm]
      · simp [pure, Except.pure, eq_comm]

theorem respond_ok_iff (env : Env) (received : Bytes) :
    (∃ r, respond env received = .ok r) ↔
      LengthReadable (rawRequest env.after received) ∧
        PathAnswered env.lim env.fs (methodAndPath (rawRequest env.after received)).2 := by
  constructor
  · rintro ⟨r, hr⟩
    obtain ⟨request, response, hparse, hroute, -⟩ := respond_eq_ok.mp hr
    refine ⟨(parse_ok_iff env.lim _).mp ⟨request, hparse⟩, ?_⟩
    rw [← mPath_of_parse hparse]
    exact (route_ok_iff env.lim env.fs env.uninitialised request).mp ⟨response, hroute⟩
  · rintro ⟨hlength, hanswered⟩
    obtain ⟨request, hparse⟩ := (parse_ok_iff env.lim _).mpr hlength
    rw [← mPath_of_parse hparse] at hanswered
    obtain ⟨response, hroute⟩ :=
      (route_ok_iff env.lim env.fs env.uninitialised request).mpr hanswered
    exact ⟨_, respond_eq_ok.mpr ⟨request, response, hparse, hroute, rfl⟩⟩

/-- **When `handle_client` returns an activity**, for a message that does not fill the array: nothing was
received, or the length it announces can be read and the file system answers for its path. -/
theorem handleClient_ok_iff (env : Env) (received : Bytes) (hlen : received.length < messageSize) :
    (∃ r, handleClient env (.data received) = .ok r) ↔
      received = [] ∨ LengthReadable (cString received) ∧
        PathAnswered env.lim env.fs (methodAndPath (cString received)).2 := by
  rw [← rawRequest_of_lt hlen env.after, ← respond_ok_iff]
  cases received with
  | nil => simp [handleClient, Received.received]
  | cons b received =>
      have hpos := not_received_nonpos (List.cons_ne_nil b received)
      simp [handleClient, hpos, Received.bytes]

/-! ## A request that ends the server -/

/-- A file system with the document root `/srv/http_root` and nothing in it. -/
def emptyRoot : FileSystem where
  currentPath := .ok (ofText "/srv")
  status path := if path = ofText "/srv/http_root/" then .directory else .notFound
  openIn _ := none

/-- A process that serves it; `send` takes everything. -/
def sampleEnv (order : ∀ headers : Headers, IterationOrder headers) : Env where
  lim := intLimits
  fs := emptyRoot
  uninitialised := 0
  order := order
  after := []
  send n := n

/-- A request for `/` is answered. -/
theorem handleClient_ok_iff_get :
    ∃ env r, env.fs = emptyRoot ∧
      handleClient env (.data (ofText "GET / HTTP/1.1\r\n\r\n")) = .ok r := by
  obtain ⟨order⟩ : Nonempty (∀ headers : Headers, IterationOrder headers) :=
    IterationOrder.nonempty_forall
  have hnone : lastValue contentLength
      (headFields (cString (ofText "GET / HTTP/1.1\r\n\r\n"))) = none := by decide
  have hstatus : emptyRoot.status (cString (pathOf (ofText "/srv")
      (methodAndPath (cString (ofText "GET / HTTP/1.1\r\n\r\n"))).2)) ≠ .error := by decide
  obtain ⟨r, hr⟩ : ∃ r, handleClient (sampleEnv order) (.data (ofText "GET / HTTP/1.1\r\n\r\n")) =
      .ok r := by
    refine (handleClient_ok_iff _ _ (by decide)).mpr (.inr ⟨?_, ofText "/srv", rfl, hstatus, ?_⟩)
    · intro val h
      rw [hnone] at h
      cases h
    · intro file h
      cases h
  exact ⟨sampleEnv order, r, rfl, hr⟩

/-- `Content-Length: x`. -/
def fatalRequest : Bytes := ofText "GET / HTTP/1.1\r\nContent-Length: x\r\n\r\n"

/-- **One request ends the server**: `std::stoi` throws, and nothing catches. -/
theorem handleClient_throws :
    ¬ ∀ (env : Env) (received : Bytes), received.length < messageSize →
      ∃ r, handleClient env (.data received) = .ok r := by
  intro hall
  obtain ⟨order⟩ : Nonempty (∀ headers : Headers, IterationOrder headers) :=
    IterationOrder.nonempty_forall
  have hlen : fatalRequest.length < messageSize := by decide
  have hok : ∃ r, respond (sampleEnv order) fatalRequest = .ok r :=
    hall (sampleEnv order) fatalRequest hlen
  rw [respond_ok_iff, rawRequest_of_lt hlen] at hok
  obtain ⟨n, hn⟩ := hok.1 (ofText "x") (by decide)
  have hstoi : stoi (ofText "x") = .error .invalidArgument := by rfl
  rw [hstoi] at hn
  cases hn

end ConnectionHandler

end LinuxNet.Http
