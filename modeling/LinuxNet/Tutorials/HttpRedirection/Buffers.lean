/-
# LinuxNet.Tutorials.HttpRedirection.Buffers — do names and replies stay in their buffers?

`perform_http_request` has five arrays of its own and writes to one of its caller. A name is printed into
`http_temp` or into `http_request`, with a different text around it; a reply of at most `MESSAGE_SIZE` bytes
is received into `http_response` and searched there with `strstr`, which needs a NUL; the new name is cut out
of it. A step shows the accesses it makes (`shown`).

What decides is small: a name must leave room for the text around it in the buffer it is printed into, and a
reply that fills `http_response` must bring a NUL with it (`FitsBuffers`). Everything else follows: a name cut
out of a reply with a NUL fits into `new_http_host` (`inside_searchAccesses_iff`).
-/
import LinuxNet.Tutorials.HttpRedirection.Client

namespace LinuxNet.Tutorials.HttpRedirection

open LinuxNet.Lib LinuxNet.Posix

/-! ## The buffers -/

/-- The arrays of `perform_http_request`, and the one it is given. -/
inductive Buffer where
  | http_port
  | http_temp
  | http_request
  | http_response
  | new_http_host
  | response
  deriving DecidableEq, Repr

/-- Their sizes. -/
def Buffer.size : Buffer → ℕ
  | .http_port => 6
  | .http_temp | .http_request | .http_response | .new_http_host | .response => messageSize

/-- An access to one of the buffers. -/
structure BufferAccess where
  buffer : Buffer
  access : Access
  deriving DecidableEq, Repr

/-- The access stays in its buffer. -/
def BufferAccess.Inside (a : BufferAccess) : Prop := a.access.Inside a.buffer.size

/-! ## The accesses of a step -/

/-- A buffer is zeroed, a text is printed into it, and the text is read. -/
def printAccesses (buffer : Buffer) (text : Bytes) : List BufferAccess :=
  [⟨buffer, .write 0 buffer.size⟩, ⟨buffer, .write 0 (text.length + 1)⟩, ⟨buffer, .read 0 (text.length + 1)⟩]

/-- From the start of a call to the request. -/
def openAccesses (host_name path : Bytes) (redirect_count : ℕ) (a : Answers) : List BufferAccess :=
  if maxRedirection < redirect_count then []
  else if a.http_proto = false then []
  else
    match a.http_service with
    | none => []
    | some s_port =>
      printAccesses .http_port (portText s_port) ++
        -- `report_error` prints the message
        if a.addr_rc ≠ 0 then printAccesses .http_temp (tempText host_name)
        else if a.http_sock < 0 then []
        else if a.con_rc ≠ 0 then []
        else printAccesses .http_request (requestText path host_name)

/-- One `send`, and `memset(http_response, 0, MESSAGE_SIZE)` behind the last one. -/
def sendAccesses (c : Connection) (http_sent_bytes : ℕ) (sent_bytes : Int) : List BufferAccess :=
  ⟨.http_request, .read http_sent_bytes (c.httpRequest.length - http_sent_bytes)⟩ ::
    if 0 < sent_bytes ∧ c.httpRequest.length ≤ http_sent_bytes + sent_bytes.toNat then
      [⟨.http_response, .write 0 messageSize⟩]
    else []

/-- The new host is cut out of the reply, from `start` on: `strstr`, `strncpy` and the NUL. -/
def cutAccesses (mem : Bytes) (start : ℕ) : List BufferAccess :=
  ⟨.http_response, readString mem start⟩ ::
    match newHttpHostLen mem start with
    | none => []
    | some len =>
      [⟨.http_response, .read start len⟩, ⟨.new_http_host, .write 0 len⟩, ⟨.new_http_host, .write len 1⟩]

/-- The reply is searched for a redirection. -/
def searchAccesses (mem : Bytes) : List BufferAccess :=
  ⟨.http_response, readString mem 0⟩ ::
    if (strstr mem movedText).isSome then
      ⟨.http_response, readString mem 0⟩ ::
        (strstr mem locationText).elim [] fun i => cutAccesses mem (i + 10)
    else []

/-- `memcpy(response, http_response, http_received_bytes)`, unless `response` is `NULL`. -/
def copyAccesses (response : Option Bytes) (http_response : Bytes) : List BufferAccess :=
  response.elim [] fun _ =>
    [⟨.http_response, .read 0 http_response.length⟩, ⟨.response, .write 0 http_response.length⟩]

/-- One `recv`, and what follows the last one. -/
def recvAccesses (response : Option Bytes) (http_response : Bytes) (received : Received) (behind : Bytes) :
    List BufferAccess :=
  ⟨.http_response, .write http_response.length received.bytes.length⟩ ::
    if received.received ≤ 0 then
      copyAccesses response http_response ++ searchAccesses (responseMemory http_response behind)
    else []

/-- What a step shows. -/
def shown (s : State) (e : Event) (_ : State) : List BufferAccess :=
  match s.phase with
  | .calling host_name path redirect_count =>
    match e with
    | .opens a => openAccesses host_name path redirect_count a
    | .send _ | .recv _ _ => []
  | .sending c http_sent_bytes =>
    match e with
    | .send sent_bytes => sendAccesses c http_sent_bytes sent_bytes
    | .opens _ | .recv _ _ => []
  | .receiving _ http_response =>
    match e with
    | .recv received behind => recvAccesses s.response http_response received behind
    | .opens _ | .send _ => []
  | .returned _ => []

/-! ## The condition -/

/-- How many bytes the call is made for: those that are offered to `send`, or asked of `recv`. -/
def Phase.asked : Phase → ℕ
  | .sending c http_sent_bytes => c.httpRequest.length - http_sent_bytes
  | .receiving _ http_response => messageSize - http_response.length
  | .calling _ _ _ | .returned _ => 0

/-- `send` takes no more than it is offered, and `recv` gives no more than it is asked for. -/
def Allowed (s : State) : Event → Prop
  | .opens _ => True
  | .send sent_bytes => sent_bytes ≤ s.phase.asked
  | .recv received _ => received.bytes.length ≤ s.phase.asked

/-- A name that is looked up leaves room for the message about it if it is not found, and for the request if
its server is reached. -/
def NameFits (host_name path : Bytes) (redirect_count : ℕ) (a : Answers) : Prop :=
  ∀ s_port, Usable redirect_count a s_port →
    (a.addr_rc ≠ 0 → 28 + host_name.length < messageSize) ∧
      (a.addr_rc = 0 → 0 ≤ a.http_sock → a.con_rc = 0 → path.length + host_name.length + 44 < messageSize)

/-- A reply that fills the buffer has a NUL in it. -/
def ReplyFits (http_response : Bytes) (received : Received) : Prop :=
  received.received ≤ 0 → http_response.length < messageSize ∨ (0 : UInt8) ∈ http_response

/-- The name of this call fits. -/
def Phase.NameFits : Phase → Answers → Prop
  | .calling host_name path redirect_count, a => HttpRedirection.NameFits host_name path redirect_count a
  | .sending _ _, _ | .receiving _ _, _ | .returned _, _ => True

/-- The reply received so far fits, if it is all of it. -/
def Phase.ReplyFits : Phase → Received → Prop
  | .receiving _ http_response, received => HttpRedirection.ReplyFits http_response received
  | .calling _ _ _, _ | .sending _ _, _ | .returned _, _ => True

/-- **The condition on a step.** -/
def FitsBuffers (s : State) : Event → Prop
  | .opens a => s.phase.NameFits a
  | .send _ => True
  | .recv received _ => s.phase.ReplyFits received

/-! ## The spec lemmas -/

/-- **A text that is printed** stays in the buffer exactly when there is room for its NUL. -/
theorem inside_printAccesses_iff {buffer : Buffer} {text : Bytes} :
    (∀ a ∈ printAccesses buffer text, a.Inside) ↔ text.length < buffer.size := by
  rw [printAccesses, List.forall_mem_cons, List.forall_mem_cons, List.forall_mem_singleton]
  simp only [BufferAccess.Inside, inside_write, inside_read]
  omega

/-- A port has at most five digits. -/
theorem length_portText_lt (s_port : UInt16) : (portText s_port).length < Buffer.http_port.size := by
  have hlt : s_port.toNat < 10 ^ 5 := s_port.toNat_lt.trans (by decide)
  exact Nat.lt_succ_of_le (length_natText_le (by decide) hlt)

theorem length_tempText (host_name : Bytes) : (tempText host_name).length = 28 + host_name.length :=
  List.length_append

theorem length_requestText (path host_name : Bytes) :
    (requestText path host_name).length = path.length + host_name.length + 44 := by
  have hget : (ofText "GET ").length = 4 := by decide
  have hhost : (ofText " HTTP/1.1\r\nHost: ").length = 17 := by decide
  have hclose : (ofText "\r\nConnection: close\r\n\r\n").length = 23 := by decide
  rw [requestText, List.length_append, List.length_append, List.length_append, List.length_append, hget,
    hhost, hclose]
  omega

/-- **The start of a call** stays in the buffers exactly when the name fits. -/
theorem inside_openAccesses_iff (host_name path : Bytes) (redirect_count : ℕ) (a : Answers) :
    (∀ o ∈ openAccesses host_name path redirect_count a, o.Inside) ↔
      NameFits host_name path redirect_count a := by
  have hempty : ∀ o ∈ ([] : List BufferAccess), o.Inside := List.forall_mem_nil _
  unfold openAccesses
  split
  next hmany => exact iff_of_true hempty fun _ husable => absurd hmany (Nat.not_lt.mpr husable.few)
  next hfew =>
    split
    next hproto =>
      refine iff_of_true hempty fun _ husable => ?_
      rw [husable.proto] at hproto
      cases hproto
    next hproto =>
      split
      next hservice =>
        refine iff_of_true hempty fun _ husable => ?_
        rw [husable.service] at hservice
        cases hservice
      next s_port hservice =>
        have husable : Usable redirect_count a s_port :=
          ⟨Nat.not_lt.mp hfew, by simpa using hproto, hservice⟩
        have hnames : NameFits host_name path redirect_count a ↔
            (a.addr_rc ≠ 0 → 28 + host_name.length < messageSize) ∧
              (a.addr_rc = 0 → 0 ≤ a.http_sock → a.con_rc = 0 →
                path.length + host_name.length + 44 < messageSize) :=
          ⟨fun h => h s_port husable, fun h _ _ => h⟩
        -- the port always fits, so the name decides
        rw [List.forall_mem_append, and_iff_right (inside_printAccesses_iff.mpr (length_portText_lt s_port)),
          hnames]
        split
        next haddr =>
          rw [inside_printAccesses_iff, length_tempText]
          exact ⟨fun h => ⟨fun _ => h, fun hzero => absurd hzero haddr⟩, fun h => h.1 haddr⟩
        next haddr =>
          have haddr := not_not.mp haddr
          split
          next hsock =>
            refine iff_of_true hempty ⟨fun h => absurd haddr h, fun _ hpos => ?_⟩
            omega
          next hsock =>
            split
            next hcon => exact iff_of_true hempty ⟨fun h => absurd haddr h, fun _ _ h => absurd h hcon⟩
            next hcon =>
              rw [inside_printAccesses_iff, length_requestText]
              exact ⟨fun h => ⟨fun hne => absurd haddr hne, fun _ _ _ => h⟩,
                fun h => h.2 haddr (Int.not_lt.mp hsock) (not_not.mp hcon)⟩

/-- Cutting out the new host stays in the buffers if the reply is a string in its buffer. -/
theorem inside_cutAccesses {mem : Bytes} {start : ℕ} (hstart : start ≤ (cString mem).length)
    (h : (readString mem 0).Inside messageSize) : ∀ a ∈ cutAccesses mem start, a.Inside := by
  have hlen : (cString mem).length + 1 ≤ messageSize := by
    rw [readString, inside_read, List.drop_zero, zero_add] at h
    exact h
  have hread : (readString mem start).Inside messageSize := readString_drop_inside hstart h
  rw [cutAccesses, List.forall_mem_cons]
  refine ⟨hread, ?_⟩
  split
  next => exact List.forall_mem_nil _
  next len hcut =>
    -- the host ends before the line end that was found
    have hend := find_add_length_le hcut
    rw [cString_drop hstart, List.length_drop] at hend
    have hcrlf : crlf.length = 2 := rfl
    have hhost : (BufferAccess.mk .http_response (.read start len)).Inside := by
      show start + len ≤ messageSize
      omega
    have hcopy : (BufferAccess.mk .new_http_host (.write 0 len)).Inside := by
      show 0 + len ≤ messageSize
      omega
    have hnul : (BufferAccess.mk .new_http_host (.write len 1)).Inside := by
      show len + 1 ≤ messageSize
      omega
    rw [List.forall_mem_cons, List.forall_mem_cons, List.forall_mem_singleton]
    exact ⟨hhost, hcopy, hnul⟩

/-- **Searching the reply** stays in the buffers exactly when the reply is a string in its buffer. -/
theorem inside_searchAccesses_iff {mem : Bytes} :
    (∀ a ∈ searchAccesses mem, a.Inside) ↔ (readString mem 0).Inside messageSize := by
  rw [searchAccesses, List.forall_mem_cons]
  constructor
  · rintro ⟨hread, -⟩
    exact hread
  · intro hread
    refine ⟨hread, ?_⟩
    split
    next =>
      rw [List.forall_mem_cons]
      refine ⟨hread, ?_⟩
      rcases hlocation : strstr mem locationText with _ | i
      · exact List.forall_mem_nil _
      -- the host starts in the string, because `Location: ` ends in it
      · have hstart := find_add_length_le hlocation
        exact inside_cutAccesses hstart hread
    next => exact List.forall_mem_nil _

/-- **One `recv`** stays in the buffers exactly when the reply fits, in case it was the last one. -/
theorem inside_recvAccesses_iff {response : Option Bytes} {http_response : Bytes} {received : Received}
    (hlen : http_response.length ≤ messageSize)
    (hreceived : received.bytes.length ≤ messageSize - http_response.length) (behind : Bytes) :
    (∀ a ∈ recvAccesses response http_response received behind, a.Inside) ↔
      ReplyFits http_response received := by
  have hwrite : (BufferAccess.mk .http_response
      (.write http_response.length received.bytes.length)).Inside := by
    show http_response.length + received.bytes.length ≤ messageSize
    omega
  have hcopy : ∀ a ∈ copyAccesses response http_response, a.Inside := by
    have hinside : 0 + http_response.length ≤ messageSize := by omega
    rcases response with _ | old
    · exact List.forall_mem_nil _
    · rw [copyAccesses, Option.elim_some, List.forall_mem_cons, List.forall_mem_singleton]
      exact ⟨hinside, hinside⟩
  rw [recvAccesses, List.forall_mem_cons, and_iff_right hwrite, ReplyFits]
  split
  next hend =>
    rw [List.forall_mem_append, and_iff_right hcopy, inside_searchAccesses_iff, responseMemory,
      readString_bufferMemory_iff hlen]
    exact ⟨fun h _ => h, fun h => h hend⟩
  next hmore => exact iff_of_true (List.forall_mem_nil _) fun hend => absurd hend hmore

/-- One `send` reads what is left of the request. -/
theorem inside_sendAccesses {c : Connection} {http_sent_bytes : ℕ} {sent_bytes : Int}
    (hsent : http_sent_bytes ≤ c.httpRequest.length) (hfits : c.httpRequest.length ≤ messageSize) :
    ∀ a ∈ sendAccesses c http_sent_bytes sent_bytes, a.Inside := by
  have hread : (BufferAccess.mk .http_request
      (.read http_sent_bytes (c.httpRequest.length - http_sent_bytes))).Inside := by
    show http_sent_bytes + (c.httpRequest.length - http_sent_bytes) ≤ messageSize
    omega
  rw [sendAccesses, List.forall_mem_cons]
  refine ⟨hread, ?_⟩
  split
  · rw [List.forall_mem_singleton]
    exact (Nat.zero_add messageSize).le
  · exact List.forall_mem_nil _

/-! ## The run -/

/-- What the function knows of its buffers between two answers. -/
def BufferInv (s : State) : Prop :=
  match s.phase with
  | .calling _ _ _ | .returned _ => True
  | .sending c http_sent_bytes =>
    c.httpRequest.length ≤ messageSize ∧ http_sent_bytes ≤ c.httpRequest.length
  | .receiving _ http_response => http_response.length ≤ messageSize

/-- The invariant of a state in a given phase. -/
theorem bufferInv_sending {s : State} {c : Connection} {http_sent_bytes : ℕ}
    (hphase : s.phase = .sending c http_sent_bytes) :
    BufferInv s ↔ c.httpRequest.length ≤ messageSize ∧ http_sent_bytes ≤ c.httpRequest.length := by
  rw [BufferInv, hphase]

theorem bufferInv_receiving {s : State} {c : Connection} {http_response : Bytes}
    (hphase : s.phase = .receiving c http_response) : BufferInv s ↔ http_response.length ≤ messageSize := by
  rw [BufferInv, hphase]

/-- **The step lemma**: a step stays in the buffers exactly when it meets the condition. -/
theorem inside_step_iff {s t : State} {e : Event} (hs : BufferInv s) (hok : Allowed s e)
    (h : step s e = some t) : (∀ o ∈ shown s e t, o.Inside) ↔ FitsBuffers s e := by
  rcases hphase : s.phase with ⟨host_name, path, redirect_count⟩ | ⟨c, http_sent_bytes⟩ |
    ⟨c, http_response⟩ | result
  · rcases e with a | sent_bytes | ⟨received, behind⟩
    case opens =>
      simp only [shown, FitsBuffers, hphase]
      exact inside_openAccesses_iff host_name path redirect_count a
    all_goals simp [step, hphase] at h
  · rcases e with a | sent_bytes | ⟨received, behind⟩
    case send =>
      obtain ⟨hfits, hsent⟩ := (bufferInv_sending hphase).mp hs
      simp only [shown, FitsBuffers, hphase]
      exact iff_of_true (inside_sendAccesses hsent hfits) trivial
    all_goals simp [step, hphase] at h
  · rcases e with a | sent_bytes | ⟨received, behind⟩
    case recv =>
      simp only [Allowed, hphase] at hok
      simp only [shown, FitsBuffers, hphase]
      exact inside_recvAccesses_iff ((bufferInv_receiving hphase).mp hs) hok behind
    all_goals simp [step, hphase] at h
  · simp [step, hphase] at h

/-- The invariant holds behind a step that meets the condition. -/
theorem bufferInv_of_step {s t : State} {e : Event} (hs : BufferInv s) (hok : Allowed s e)
    (hfits : FitsBuffers s e) (h : step s e = some t) : BufferInv t := by
  rcases Step.of_step h with ⟨-, -⟩ | ⟨-, -, -⟩ | ⟨-, -, -⟩ | ⟨-, -, -, -⟩ | ⟨-, -, -, -, -⟩ |
    ⟨hphase, husable, haddr, hsock, hcon⟩ | ⟨-, -⟩ | ⟨hphase, -, hmore⟩ | ⟨hphase, -, hall⟩ |
    ⟨hphase, hpos⟩ | ⟨-, -, -⟩ | ⟨-, -, -⟩
  case connects a s_port =>
    simp only [FitsBuffers, hphase] at hfits
    have hlen := (hfits s_port husable).2 haddr hsock hcon
    refine ⟨?_, Nat.zero_le _⟩
    show (requestText _ _).length ≤ messageSize
    rw [length_requestText]
    exact hlen.le
  case sends => exact ⟨((bufferInv_sending hphase).mp hs).1, hmore.le⟩
  case sendsLast => exact Nat.zero_le messageSize
  case receives c http_response behind received =>
    have hlen := (bufferInv_receiving hphase).mp hs
    simp only [Allowed, hphase, Phase.asked] at hok
    show (http_response ++ received.bytes).length ≤ messageSize
    rw [List.length_append]
    omega
  all_goals trivial

/-! ## The calls of `main` -/

/-- The paths `main` asks for. -/
def mainPaths : List Bytes := [ofText "/200", ofText "/301", ofText "/403", ofText "/404"]

/-- The call `main` makes with this path. -/
def mainCall (path response : Bytes) : State := init cppHostname path (some response) 0

/-- The call has not been made by the function itself. -/
def Phase.isFirstCall : Phase → Bool
  | .calling _ _ redirect_count => redirect_count = 0
  | .sending _ _ | .receiving _ _ | .returned _ => false

/-- **The condition on a run of `main`**: the names that are cut out of replies fit, and the replies do. -/
def RepliesFit (s : State) (e : Event) : Prop := s.phase.isFirstCall = false → FitsBuffers s e

instance (a : BufferAccess) : Decidable a.Inside := inferInstanceAs (Decidable (a.access.Inside _))

instance (s : State) : (e : Event) → Decidable (Allowed s e)
  | .opens _ => isTrue trivial
  | .send sent_bytes => inferInstanceAs (Decidable (sent_bytes ≤ s.phase.asked))
  | .recv received _ => inferInstanceAs (Decidable (received.bytes.length ≤ s.phase.asked))

instance : (phase : Phase) → (a : Answers) → Decidable (phase.NameFits a)
  | .calling host_name path redirect_count, a =>
    decidable_of_iff _ (inside_openAccesses_iff host_name path redirect_count a)
  | .sending _ _, _ | .receiving _ _, _ | .returned _, _ => isTrue trivial

instance : (phase : Phase) → (received : Received) → Decidable (phase.ReplyFits received)
  | .receiving _ http_response, received =>
    inferInstanceAs (Decidable
      (received.received ≤ 0 → http_response.length < messageSize ∨ (0 : UInt8) ∈ http_response))
  | .calling _ _ _, _ | .sending _ _, _ | .returned _, _ => isTrue trivial

instance (s : State) : (e : Event) → Decidable (FitsBuffers s e)
  | .opens a => inferInstanceAs (Decidable (s.phase.NameFits a))
  | .send _ => isTrue trivial
  | .recv received _ => inferInstanceAs (Decidable (s.phase.ReplyFits received))

instance (s : State) (e : Event) : Decidable (RepliesFit s e) :=
  inferInstanceAs (Decidable (s.phase.isFirstCall = false → FitsBuffers s e))

/-- What `main` asks for fits. -/
theorem nameFits_main {path : Bytes} (hpath : path ∈ mainPaths) (a : Answers) :
    NameFits cppHostname path 0 a := by
  have hlen : path.length = 4 := by
    have hall : ∀ path ∈ mainPaths, path.length = 4 := by decide
    exact hall path hpath
  have hhost : cppHostname.length = 11 := by decide
  intro s_port _
  rw [hhost, hlen]
  exact ⟨fun _ => by decide, fun _ _ _ => by decide⟩

/-- The arguments of the first call are those of `main`. -/
def MainInv (path : Bytes) (s : State) : Prop :=
  BufferInv s ∧ ∀ host_name path', s.phase = .calling host_name path' 0 →
    host_name = cppHostname ∧ path' = path

/-- The two conditions agree in a run of `main`. -/
theorem repliesFit_iff {path : Bytes} (hpath : path ∈ mainPaths) {s : State} (hs : MainInv path s)
    (e : Event) : FitsBuffers s e ↔ RepliesFit s e := by
  refine ⟨fun h _ => h, fun h => ?_⟩
  by_cases hfirst : s.phase.isFirstCall = false
  · exact h hfirst
  · rcases hphase : s.phase with ⟨host_name, path', redirect_count⟩ | ⟨c, http_sent_bytes⟩ |
      ⟨c, http_response⟩ | result
    case calling =>
      -- the first call is that of `main`
      obtain rfl : redirect_count = 0 := by simpa [Phase.isFirstCall, hphase] using hfirst
      obtain ⟨rfl, rfl⟩ := hs.2 _ _ hphase
      rcases e with a | sent_bytes | ⟨received, behind⟩
      · rw [FitsBuffers, hphase]
        exact nameFits_main hpath a
      · trivial
      · rw [FitsBuffers, hphase]
        trivial
    all_goals exact absurd (by rw [hphase]; rfl) hfirst

theorem mainInv_of_step {path : Bytes} {s t : State} {e : Event} (hs : MainInv path s) (hok : Allowed s e)
    (hfits : FitsBuffers s e) (h : step s e = some t) : MainInv path t := by
  refine ⟨bufferInv_of_step hs.1 hok hfits h, fun host_name path' hphase => ?_⟩
  rcases Step.of_step h with ⟨-, -⟩ | ⟨-, -, -⟩ | ⟨-, -, -⟩ | ⟨-, -, -, -⟩ | ⟨-, -, -, -, -⟩ |
    ⟨-, -, -, -, -⟩ | ⟨-, -⟩ | ⟨-, -, -⟩ | ⟨-, -, -⟩ | ⟨-, -⟩ | ⟨-, -, -⟩ | ⟨-, -, -⟩
  -- the calls the function makes itself count from 1
  all_goals cases hphase

theorem mainInv_mainCall (path response : Bytes) : MainInv path (mainCall path response) := by
  refine ⟨trivial, fun host_name path' hphase => ?_⟩
  cases hphase
  exact ⟨rfl, rfl⟩

/-- The step lemma for a run of `main`. -/
theorem inside_main_step {path : Bytes} (hpath : path ∈ mainPaths) (s : State) (e : Event) (t : State)
    (hs : MainInv path s) (hok : Allowed s e) (h : step s e = some t) :
    ((∀ o ∈ shown s e t, o.Inside) ↔ RepliesFit s e) ∧ (RepliesFit s e → MainInv path t) := by
  have hiff := repliesFit_iff hpath hs e
  exact ⟨(inside_step_iff hs.1 hok h).trans hiff, fun hfits => mainInv_of_step hs hok (hiff.mpr hfits) h⟩

/-- **When names and replies stay in their buffers.** For every call `main` makes, whatever the resolver, the
sockets and the servers answer: at every depth every access stays in its buffer if and only if each name that
is cut out of a reply fits into the text it is printed in, and each reply that fills the buffer has a NUL. -/
theorem buffers_iff {path : Bytes} (hpath : path ∈ mainPaths) (response : Bytes) {es : List Event} {t : State}
    (h : Run step Allowed (mainCall path response) es t) :
    (∀ o ∈ observations step shown (mainCall path response) es, o.Inside) ↔
      Run step RepliesFit (mainCall path response) es t :=
  h.forall_observations_iff (inside_main_step hpath) (mainInv_mainCall path response)

/-- The buffer of `main` after `memset`. -/
def zeroedResponse : Bytes := List.replicate messageSize 0

/-- A server of this address is reached. -/
def reached (http_addr : ℕ) (http_sock : Int) : Event := .opens ⟨true, some 80, 0, http_addr, http_sock, 0⟩

/-- `/301` is redirected to `example.org`, and a page comes from there. -/
def redirected : List Event :=
  [reached 1 3, .send 30, .send 29,
    .recv (.data (ofText "HTTP/1.1 301 Moved Permanently\r\n")) [],
    .recv (.data (ofText "Location: example.org\r\n\r\n")) [], .recv (.data []) [],
    reached 2 4, .send 56, .recv (.data (ofText "HTTP/1.1 200 OK\r\n\r\n")) [], .recv (.data []) []]

theorem buffers_iff_redirected :
    ∃ t, Run step RepliesFit (mainCall (ofText "/301") zeroedResponse) redirected t ∧
      ∀ o ∈ observations step shown (mainCall (ofText "/301") zeroedResponse) redirected, o.Inside := by
  have hexec : (execOk step (fun s e => Allowed s e ∧ RepliesFit s e)
      (mainCall (ofText "/301") zeroedResponse) redirected).isSome = true := by decide
  obtain ⟨t, hrun⟩ := exists_run_of_exec hexec
  have hfits : Run step RepliesFit (mainCall (ofText "/301") zeroedResponse) redirected t :=
    hrun.mono fun _ _ hok => hok.2
  exact ⟨t, hfits, (buffers_iff (by decide) _ (hrun.mono fun _ _ hok => hok.1)).mpr hfits⟩

/-- A reply is received as a whole, after the request for `/200`. -/
def replies (reply : Bytes) : List Event := [reached 1 3, .send 59, .recv (.data reply) []]

/-- The connection of that request. -/
def firstConnection : Connection := ⟨cppHostname, ofText "/200", 0, 1, 3⟩

/-- Any reply of at most `MESSAGE_SIZE` bytes can be the one that is received. -/
theorem exists_run_replies {reply : Bytes} (hne : reply ≠ []) (hlen : reply.length ≤ messageSize)
    (response : Bytes) : ∃ t, t.phase = .receiving firstConnection reply ∧
      Run step Allowed (mainCall (ofText "/200") response) (replies reply) t := by
  have hpos := not_received_nonpos hne
  refine ⟨_, ?_, .cons trivial rfl (.cons ?_ rfl (.cons ?_ rfl (.nil _)))⟩
  · show (recvReturns _ firstConnection [] (.data reply) []).phase = _
    rw [recvReturns, if_neg hpos]
    rfl
  · show (59 : Int) ≤ (59 : ℕ)
    decide
  · exact hlen

/-- **A reply of `MESSAGE_SIZE` bytes without NUL** is searched beyond its buffer. -/
theorem full_reply_overrun :
    ¬ ∀ path ∈ mainPaths, ∀ (response : Bytes) (es : List Event) (t : State),
      Run step Allowed (mainCall path response) es t →
      ∀ o ∈ observations step shown (mainCall path response) es, o.Inside := by
  intro hall
  have hpath : ofText "/200" ∈ mainPaths := by decide
  have hlen : (List.replicate messageSize (65 : UInt8)).length = messageSize := List.length_replicate
  have hne : List.replicate messageSize (65 : UInt8) ≠ [] := by
    intro hnil
    rw [hnil] at hlen
    cases hlen
  obtain ⟨u, hphase, hrun⟩ := exists_run_replies hne hlen.le zeroedResponse
  -- the buffer is full, and `recv` has nothing more to give
  have hend : step u (.recv (.data []) []) =
      some (recvReturns u firstConnection (List.replicate messageSize 65) (.data []) []) := by
    simp only [step, hphase]
  have hokEnd : Allowed u (.recv (.data []) []) := Nat.zero_le _
  have hwhole := hrun.append (.cons hokEnd hend (.nil _))
  have hfits := (hwhole.forall_observations_iff (inside_main_step hpath) (mainInv_mainCall _ zeroedResponse)).mp
    (hall _ hpath zeroedResponse _ _ hwhole)
  have hlast : RepliesFit u (.recv (.data []) []) := hrun.ok_of_append hfits
  rw [RepliesFit, FitsBuffers, hphase] at hlast
  rcases hlast rfl le_rfl with hshort | hnul
  · omega
  · have hzero := (List.mem_replicate.mp hnul).2
    exact absurd hzero (by decide)

end LinuxNet.Tutorials.HttpRedirection
