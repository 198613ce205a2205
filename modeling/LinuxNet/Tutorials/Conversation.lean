/-
# LinuxNet.Tutorials.Conversation — a client and its server over two byte streams

The interactive clients of the multithreading, the select and the poll tutorial are one program: read a
line, send it, wait for one answer, show it. What the three servers do with one client is one loop as
well: receive a request, send a reply, perhaps close. They differ in the reply and in when they close
(`Service`).

A conversation is the product of the two loops with a byte stream in each direction. A stream has no
message boundaries: `recv` takes any non-empty prefix of the bytes pending, at most `MESSAGE_SIZE`, and
returns 0 once the other side has closed and nothing is pending. `send` may take fewer bytes than it was
given, or none.

The conversation cannot get stuck with both sides in `recv` as long as no request is empty and no reply
gets lost (`not_deadlock_of_reach`). A request of length 0 is the exception: `send` answers 0, which is
the length of the request, so the client takes it for sent and waits.
-/
import LinuxNet.Tutorials.PollServer.Loop

namespace LinuxNet.Tutorials.Conversation

open LinuxNet.Lib LinuxNet.Posix
open LinuxNet.Tutorials.PollServer (responseText disconnects)

/-- `MESSAGE_SIZE`. -/
def messageSize : ℕ := 1024

/-! ## The servers as one client sees them -/

/-- **`Service`** — what a server does with a request. -/
structure Service where
  /-- the bytes given to `send`, for what `time(NULL)` answers and the request as a C string -/
  reply : Int → Bytes → Bytes
  /-- whether the socket is closed then, for the request and what `send` answered -/
  closes : Bytes → Int → Bool
  reply_ne_nil : ∀ time request, reply time request ≠ []

/-- `response_buffer` after `memset` and a `sprintf` of this text. -/
def buffered (text : Bytes) : Bytes := text ++ List.replicate (messageSize - text.length) 0

/-- Whether a request ends the conversation for `server_handle_client`, and for the client. -/
def leaves (request : Bytes) : Bool :=
  request == ofText "exit" || request == ofText "quit" || request == ofText "shutdown"

/-- The text `server_handle_client` answers with. `%d` shows the low 32 bits of the time. -/
def replyText (time : Int) (request : Bytes) : Bytes :=
  if leaves request then ofText "OK"
  else if request = ofText "time" then intText (BitVec.ofInt 32 time).toInt
  else ofText "Unknown request"

theorem replyText_ne_nil (time : Int) (request : Bytes) : replyText time request ≠ [] := by
  unfold replyText
  split
  · decide
  · split
    · exact intText_ne_nil _
    · decide

/-- `server_handle_client` of `09_multithread_client_server.c`: it sends the whole buffer, and does not
look at what `send` answers before it goes on. -/
def serverHandleClient : Service where
  reply time request := buffered (replyText time request)
  closes request _ := leaves request
  reply_ne_nil time request := by
    intro h
    exact replyText_ne_nil time request (List.append_eq_nil_iff.mp h).1

/-- The client loops of the select and of the poll server: every request is answered with the time. -/
def multiplexed : Service where
  reply time _ := responseText time
  closes request rc := rc ≤ 0 || request == ofText "quit" || request == ofText "exit"
  reply_ne_nil time _ := by
    intro h
    exact absurd (List.append_eq_nil_iff.mp h).1 (by decide)

/-- The poll loop closes a client that sent something exactly when `multiplexed` says so. -/
theorem disconnects_eq {bytes : Bytes} (hne : bytes ≠ []) (sent_bytes : Int) :
    disconnects (.data bytes) sent_bytes = multiplexed.closes (cString bytes) sent_bytes := by
  have hpos := not_received_nonpos hne
  simp [disconnects, multiplexed, PollServer.requestIs, hpos, Received.bytes]

/-- The programs that have such a client. -/
inductive Program where
  | multithread
  | select
  | poll
  deriving DecidableEq, Repr

/-- The server of a program. -/
def Program.service : Program → Service
  | .multithread => serverHandleClient
  | .select => multiplexed
  | .poll => multiplexed

/-! ## The conversation -/

/-- Where the client loop is. -/
inductive ClientPhase where
  /-- in `fgets` -/
  | typing
  /-- before `send` of this request -/
  | sending (request : Bytes)
  /-- in `recv`, after this request -/
  | waiting (request : Bytes)
  /-- after the loop -/
  | left
  deriving DecidableEq, Repr

/-- Where the server is with this client. -/
inductive ServerPhase where
  /-- waiting for a request -/
  | receiving
  /-- before `send` of the reply to this request -/
  | replying (request : Bytes)
  /-- the socket is closed -/
  | closed
  /-- the loop is left, the socket is not closed -/
  | left
  deriving DecidableEq, Repr

/-- The two loops and the bytes under way in each direction. The last three fields are what happened so
far, oldest first: the requests typed, the requests answered (each with the time at that point), and the
texts shown. -/
structure State where
  client : ClientPhase
  server : ServerPhase
  toServer : Bytes
  toClient : Bytes
  commands : List Bytes
  answered : List (Int × Bytes)
  displayed : List Bytes
  deriving DecidableEq

/-- The connection is established. -/
def init : State where
  client := .typing
  server := .receiving
  toServer := []
  toClient := []
  commands := []
  answered := []
  displayed := []

/-- What happens next. -/
inductive Event where
  /-- `fgets` stores this line (nothing at the end of the input) -/
  | types (line : Bytes)
  /-- `send` of the client answers -/
  | clientSends (sent_bytes : Int)
  /-- `recv` of the server takes this many bytes -/
  | serverReceives (n : ℕ)
  /-- the time the server asks for, and what its `send` answers -/
  | serverSends (time : Int) (rc : Int)
  /-- `recv` of the client takes this many bytes -/
  | clientReceives (n : ℕ)
  /-- `recv` of the client finds the connection closed -/
  | clientSeesEnd
  /-- `recv` of the server finds the connection closed -/
  | serverSeesEnd

/-- `request_buffer[strcspn(request_buffer, "\r\n")] = 0`: the request in a line. -/
def requestOf (line : Bytes) : Bytes := (cString line).takeWhile fun b => b ≠ cr ∧ b ≠ lf

/-- The client after an answer to this request. -/
def afterAnswer (request : Bytes) : ClientPhase := if leaves request then .left else .typing

/-- `recv` can take `n` of these bytes. -/
def CanReceive (pending : Bytes) (n : ℕ) : Prop := 1 ≤ n ∧ n ≤ pending.length ∧ n ≤ messageSize

instance (pending : Bytes) (n : ℕ) : Decidable (CanReceive pending n) :=
  inferInstanceAs (Decidable (1 ≤ n ∧ n ≤ pending.length ∧ n ≤ messageSize))

theorem not_canReceive_nil (n : ℕ) : ¬ CanReceive [] n := by
  rintro ⟨hpos, hle, -⟩
  exact absurd (hpos.trans hle) (by decide)

/-- **One step of the conversation.** -/
def step (service : Service) (s : State) : Event → Option State
  | .types line =>
    match s.client with
    | .typing =>
      if line.length < messageSize then
        some { s with client := .sending (requestOf line), commands := s.commands ++ [requestOf line] }
      else none
    | _ => none
  | .clientSends sent_bytes =>
    match s.client with
    | .sending request =>
      if sent_bytes ≤ request.length then
        some { s with
          -- a short count is reported, and the next line is read
          client := if sent_bytes = request.length then .waiting request else .typing
          toServer := s.toServer ++ request.take sent_bytes.toNat }
      else none
    | _ => none
  | .serverReceives n =>
    match s.server with
    | .receiving =>
      if CanReceive s.toServer n then
        some { s with
          server := .replying (cString (s.toServer.take n))
          toServer := s.toServer.drop n }
      else none
    | _ => none
  | .serverSends time rc =>
    match s.server with
    | .replying request =>
      if rc ≤ (service.reply time request).length then
        some { s with
          server := if service.closes request rc then .closed else .receiving
          toClient := s.toClient ++ (service.reply time request).take rc.toNat
          answered := s.answered ++ [(time, request)] }
      else none
    | _ => none
  | .clientReceives n =>
    match s.client with
    | .waiting request =>
      if CanReceive s.toClient n then
        some { s with
          client := afterAnswer request
          toClient := s.toClient.drop n
          displayed := s.displayed ++ [cString (s.toClient.take n)] }
      else none
    | _ => none
  | .clientSeesEnd =>
    match s.client, s.server with
    | .waiting request, .closed =>
      -- closing with requests unread resets the connection
      if s.toClient = [] ∨ s.toServer ≠ [] then some { s with client := afterAnswer request } else none
    | _, _ => none
  | .serverSeesEnd =>
    match s.client, s.server with
    | .left, .receiving => if s.toServer = [] then some { s with server := .left } else none
    | _, _ => none

/-! ## What a step can do -/

/-- **`Step service s e t`** — everything one step can do. -/
inductive Step (service : Service) (s : State) : Event → State → Prop
  | types {line : Bytes} (hclient : s.client = .typing) (hlen : line.length < messageSize) :
      Step service s (.types line)
        { s with client := .sending (requestOf line), commands := s.commands ++ [requestOf line] }
  | sends {request : Bytes} (hclient : s.client = .sending request) :
      Step service s (.clientSends request.length)
        { s with client := .waiting request, toServer := s.toServer ++ request }
  | fallsShort {request : Bytes} {sent_bytes : Int} (hclient : s.client = .sending request)
      (hshort : sent_bytes < request.length) :
      Step service s (.clientSends sent_bytes)
        { s with client := .typing, toServer := s.toServer ++ request.take sent_bytes.toNat }
  | serverReceives {n : ℕ} (hserver : s.server = .receiving) (hn : CanReceive s.toServer n) :
      Step service s (.serverReceives n)
        { s with server := .replying (cString (s.toServer.take n)), toServer := s.toServer.drop n }
  | serverSends {request : Bytes} {time rc : Int} (hserver : s.server = .replying request)
      (hrc : rc ≤ (service.reply time request).length) :
      Step service s (.serverSends time rc)
        { s with
          server := if service.closes request rc then .closed else .receiving
          toClient := s.toClient ++ (service.reply time request).take rc.toNat
          answered := s.answered ++ [(time, request)] }
  | clientReceives {request : Bytes} {n : ℕ} (hclient : s.client = .waiting request)
      (hn : CanReceive s.toClient n) :
      Step service s (.clientReceives n)
        { s with
          client := afterAnswer request
          toClient := s.toClient.drop n
          displayed := s.displayed ++ [cString (s.toClient.take n)] }
  | clientSeesEnd {request : Bytes} (hclient : s.client = .waiting request)
      (hserver : s.server = .closed) (hend : s.toClient = [] ∨ s.toServer ≠ []) :
      Step service s .clientSeesEnd { s with client := afterAnswer request }
  | serverSeesEnd (hclient : s.client = .left) (hserver : s.server = .receiving)
      (hnone : s.toServer = []) : Step service s .serverSeesEnd { s with server := .left }

/-- **The inversion lemma.** -/
theorem Step.of_step {service : Service} {s t : State} {e : Event} (h : step service s e = some t) :
    Step service s e t := by
  rcases e with line | sent_bytes | n | ⟨time, rc⟩ | n | _ | _
  · rcases hclient : s.client with _ | request | request | _
    case typing =>
      simp only [step, hclient] at h
      split at h
      next hlen =>
        cases h
        exact .types hclient hlen
      next => cases h
    all_goals simp [step, hclient] at h
  · rcases hclient : s.client with _ | request | request | _
    case sending =>
      simp only [step, hclient] at h
      split at h
      next hle =>
        cases h
        by_cases heq : sent_bytes = request.length
        · subst heq
          rw [if_pos rfl, Int.toNat_natCast, List.take_length]
          exact .sends hclient
        · rw [if_neg heq]
          exact .fallsShort hclient (by omega)
      next => cases h
    all_goals simp [step, hclient] at h
  · rcases hserver : s.server with _ | request | _ | _
    case receiving =>
      simp only [step, hserver] at h
      split at h
      next hn =>
        cases h
        exact .serverReceives hserver hn
      next => cases h
    all_goals simp [step, hserver] at h
  · rcases hserver : s.server with _ | request | _ | _
    case replying =>
      simp only [step, hserver] at h
      split at h
      next hrc =>
        cases h
        exact .serverSends hserver hrc
      next => cases h
    all_goals simp [step, hserver] at h
  · rcases hclient : s.client with _ | request | request | _
    case waiting =>
      simp only [step, hclient] at h
      split at h
      next hn =>
        cases h
        exact .clientReceives hclient hn
      next => cases h
    all_goals simp [step, hclient] at h
  · rcases hclient : s.client with _ | request | request | _
    case waiting =>
      rcases hserver : s.server with _ | _ | _ | _
      case closed =>
        simp only [step, hclient, hserver] at h
        split at h
        next hend =>
          cases h
          rw [← hserver]
          exact .clientSeesEnd hclient hserver hend
        next => cases h
      all_goals simp [step, hclient, hserver] at h
    all_goals simp [step, hclient] at h
  · rcases hclient : s.client with _ | request | request | _
    case left =>
      rcases hserver : s.server with _ | _ | _ | _
      case receiving =>
        simp only [step, hclient, hserver] at h
        split at h
        next hnone =>
          cases h
          rw [← hclient]
          exact .serverSeesEnd hclient hserver hnone
        next => cases h
      all_goals simp [step, hclient, hserver] at h
    all_goals simp [step, hclient] at h

/-! ## Both sides in `recv` -/

/-- **`Deadlock s`** — the client waits for an answer, the server waits for a request, and nothing is under
way in either direction. -/
def Deadlock (s : State) : Prop :=
  (∃ request, s.client = .waiting request) ∧ s.server = .receiving ∧ s.toServer = [] ∧ s.toClient = []

/-- Nothing happens in a deadlock any more. -/
theorem Deadlock.step_eq_none {service : Service} {s : State} (h : Deadlock s) (e : Event) :
    step service s e = none := by
  obtain ⟨⟨request, hclient⟩, hserver, htoServer, htoClient⟩ := h
  rcases e with line | sent_bytes | n | ⟨time, rc⟩ | n | _ | _
  · simp only [step, hclient]
  · simp only [step, hclient]
  · simp only [step, hserver, htoServer, if_neg (not_canReceive_nil n)]
  · simp only [step, hserver]
  · simp only [step, hclient, htoClient, if_neg (not_canReceive_nil n)]
  · simp only [step, hclient, hserver]
  · simp only [step, hclient]

/-- **The condition**: no line gives an empty request, and the multithreaded server loses no reply after
which it goes on. -/
def Answered (program : Program) (s : State) : Event → Prop
  | .types line => requestOf line ≠ []
  | .serverSends _ rc => program = .multithread →
      ∀ request, s.server = .replying request → leaves request = false → 0 < rc
  | _ => True

/-- A server that keeps the socket open has sent something: the select and the poll server see to that
themselves. -/
theorem pos_of_not_closes {program : Program} {s : State} {request : Bytes} {time rc : Int}
    (hok : Answered program s (.serverSends time rc)) (hserver : s.server = .replying request)
    (hopen : program.service.closes request rc = false) : 0 < rc := by
  have hmultiplexed (h : multiplexed.closes request rc = false) : 0 < rc := by
    simp only [multiplexed, Bool.or_eq_false_iff, decide_eq_false_iff_not] at h
    omega
  rcases program with _ | _ | _
  · exact hok rfl request hserver hopen
  · exact hmultiplexed hopen
  · exact hmultiplexed hopen

/-- What keeps the conversation going: a client that waits has something to wait for. -/
structure Alive (s : State) : Prop where
  sending : ∀ request, s.client = .sending request → request ≠ []
  waiting : ∀ request, s.client = .waiting request →
    s.toServer ≠ [] ∨ s.toClient ≠ [] ∨
      (∃ request', s.server = .replying request') ∨ s.server = .closed

theorem Alive.not_deadlock {s : State} (hs : Alive s) : ¬ Deadlock s := by
  rintro ⟨⟨request, hclient⟩, hserver, htoServer, htoClient⟩
  rcases hs.waiting request hclient with h | h | ⟨request', h⟩ | h
  · exact h htoServer
  · exact h htoClient
  · rw [hserver] at h
    cases h
  · rw [hserver] at h
    cases h

theorem alive_init : Alive init where
  sending _ h := nomatch h
  waiting _ h := nomatch h

/-- A client in `fgets`, or after its loop, waits for nothing. -/
theorem alive_of_idle {s : State} (h : s.client = .typing ∨ s.client = .left) : Alive s where
  sending request hclient := by
    rcases h with h | h
    all_goals
      rw [h] at hclient
      cases hclient
  waiting request hclient := by
    rcases h with h | h
    all_goals
      rw [h] at hclient
      cases hclient

theorem afterAnswer_idle (request : Bytes) : afterAnswer request = .typing ∨ afterAnswer request = .left := by
  unfold afterAnswer
  split
  · exact .inr rfl
  · exact .inl rfl

/-- **The step lemma.** -/
theorem Alive.of_step {program : Program} {s t : State} {e : Event} (hs : Alive s)
    (hok : Answered program s e) (h : step program.service s e = some t) : Alive t := by
  rcases Step.of_step h with ⟨hclient, -⟩ | ⟨hclient⟩ | ⟨hclient, -⟩ | ⟨hserver, hn⟩ |
    @⟨request, time, rc, hserver, hrc⟩ | @⟨request, n, hclient, hn⟩ |
    @⟨request, hclient, hserver, hend⟩ | ⟨hclient, hserver, hnone⟩
  · refine ⟨fun request h => ?_, fun request h => nomatch h⟩
    obtain rfl := ClientPhase.sending.inj h
    exact hok
  · refine ⟨(fun request h => nomatch h), fun request h => Or.inl ?_⟩
    show s.toServer ++ _ ≠ []
    exact List.append_ne_nil_of_right_ne_nil _ (hs.sending _ hclient)
  · exact alive_of_idle (.inl rfl)
  · exact ⟨hs.sending, fun request h => Or.inr (.inr (.inl ⟨_, rfl⟩))⟩
  · refine ⟨hs.sending, fun request' h => ?_⟩
    rcases hcloses : program.service.closes request rc with _ | _
    · -- the socket stays open, so the reply is under way
      have hpos := pos_of_not_closes hok hserver hcloses
      refine .inr (.inl ?_)
      show s.toClient ++ (program.service.reply time request).take rc.toNat ≠ []
      apply List.append_ne_nil_of_right_ne_nil
      rw [Ne, List.take_eq_nil_iff, not_or]
      exact ⟨by omega, program.service.reply_ne_nil time request⟩
    · refine .inr (.inr (.inr ?_))
      show (if true then ServerPhase.closed else .receiving) = .closed
      rfl
  · exact alive_of_idle (afterAnswer_idle request)
  · exact alive_of_idle (afterAnswer_idle request)
  · exact alive_of_idle (.inr hclient)

/-- **No deadlock** between the client and any of the three servers, in a run in which no line gives an
empty request and no reply gets lost: whatever else is typed, and however the bytes are delivered. -/
theorem not_deadlock_of_reach (program : Program) {s : State}
    (h : Reach (step program.service) (Answered program) init s) : ¬ Deadlock s := by
  refine (h.invariant (I := Alive) ?_ alive_init).not_deadlock
  intro s e t hs hok hstep
  exact hs.of_step hok hstep

/-- The client of the multithreaded server asks for the time and waits, its request under way. -/
theorem not_deadlock_of_reach_time :
    ∃ s, Reach (step serverHandleClient) (Answered .multithread) init s ∧
      s.client = .waiting (ofText "time") ∧ ¬ Deadlock s := by
  have hok : Answered .multithread init (.types (ofText "time\n")) := by
    show requestOf (ofText "time\n") ≠ []
    decide
  have hrequest : requestOf (ofText "time\n") = ofText "time" := by decide
  have htypes : step serverHandleClient init (.types (ofText "time\n")) =
      some { init with client := .sending (ofText "time"), commands := [ofText "time"] } := by
    rw [← hrequest]
    rfl
  have hreach := (Reach.single hok htypes).trans (.single (e := .clientSends 4) trivial rfl)
  exact ⟨_, hreach, rfl, not_deadlock_of_reach .multithread hreach⟩

/-- **An empty request ends in a deadlock**: `send` has sent all of it. -/
theorem deadlock_of_empty (service : Service) {s : State} (hclient : s.client = .sending [])
    (hserver : s.server = .receiving) (htoServer : s.toServer = []) (htoClient : s.toClient = []) :
    ∃ t, step service s (.clientSends 0) = some t ∧ Deadlock t := by
  refine ⟨{ s with client := .waiting [] }, ?_, ⟨[], rfl⟩, hserver, htoServer, htoClient⟩
  simp [step, hclient, htoServer]

theorem exists_deadlock (service : Service) :
    ∃ s, Run (step service) (fun _ _ => True) init [.types (ofText "\n"), .clientSends 0] s ∧
      Deadlock s := by
  obtain ⟨s, hstep, hs⟩ := deadlock_of_empty service
    (s := { init with client := .sending [], commands := [[]] }) rfl rfl rfl rfl
  exact ⟨s, .cons trivial rfl (.cons trivial hstep (.nil s)), hs⟩

/-- **Each of the three programs deadlocks** when an empty line is the first one typed. -/
theorem deadlock_of_empty_line :
    (∃ s, Run (step serverHandleClient) (fun _ _ => True) init [.types (ofText "\n"), .clientSends 0] s ∧
      Deadlock s) ∧
    ∃ s, Run (step multiplexed) (fun _ _ => True) init [.types (ofText "\n"), .clientSends 0] s ∧
      Deadlock s :=
  ⟨exists_deadlock serverHandleClient, exists_deadlock multiplexed⟩

end LinuxNet.Tutorials.Conversation
