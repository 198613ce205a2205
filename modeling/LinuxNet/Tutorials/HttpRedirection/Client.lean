/-
# LinuxNet.Tutorials.HttpRedirection.Client — `perform_http_request` of `07_http_redirection.c`

The function asks a server for a page and calls itself with the new host when the reply is a redirection. The
call is the last thing it does, so the function is a machine whose states are the places where it waits for
an answer: at its start (`calling`, with the arguments of the call), in the loop that sends the request
(`sending`), in the loop that receives the reply (`receiving`), and behind its last return (`returned`).
A redirection leads from `receiving` back to `calling`; what was opened for the level that is left stays in
the trace only.

A string is its bytes before the NUL. The reply is searched in the memory it was received into, the buffer
and what stands behind it: a reply that fills the buffer has no NUL of its own.
-/
import LinuxNet.Lib.CString
import LinuxNet.Lib.Machine
import LinuxNet.Posix.Recv

namespace LinuxNet.Tutorials.HttpRedirection

open LinuxNet.Lib LinuxNet.Posix

/-- `CPP_HOSTNAME`. -/
def cppHostname : Bytes := ofText "httpstat.us"

/-- `MESSAGE_SIZE`. -/
def messageSize : ℕ := 1024

/-- `MAX_REDIRECTION`. -/
def maxRedirection : ℕ := 5

/-- `enum HTTP_RESULT`. -/
inductive HttpResult where
  | unknown
  | successul
  | redirect
  | notFound
  deriving DecidableEq, Repr

/-! ## The texts -/

/-- `sprintf(http_port, "%d", ntohs(http_service->s_port))`. -/
def portText (s_port : UInt16) : Bytes := natText s_port.toNat

/-- `sprintf(http_temp, "Failed to resolve hostname: %s", host_name)`. -/
def tempText (host_name : Bytes) : Bytes := ofText "Failed to resolve hostname: " ++ host_name

/-- `sprintf(http_request, "GET %s HTTP/1.1\r\nHost: %s\r\nConnection: close\r\n\r\n", path, host_name)`. -/
def requestText (path host_name : Bytes) : Bytes :=
  ofText "GET " ++ path ++ ofText " HTTP/1.1\r\nHost: " ++ host_name ++
    ofText "\r\nConnection: close\r\n\r\n"

/-- The first text a redirection is known by. -/
def movedText : Bytes := ofText "301 Moved Permanently"

/-- The second one. -/
def locationText : Bytes := ofText "Location: "

/-- The end of a line. -/
def crlf : Bytes := [cr, lf]

/-- `location_start - http_response`, in a reply that is a redirection. -/
def locationStart (mem : Bytes) : Option ℕ :=
  if (strstr mem movedText).isSome then (strstr mem locationText).map (· + 10) else none

/-- `new_http_host_len`, for a host that starts at `start`. -/
def newHttpHostLen (mem : Bytes) (start : ℕ) : Option ℕ := strstr (mem.drop start) crlf

/-- `new_http_host`, if the reply in memory is a redirection. -/
def newHttpHost (mem : Bytes) : Option Bytes :=
  (locationStart mem).bind fun start =>
    (newHttpHostLen mem start).map fun len => (mem.drop start).take len

/-! ## States, events and calls -/

/-- The local variables of a level that is connected. -/
structure Connection where
  host_name : Bytes
  path : Bytes
  redirect_count : ℕ
  http_addr : ℕ
  http_sock : Int
  deriving DecidableEq, Repr

/-- `http_request`. -/
def Connection.httpRequest (c : Connection) : Bytes := requestText c.path c.host_name

/-- Where the function is. -/
inductive Phase where
  /-- at its start, with these arguments -/
  | calling (host_name path : Bytes) (redirect_count : ℕ)
  /-- in the loop around `send`, with this value of `http_sent_bytes` -/
  | sending (c : Connection) (http_sent_bytes : ℕ)
  /-- in the loop around `recv`, with these bytes in `http_response` -/
  | receiving (c : Connection) (http_response : Bytes)
  /-- the outermost call has returned -/
  | returned (result : HttpResult)
  deriving DecidableEq, Repr

/-- What the calls up to `connect` answer, those of them that are made. -/
structure Answers where
  /-- whether `getprotobyname` finds TCP -/
  http_proto : Bool
  /-- the port `getservbyname` finds -/
  http_service : Option UInt16
  addr_rc : Int
  /-- the address list `getaddrinfo` makes, if `addr_rc` is 0 -/
  http_addr : ℕ
  http_sock : Int
  con_rc : Int

/-- The answers of the system. -/
inductive Event where
  | opens (answers : Answers)
  | send (sent_bytes : Int)
  /-- what `recv` gives, and what stands behind `http_response` in memory -/
  | recv (received : Received) (behind : Bytes)

/-- The calls on address lists and sockets. -/
inductive Call where
  /-- with the list that is made, if one is -/
  | getaddrinfo (host_name port : Bytes) (http_addr : Option ℕ)
  | freeaddrinfo (http_addr : ℕ)
  | socket (http_sock : Int)
  | connect (http_sock : Int) (con_rc : Int)
  /-- with the bytes that are offered -/
  | send (http_sock : Int) (message : Bytes) (sent_bytes : Int)
  | recv (http_sock : Int) (received : Received)
  | close (http_sock : Int)
  deriving DecidableEq, Repr

/-- Where the function is, the buffer `response` of the caller (unless it is `NULL`), and the calls made so
far, newest first. -/
structure State where
  phase : Phase
  response : Option Bytes
  trace : List Call
  deriving DecidableEq

/-- A call of `perform_http_request`. -/
def init (host_name path : Bytes) (response : Option Bytes) (redirect_count : ℕ) : State where
  phase := .calling host_name path redirect_count
  response := response
  trace := []

/-! ## One step -/

/-- The state after one more call. -/
def State.log (s : State) (call : Call) : State := { s with trace := call :: s.trace }

/-- `return result;` -/
def State.return (s : State) (result : HttpResult) : State := { s with phase := .returned result }

/-- `freeaddrinfo(http_addr); close(http_sock); return result;` -/
def State.leave (s : State) (c : Connection) (result : HttpResult) : State :=
  ((s.log (.freeaddrinfo c.http_addr)).log (.close c.http_sock)).return result

/-- From the resolved name to the request: `socket` and `connect`. -/
def connectTo (s : State) (host_name path : Bytes) (redirect_count : ℕ) (a : Answers) : State :=
  let s := s.log (.socket a.http_sock)
  -- there is no socket to close yet
  if a.http_sock < 0 then (s.log (.freeaddrinfo a.http_addr)).return .unknown
  else
    let s := s.log (.connect a.http_sock a.con_rc)
    let c : Connection := ⟨host_name, path, redirect_count, a.http_addr, a.http_sock⟩
    if a.con_rc ≠ 0 then s.leave c .unknown else { s with phase := .sending c 0 }

/-- From the start of a call to the request. -/
def performHttpRequest (s : State) (host_name path : Bytes) (redirect_count : ℕ) (a : Answers) : State :=
  if maxRedirection < redirect_count then s.return .notFound
  else if a.http_proto = false then s.return .unknown
  else
    match a.http_service with
    | none => s.return .unknown
    | some s_port =>
      if a.addr_rc ≠ 0 then
        (s.log (.getaddrinfo host_name (portText s_port) none)).return .unknown
      else
        connectTo (s.log (.getaddrinfo host_name (portText s_port) (some a.http_addr))) host_name path
          redirect_count a

/-- What follows `send`: the loop is left when the request has been sent, or `send` has failed. -/
def sendReturns (s : State) (c : Connection) (http_sent_bytes : ℕ) (sent_bytes : Int) : State :=
  let s := s.log (.send c.http_sock (c.httpRequest.drop http_sent_bytes) sent_bytes)
  if sent_bytes ≤ 0 then s.leave c .unknown
  else if http_sent_bytes + sent_bytes.toNat < c.httpRequest.length then
    { s with phase := .sending c (http_sent_bytes + sent_bytes.toNat) }
  else { s with phase := .receiving c [] }

/-- The memory from the start of `http_response`. -/
def responseMemory (http_response behind : Bytes) : Bytes := bufferMemory messageSize http_response behind

/-- What follows the loop around `recv`: the reply is copied to `response`, and the function calls itself if
it is a redirection. -/
def replyEnds (s : State) (c : Connection) (http_response behind : Bytes) : State :=
  let s := { s with response := s.response.map (memcpy · http_response) }
  match newHttpHost (responseMemory http_response behind) with
  | some new_http_host =>
    -- this return path has neither `freeaddrinfo` nor `close`
    { s with phase := .calling new_http_host (ofText "/") (c.redirect_count + 1) }
  | none => s.leave c .successul

/-- What follows `recv`. -/
def recvReturns (s : State) (c : Connection) (http_response : Bytes) (received : Received)
    (behind : Bytes) : State :=
  let s := s.log (.recv c.http_sock received)
  -- with a full buffer `recv` is asked for nothing and answers 0
  if received.received ≤ 0 then replyEnds s c http_response behind
  else { s with phase := .receiving c (http_response ++ received.bytes) }

/-- **One step of `perform_http_request`.** -/
def step (s : State) (e : Event) : Option State :=
  match s.phase with
  | .calling host_name path redirect_count =>
    match e with
    | .opens answers => some (performHttpRequest s host_name path redirect_count answers)
    | .send _ | .recv _ _ => none
  | .sending c http_sent_bytes =>
    match e with
    | .send sent_bytes => some (sendReturns s c http_sent_bytes sent_bytes)
    | .opens _ | .recv _ _ => none
  | .receiving c http_response =>
    match e with
    | .recv received behind => some (recvReturns s c http_response received behind)
    | .opens _ | .send _ => none
  | .returned _ => none

/-! ## What a step can do -/

/-- The names of the protocol and of the service are known, and the call is not one too many. -/
structure Usable (redirect_count : ℕ) (a : Answers) (s_port : UInt16) : Prop where
  few : redirect_count ≤ maxRedirection
  proto : a.http_proto = true
  service : a.http_service = some s_port

/-- **`Step s e t`** — everything one step can do, one case per path through the function. -/
inductive Step (s : State) : Event → State → Prop
  | tooMany {host_name path : Bytes} {redirect_count : ℕ} {a : Answers}
      (hphase : s.phase = .calling host_name path redirect_count)
      (hmany : maxRedirection < redirect_count) : Step s (.opens a) (s.return .notFound)
  | noService {host_name path : Bytes} {redirect_count : ℕ} {a : Answers}
      (hphase : s.phase = .calling host_name path redirect_count)
      (hfew : redirect_count ≤ maxRedirection) (hno : a.http_proto = false ∨ a.http_service = none) :
      Step s (.opens a) (s.return .unknown)
  | unresolved {host_name path : Bytes} {redirect_count : ℕ} {a : Answers} {s_port : UInt16}
      (hphase : s.phase = .calling host_name path redirect_count)
      (husable : Usable redirect_count a s_port) (haddr : a.addr_rc ≠ 0) :
      Step s (.opens a)
        { s with
          phase := .returned .unknown
          trace := .getaddrinfo host_name (portText s_port) none :: s.trace }
  | noSocket {host_name path : Bytes} {redirect_count : ℕ} {a : Answers} {s_port : UInt16}
      (hphase : s.phase = .calling host_name path redirect_count)
      (husable : Usable redirect_count a s_port) (haddr : a.addr_rc = 0) (hsock : a.http_sock < 0) :
      Step s (.opens a)
        { s with
          phase := .returned .unknown
          trace := [.freeaddrinfo a.http_addr, .socket a.http_sock,
            .getaddrinfo host_name (portText s_port) (some a.http_addr)] ++ s.trace }
  | noConnection {host_name path : Bytes} {redirect_count : ℕ} {a : Answers} {s_port : UInt16}
      (hphase : s.phase = .calling host_name path redirect_count)
      (husable : Usable redirect_count a s_port) (haddr : a.addr_rc = 0) (hsock : 0 ≤ a.http_sock)
      (hcon : a.con_rc ≠ 0) :
      Step s (.opens a)
        { s with
          phase := .returned .unknown
          trace := [.close a.http_sock, .freeaddrinfo a.http_addr, .connect a.http_sock a.con_rc,
            .socket a.http_sock, .getaddrinfo host_name (portText s_port) (some a.http_addr)] ++ s.trace }
  | connects {host_name path : Bytes} {redirect_count : ℕ} {a : Answers} {s_port : UInt16}
      (hphase : s.phase = .calling host_name path redirect_count)
      (husable : Usable redirect_count a s_port) (haddr : a.addr_rc = 0) (hsock : 0 ≤ a.http_sock)
      (hcon : a.con_rc = 0) :
      Step s (.opens a)
        { s with
          phase := .sending ⟨host_name, path, redirect_count, a.http_addr, a.http_sock⟩ 0
          trace := [.connect a.http_sock a.con_rc, .socket a.http_sock,
            .getaddrinfo host_name (portText s_port) (some a.http_addr)] ++ s.trace }
  | sendFails {c : Connection} {http_sent_bytes : ℕ} {sent_bytes : Int}
      (hphase : s.phase = .sending c http_sent_bytes) (hfail : sent_bytes ≤ 0) :
      Step s (.send sent_bytes)
        { s with
          phase := .returned .unknown
          trace := [.close c.http_sock, .freeaddrinfo c.http_addr,
            .send c.http_sock (c.httpRequest.drop http_sent_bytes) sent_bytes] ++ s.trace }
  | sends {c : Connection} {http_sent_bytes : ℕ} {sent_bytes : Int}
      (hphase : s.phase = .sending c http_sent_bytes) (hpos : 0 < sent_bytes)
      (hmore : http_sent_bytes + sent_bytes.toNat < c.httpRequest.length) :
      Step s (.send sent_bytes)
        { s with
          phase := .sending c (http_sent_bytes + sent_bytes.toNat)
          trace := .send c.http_sock (c.httpRequest.drop http_sent_bytes) sent_bytes :: s.trace }
  | sendsLast {c : Connection} {http_sent_bytes : ℕ} {sent_bytes : Int}
      (hphase : s.phase = .sending c http_sent_bytes) (hpos : 0 < sent_bytes)
      (hall : c.httpRequest.length ≤ http_sent_bytes + sent_bytes.toNat) :
      Step s (.send sent_bytes)
        { s with
          phase := .receiving c []
          trace := .send c.http_sock (c.httpRequest.drop http_sent_bytes) sent_bytes :: s.trace }
  | receives {c : Connection} {http_response behind : Bytes} {received : Received}
      (hphase : s.phase = .receiving c http_response) (hpos : 0 < received.received) :
      Step s (.recv received behind)
        { s with
          phase := .receiving c (http_response ++ received.bytes)
          trace := .recv c.http_sock received :: s.trace }
  | redirects {c : Connection} {http_response behind new_http_host : Bytes} {received : Received}
      (hphase : s.phase = .receiving c http_response) (hend : received.received ≤ 0)
      (hhost : newHttpHost (responseMemory http_response behind) = some new_http_host) :
      Step s (.recv received behind)
        { phase := .calling new_http_host (ofText "/") (c.redirect_count + 1)
          response := s.response.map (memcpy · http_response)
          trace := .recv c.http_sock received :: s.trace }
  | finishes {c : Connection} {http_response behind : Bytes} {received : Received}
      (hphase : s.phase = .receiving c http_response) (hend : received.received ≤ 0)
      (hnone : newHttpHost (responseMemory http_response behind) = none) :
      Step s (.recv received behind)
        { phase := .returned .successul
          response := s.response.map (memcpy · http_response)
          trace := [.close c.http_sock, .freeaddrinfo c.http_addr, .recv c.http_sock received] ++
            s.trace }

/-- The start of a call. -/
theorem Step.of_opens {s : State} {host_name path : Bytes} {redirect_count : ℕ}
    (hphase : s.phase = .calling host_name path redirect_count) (a : Answers) :
    Step s (.opens a) (performHttpRequest s host_name path redirect_count a) := by
  unfold performHttpRequest
  split
  next hmany => exact .tooMany hphase hmany
  next hfew =>
    have hfew := Nat.not_lt.mp hfew
    split
    next hproto => exact .noService hphase hfew (.inl hproto)
    next hproto =>
      split
      next hservice => exact .noService hphase hfew (.inr hservice)
      next s_port hservice =>
        have husable : Usable redirect_count a s_port := ⟨hfew, by simpa using hproto, hservice⟩
        split
        next haddr => exact .unresolved hphase husable haddr
        next haddr =>
          have haddr := not_not.mp haddr
          unfold connectTo
          split
          next hsock => exact .noSocket hphase husable haddr hsock
          next hsock =>
            have hsock := Int.not_lt.mp hsock
            simp only
            split
            next hcon => exact .noConnection hphase husable haddr hsock hcon
            next hcon => exact .connects hphase husable haddr hsock (not_not.mp hcon)

/-- **The inversion lemma**: a step is one of the cases of `Step`. -/
theorem Step.of_step {s t : State} {e : Event} (h : step s e = some t) : Step s e t := by
  unfold step at h
  rcases hphase : s.phase with ⟨host_name, path, redirect_count⟩ | ⟨c, http_sent_bytes⟩ |
    ⟨c, http_response⟩ | result
  · rw [hphase] at h
    rcases e with a | sent_bytes | ⟨received, behind⟩
    · cases h
      exact .of_opens hphase a
    all_goals cases h
  · rw [hphase] at h
    rcases e with a | sent_bytes | ⟨received, behind⟩
    case send =>
      cases h
      unfold sendReturns
      split
      next hfail => exact .sendFails hphase hfail
      next hpos =>
        have hpos := Int.not_le.mp hpos
        split
        next hmore => exact .sends hphase hpos hmore
        next hall => exact .sendsLast hphase hpos (Nat.not_lt.mp hall)
    all_goals cases h
  · rw [hphase] at h
    rcases e with a | sent_bytes | ⟨received, behind⟩
    case recv =>
      cases h
      unfold recvReturns
      split
      next hend =>
        unfold replyEnds
        simp only
        split
        next new_http_host hhost => exact .redirects hphase hend hhost
        next hnone => exact .finishes hphase hend hnone
      next hpos => exact .receives hphase (Int.not_le.mp hpos)
    all_goals cases h
  · rw [hphase] at h
    cases h

end LinuxNet.Tutorials.HttpRedirection
