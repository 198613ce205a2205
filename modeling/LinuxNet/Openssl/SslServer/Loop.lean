/-
# LinuxNet.Openssl.SslServer.Loop — the server loop of `ssl_client_server.c`

`run_server` of the TLS server as a machine whose events are the answers of the kernel and of the TLS
library. The server keeps two arrays side by side, `fds` and `arr_ssl`: slot `i` of the one is the
connection slot `i` of the other belongs to. The listening socket has slot 0 and is scanned with the
clients.

Accepting a client is four calls (`accept`, `SSL_new`, `SSL_set_fd`, `SSL_accept`), all made before the
scan goes on, so they are one step; serving one is `SSL_read` and perhaps `SSL_write`. `poll` is asked
about all `MAX_CONNECTION` slots and reports nothing for those whose descriptor is negative. An access
beyond an array, or a TLS call on `NULL`, leads to the phase `fault`.

The trace has, newest first, what was done to the descriptors and to the TLS objects; both histories are
read off it.
-/
import LinuxNet.Lib.FreeSlots
import LinuxNet.Tutorials.PollServer.Loop

namespace LinuxNet.Openssl.SslServer

open LinuxNet.Lib LinuxNet.Lib.FdLedger LinuxNet.Posix
open LinuxNet.Tutorials.PollServer (responseText requestIs)

/-- `MAX_CONNECTION`. -/
def maxConnection : ℕ := 100

/-- The address of an `SSL` object. -/
abbrev Ssl := ℕ

/-! ## States, events and calls -/

/-- Where the loop is. -/
inductive Phase where
  /-- before `poll` -/
  | polling
  /-- at the test of the scan, with this value of `i` -/
  | scan (i : ℕ)
  /-- the function has returned -/
  | exited
  /-- an access of an array at an index beyond its end, or of an object that is `NULL` -/
  | fault (i : ℕ)
  deriving DecidableEq, Repr

/-- The calls on sockets and TLS objects. -/
inductive Call where
  /-- `poll`, with the descriptors it reported as readable -/
  | poll (ready : List Int)
  | accept (sock_client : Int)
  | close (fd : Int)
  | sslNew (ssl : Ssl)
  | sslSetFd (ssl : Ssl) (fd : Int)
  | sslAccept (ssl : Ssl)
  | sslRead (ssl : Ssl)
  | sslWrite (ssl : Ssl) (response : Bytes)
  | sslShutdown (ssl : Ssl)
  | sslFree (ssl : Ssl)
  deriving DecidableEq, Repr

/-- What a call does to the descriptors of the process. -/
def Call.fdOp : Call → Option (FdOp Int)
  | .accept sock_client => if sock_client < 0 then none else some (.opened sock_client)
  | .close fd => some (.closed fd)
  | .poll _ | .sslNew _ | .sslSetFd _ _ | .sslAccept _ | .sslRead _ | .sslWrite _ _ | .sslShutdown _ |
    .sslFree _ => none

/-- What a call does to the TLS objects of the process. -/
def Call.sslOp : Call → Option (FdOp Ssl)
  | .sslNew ssl => some (.opened ssl)
  | .sslFree ssl => some (.closed ssl)
  | .poll _ | .accept _ | .close _ | .sslSetFd _ _ | .sslAccept _ | .sslRead _ | .sslWrite _ _ |
    .sslShutdown _ => none

/-- The TLS object a call is made on. -/
def Call.ssl? : Call → Option Ssl
  | .sslSetFd ssl _ | .sslAccept ssl | .sslRead ssl | .sslWrite ssl _ | .sslShutdown ssl |
    .sslFree ssl => some ssl
  | .poll _ | .accept _ | .close _ | .sslNew _ => none

/-- The answer of a `poll`. -/
def Call.ready? : Call → Option (List Int)
  | .poll ready => some ready
  | _ => none

/-- The descriptor a call binds this TLS object to. -/
def Call.binds? (ssl : Ssl) : Call → Option Int
  | .sslSetFd ssl' fd => if ssl' = ssl then some fd else none
  | _ => none

theorem Call.fdOp_accept_neg {d : Int} (hd : d < 0) : (Call.accept d).fdOp = none := if_pos hd

theorem Call.fdOp_accept_pos {d : Int} (hd : 0 ≤ d) : (Call.accept d).fdOp = some (.opened d) :=
  if_neg (Int.not_lt.mpr hd)

/-! ### What a trace says -/

/-- The descriptor history. -/
def fdHistory (trace : List Call) : List (FdOp Int) := trace.filterMap Call.fdOp

/-- The TLS objects that were made and not freed since. -/
def liveSsl (trace : List Call) : Finset Ssl := openFds ∅ (trace.filterMap Call.sslOp)

/-- The descriptor a TLS object is bound to: that of the last `SSL_set_fd`. -/
def boundFd (trace : List Call) (ssl : Ssl) : Option Int := trace.findSome? (Call.binds? ssl)

/-- What the last `poll` reported as readable. -/
def reported (trace : List Call) : List Int := (lastMark Call.ready? trace).getD []

/-- The object a call is made on is live. -/
def OnLive (call : Call) (before : List Call) : Prop := ∀ ssl, call.ssl? = some ssl → ssl ∈ liveSsl before

/-- `SSL_read` is called on a connection that was reported. -/
def ReadsReported (call : Call) (before : List Call) : Prop :=
  ∀ ssl, call = .sslRead ssl → ∃ fd, boundFd before ssl = some fd ∧ fd ∈ reported before

/-- The answers of the kernel and of the TLS library. -/
inductive Event where
  /-- `poll` returns `activity` and, when it succeeds, writes these `revents` -/
  | poll (activity : Int) (revents : ℕ → BitVec 16)
  /-- what `accept`, `SSL_new` and `SSL_accept` give (the last two if they are called) -/
  | accept (sock_client : Int) (ssl : Ssl) (rc : Int)
  /-- one request: what `SSL_read` gives, the time, what `SSL_write` answers (if it is called) -/
  | serve (received : Received) (time : Int) (sent_bytes : Int)
  /-- the program goes on without waiting for an answer -/
  | tau

/-- The variables of the loop, and the calls made so far, newest first. -/
structure State where
  fds : PollArray maxConnection
  arr_ssl : SlotArray (Option Ssl) maxConnection
  nfds : ℕ
  sock_server : Int
  phase : Phase
  trace : List Call

/-- The descriptors in the slots, of all `MAX_CONNECTION`. -/
def State.descriptors (s : State) : List Int := s.fds.cells.map PollFd.fd

/-- The state at the first `while (1)`: slot 0 is the listening socket with an object of its own, the
other slots are free. -/
def init (sock_server : Int) (ssl : Ssl) : State where
  fds := (PollArray.filled ⟨-1, 0, 0⟩).modify 0 fun p => { p with fd := sock_server, events := pollIn }
  arr_ssl := (SlotArray.filled none).set 0 (some ssl)
  nfds := 1
  sock_server := sock_server
  phase := .polling
  trace := [.sslSetFd ssl sock_server, .sslNew ssl]

/-- The assumptions: `accept` returns a descriptor that is not open, `SSL_new` an object that is not
live. -/
def Fresh (base : Finset Int) (s : State) : Event → Prop
  | .accept sock_client ssl _ =>
    (0 ≤ sock_client → sock_client ∉ openFds base (fdHistory s.trace)) ∧ ssl ∉ liveSsl s.trace
  | _ => True

instance (base : Finset Int) (s : State) : (e : Event) → Decidable (Fresh base s e)
  | .accept sock_client ssl _ =>
    inferInstanceAs (Decidable
      ((0 ≤ sock_client → sock_client ∉ openFds base (fdHistory s.trace)) ∧ ssl ∉ liveSsl s.trace))
  | .poll _ _ | .serve _ _ _ | .tau => isTrue trivial

/-! ## One step -/

/-- The state after one more call. -/
def State.log (s : State) (call : Call) : State := { s with trace := call :: s.trace }

/-- The `revents` that `poll` writes: nothing for a slot with a negative descriptor. -/
def pollRevents (fds : PollArray maxConnection) (revents : ℕ → BitVec 16) (i : ℕ) : BitVec 16 :=
  if (fds.get? i).any fun p => p.fd < 0 then 0 else revents i

/-- What the function does with one slot after the loop. -/
def shutdownCalls (slot : PollFd × Option Ssl) : List Call :=
  (if 0 < slot.1.fd then [.close slot.1.fd] else []) ++
    slot.2.elim [] fun ssl => [.sslShutdown ssl, .sslFree ssl]

/-- After the loop: the listening socket is closed, then every slot is looked at. -/
def cleanUp (s : State) : State :=
  { s with
    arr_ssl := SlotArray.filled none
    phase := .exited
    trace := ((s.fds.cells.zip s.arr_ssl.cells).flatMap shutdownCalls).reverse ++
      .close s.sock_server :: s.trace }

/-- What follows `poll`. -/
def pollReturns (s : State) (activity : Int) (revents : ℕ → BitVec 16) : State :=
  if activity ≤ 0 then cleanUp s
  else
    let fds := s.fds.report maxConnection (pollRevents s.fds revents)
    { s.log (.poll (fds.readyFds maxConnection)) with fds := fds, phase := .scan 0 }

/-- `fds[nfds].fd = sock_client;` and so on up to the test of `SSL_accept`: a failed handshake takes the
slot back, a successful one keeps it. -/
def storeClient (s : State) (sock_client : Int) (ssl : Ssl) (rc : Int) : State :=
  match s.fds.get? s.nfds with
  | none => { s with phase := .fault s.nfds }
  | some _ =>
    let stored : State :=
      { s with
        fds := s.fds.modify s.nfds fun p => { p with fd := sock_client, events := pollIn }
        arr_ssl := s.arr_ssl.set s.nfds (some ssl)
        trace := .sslAccept ssl :: .sslSetFd ssl sock_client :: .sslNew ssl :: s.trace }
    if rc ≤ 0 then
      { stored with
        fds := stored.fds.modify s.nfds fun p => { p with fd := -1 }
        arr_ssl := stored.arr_ssl.set s.nfds none
        trace := .sslFree ssl :: .close sock_client :: stored.trace }
    else { stored with nfds := s.nfds + 1 }

/-- What follows `accept`. -/
def acceptClient (s : State) (sock_client : Int) (ssl : Ssl) (rc : Int) : State :=
  if 0 < sock_client then
    if s.nfds < maxConnection then storeClient (s.log (.accept sock_client)) sock_client ssl rc
    else s.log (.accept sock_client)
  else s.log (.accept sock_client)

/-- `should_disconnect`: no data, or a request to quit. -/
def shouldDisconnect (received : Received) : Bool :=
  received.received ≤ 0 || requestIs "quit" received.bytes || requestIs "exit" received.bytes

/-- Close slot `i`, move the last connection over it and free the last slot. -/
def removeClient (s : State) (i : ℕ) (fd : Int) (ssl : Ssl) : State :=
  match s.fds.get? (s.nfds - 1), s.arr_ssl.get? (s.nfds - 1) with
  | some q, some lastSsl =>
    { s with
      fds := (s.fds.modify i fun p => { p with fd := q.fd }).modify (s.nfds - 1)
        fun p => { p with fd := -1 }
      arr_ssl := (s.arr_ssl.set i lastSsl).set (s.nfds - 1) none
      nfds := s.nfds - 1
      trace := .sslFree ssl :: .close fd :: s.trace }
  | _, _ => { s with phase := .fault (s.nfds - 1) }

/-- What is done for a readable slot `i` with a client in it. -/
def serveClient (s : State) (i : ℕ) (fd : Int) (ssl : Ssl) (received : Received) (time : Int) : State :=
  if shouldDisconnect received then removeClient (s.log (.sslRead ssl)) i fd ssl
  else (s.log (.sslRead ssl)).log (.sslWrite ssl (responseText time))

/-- **One step of the server loop.** -/
def step (s : State) (e : Event) : Option State :=
  match s.phase with
  | .polling =>
    match e with
    | .poll activity revents => some (pollReturns s activity revents)
    | _ => none
  | .scan i =>
    if i < s.nfds then
      match s.fds.get? i with
      | none => some { s with phase := .fault i }
      | some p =>
        -- whatever happens in the body, the scan goes on with `i++`
        let next : State := { s with phase := .scan (i + 1) }
        if p.readable then
          if p.fd = s.sock_server then
            match e with
            | .accept sock_client ssl rc => some (acceptClient next sock_client ssl rc)
            | _ => none
          else
            match s.arr_ssl.get? i with
            | some (some ssl) =>
              match e with
              | .serve received time _ => some (serveClient next i p.fd ssl received time)
              | _ => none
            | _ => some { s with phase := .fault i }
        else
          match e with
          | .tau => some next
          | _ => none
    else
      match e with
      | .tau => some { s with phase := .polling }
      | _ => none
  | .exited => none
  | .fault _ => none

/-! ## What a step can do -/

/-- The state after slot `i` has been closed and refilled with the last connection. -/
def State.refill (s : State) (i : ℕ) (fd : Int) (lastSsl : Option Ssl) (calls : List Call) : State :=
  { s with
    fds := (s.fds.modify i fun p => { p with fd := fd }).modify (s.nfds - 1)
      fun p => { p with fd := -1 }
    arr_ssl := (s.arr_ssl.set i lastSsl).set (s.nfds - 1) none
    nfds := s.nfds - 1
    phase := .scan (i + 1)
    trace := calls ++ s.trace }

/-- **`Step s e t`** — everything one step can do while the two arrays are in step, one case per path
through the loop body, each with the tests that select it. -/
inductive Step (s : State) : Event → State → Prop
  | pollFails {activity : Int} {revents : ℕ → BitVec 16} (hphase : s.phase = .polling)
      (hact : activity ≤ 0) : Step s (.poll activity revents) (cleanUp s)
  | polls {activity : Int} {revents : ℕ → BitVec 16} (hphase : s.phase = .polling)
      (hact : 0 < activity) :
      Step s (.poll activity revents)
        { s with
          fds := s.fds.report maxConnection (pollRevents s.fds revents)
          phase := .scan 0
          trace := .poll ((s.fds.report maxConnection (pollRevents s.fds revents)).readyFds
            maxConnection) :: s.trace }
  | turnsAway {i : ℕ} {p : PollFd} {sock_client : Int} {ssl : Ssl} {rc : Int}
      (hphase : s.phase = .scan i) (hlt : i < s.nfds) (hp : s.fds.get? i = some p)
      (hr : p.readable = true) (hsock : p.fd = s.sock_server)
      (hno : sock_client ≤ 0 ∨ s.nfds = maxConnection) :
      Step s (.accept sock_client ssl rc)
        { s with phase := .scan (i + 1), trace := .accept sock_client :: s.trace }
  | handshakeFails {i : ℕ} {p : PollFd} {sock_client : Int} {ssl : Ssl} {rc : Int}
      (hphase : s.phase = .scan i) (hlt : i < s.nfds) (hp : s.fds.get? i = some p)
      (hr : p.readable = true) (hsock : p.fd = s.sock_server) (hpos : 0 < sock_client)
      (hroom : s.nfds < maxConnection) (hrc : rc ≤ 0) :
      Step s (.accept sock_client ssl rc)
        { s with
          fds := (s.fds.modify s.nfds fun p => { p with fd := sock_client, events := pollIn }).modify
            s.nfds fun p => { p with fd := -1 }
          arr_ssl := (s.arr_ssl.set s.nfds (some ssl)).set s.nfds none
          phase := .scan (i + 1)
          trace := [.sslFree ssl, .close sock_client, .sslAccept ssl, .sslSetFd ssl sock_client,
            .sslNew ssl, .accept sock_client] ++ s.trace }
  | stores {i : ℕ} {p : PollFd} {sock_client : Int} {ssl : Ssl} {rc : Int}
      (hphase : s.phase = .scan i) (hlt : i < s.nfds) (hp : s.fds.get? i = some p)
      (hr : p.readable = true) (hsock : p.fd = s.sock_server) (hpos : 0 < sock_client)
      (hroom : s.nfds < maxConnection) (hrc : 0 < rc) :
      Step s (.accept sock_client ssl rc)
        { s with
          fds := s.fds.modify s.nfds fun p => { p with fd := sock_client, events := pollIn }
          arr_ssl := s.arr_ssl.set s.nfds (some ssl)
          nfds := s.nfds + 1
          phase := .scan (i + 1)
          trace := [.sslAccept ssl, .sslSetFd ssl sock_client, .sslNew ssl, .accept sock_client] ++
            s.trace }
  | keeps {i : ℕ} {p : PollFd} {ssl : Ssl} {received : Received} {time sent_bytes : Int}
      (hphase : s.phase = .scan i) (hlt : i < s.nfds) (hp : s.fds.get? i = some p)
      (hr : p.readable = true) (hsock : p.fd ≠ s.sock_server)
      (hssl : s.arr_ssl.get? i = some (some ssl)) (hkeep : shouldDisconnect received = false) :
      Step s (.serve received time sent_bytes)
        { s with
          phase := .scan (i + 1)
          trace := [.sslWrite ssl (responseText time), .sslRead ssl] ++ s.trace }
  | drops {i : ℕ} {p q : PollFd} {ssl : Ssl} {lastSsl : Option Ssl} {received : Received}
      {time sent_bytes : Int} (hphase : s.phase = .scan i) (hlt : i < s.nfds)
      (hp : s.fds.get? i = some p) (hr : p.readable = true) (hsock : p.fd ≠ s.sock_server)
      (hssl : s.arr_ssl.get? i = some (some ssl)) (hdrop : shouldDisconnect received = true)
      (hq : s.fds.get? (s.nfds - 1) = some q) (hlast : s.arr_ssl.get? (s.nfds - 1) = some lastSsl) :
      Step s (.serve received time sent_bytes)
        (s.refill i q.fd lastSsl [.sslFree ssl, .close p.fd, .sslRead ssl])
  | skips {i : ℕ} {p : PollFd} (hphase : s.phase = .scan i) (hlt : i < s.nfds)
      (hp : s.fds.get? i = some p) (hr : p.readable = false) :
      Step s .tau { s with phase := .scan (i + 1) }
  | endRound {i : ℕ} (hphase : s.phase = .scan i) (hend : s.nfds ≤ i) :
      Step s .tau { s with phase := .polling }

/-- The listening socket is a constant of the function. -/
theorem Step.sock_server {s t : State} {e : Event} (h : Step s e t) : t.sock_server = s.sock_server := by
  cases h <;> rfl

/-- The two arrays fit: the slots in use are slots, and each has an object. -/
structure InRange (s : State) : Prop where
  le : s.nfds ≤ maxConnection
  ssl : ∀ i, i < s.nfds → ∃ ssl, s.arr_ssl.get? i = some (some ssl)

/-- The scan of a readable listening socket. -/
theorem Step.of_accept {s : State} {i : ℕ} {p : PollFd} (hs : InRange s) (hphase : s.phase = .scan i)
    (hlt : i < s.nfds) (hp : s.fds.get? i = some p) (hr : p.readable = true)
    (hsock : p.fd = s.sock_server) (sock_client : Int) (ssl : Ssl) (rc : Int) :
    Step s (.accept sock_client ssl rc)
      (acceptClient { s with phase := .scan (i + 1) } sock_client ssl rc) := by
  have hle := hs.le
  simp only [acceptClient]
  split
  next hpos =>
    split
    next hroom =>
      obtain ⟨c, hc⟩ := s.fds.exists_get? hroom
      simp only [storeClient, State.log, hc]
      split
      next hrc => exact .handshakeFails hphase hlt hp hr hsock hpos hroom hrc
      next hrc => exact .stores hphase hlt hp hr hsock hpos hroom (Int.not_le.mp hrc)
    next hroom => exact .turnsAway hphase hlt hp hr hsock (.inr (by omega))
  next hpos => exact .turnsAway hphase hlt hp hr hsock (.inl (Int.not_lt.mp hpos))

/-- The scan of a readable client. -/
theorem Step.of_serve {s : State} {i : ℕ} {p : PollFd} (hs : InRange s) (hphase : s.phase = .scan i)
    (hlt : i < s.nfds) (hp : s.fds.get? i = some p) (hr : p.readable = true)
    (hsock : p.fd ≠ s.sock_server) {ssl : Ssl} (hssl : s.arr_ssl.get? i = some (some ssl))
    (received : Received) (time sent_bytes : Int) :
    Step s (.serve received time sent_bytes)
      (serveClient { s with phase := .scan (i + 1) } i p.fd ssl received time) := by
  have hle := hs.le
  unfold serveClient
  split
  next hdrop =>
    obtain ⟨q, hq⟩ := s.fds.exists_get? (i := s.nfds - 1) (by omega)
    obtain ⟨lastSsl, hlast⟩ := hs.ssl (s.nfds - 1) (by omega)
    simp only [removeClient, State.log, hq, hlast]
    exact .drops hphase hlt hp hr hsock hssl hdrop hq hlast
  next hkeep => exact .keeps hphase hlt hp hr hsock hssl (by simpa using hkeep)

/-- **The inversion lemma**: with the arrays in range, a step is one of the cases of `Step`. -/
theorem Step.of_step {s t : State} {e : Event} (hs : InRange s) (h : step s e = some t) :
    Step s e t := by
  have hle := hs.le
  unfold step at h
  rcases hphase : s.phase with _ | i | _ | j
  · rw [hphase] at h
    rcases e with ⟨activity, revents⟩ | _ | _ | _
    · cases h
      simp only [pollReturns]
      split
      next hact => exact .pollFails hphase hact
      next hact => exact .polls hphase (Int.not_le.mp hact)
    all_goals cases h
  · simp only [hphase] at h
    split at h
    next hlt =>
      obtain ⟨p, hp⟩ := s.fds.exists_get? (i := i) (by omega)
      obtain ⟨ssl, hssl⟩ := hs.ssl i hlt
      simp only [hp, hssl] at h
      split at h
      next hr =>
        split at h
        next hsock =>
          rcases e with _ | ⟨sock_client, ssl', rc⟩ | _ | _
          case accept =>
            cases h
            exact .of_accept hs hphase hlt hp hr hsock sock_client ssl' rc
          all_goals cases h
        next hsock =>
          rcases e with _ | _ | ⟨received, time, sent_bytes⟩ | _
          case serve =>
            cases h
            exact .of_serve hs hphase hlt hp hr hsock hssl received time sent_bytes
          all_goals cases h
      next hr =>
        rcases e with _ | _ | _ | _
        case tau =>
          cases h
          exact .skips hphase hlt hp (by simpa using hr)
        all_goals cases h
    next hend =>
      rcases e with _ | _ | _ | _
      case tau =>
        cases h
        exact .endRound hphase (Nat.not_lt.mp hend)
      all_goals cases h
  · rw [hphase] at h
    cases h
  · rw [hphase] at h
    cases h

end LinuxNet.Openssl.SslServer
