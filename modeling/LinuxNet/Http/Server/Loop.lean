/-
# LinuxNet.Http.Server.Loop — `HTTPServer::start`

The poll loop of the HTTP server as a machine whose events are the answers of the kernel and of
`handle_client`. A round is one `poll` and one scan over `fds[0..nfds-1]`; `nfds` grows when a client is
accepted in the middle of a scan and shrinks when one is closed, and the scan goes on with the next
index either way.

The array `fds` is not initialised by the program: apart from `fds[0].fd` and `fds[0].events` the state
at the loop head (`init`) is arbitrary, so the `revents` of a slot `poll` has not written yet is too.
`handle_client` enters as its outcome, an activity or an exception; an exception leaves the loop.
-/
import LinuxNet.Cpp.Std
import LinuxNet.Http.Defs
import LinuxNet.Lib.FdLedger
import LinuxNet.Lib.Machine
import LinuxNet.Posix.PollFd

namespace LinuxNet.Http.Server

open LinuxNet.Lib LinuxNet.Lib.FdLedger LinuxNet.Posix LinuxNet.Cpp

/-! ## States, events and calls -/

/-- Where the loop is. -/
inductive Phase where
  /-- before `poll` -/
  | polling
  /-- at the test `i < nfds` of the scan -/
  | scan (i : ℕ)
  /-- `start` has been left, by `break` or by an exception -/
  | stopped
  /-- an access of `fds` at an index beyond its end -/
  | fault (i : ℕ)
  deriving DecidableEq, Repr

/-- The calls on sockets, and the moment a descriptor gets into the table. -/
inductive Call where
  /-- `poll`, with the descriptors it reported as readable -/
  | poll (ready : List Int)
  | accept (sock_client : Int)
  | stored (fd : Int)
  | handleClient (fd : Int)
  | close (fd : Int)
  deriving DecidableEq, Repr

/-- What a call does to the descriptors of the process. -/
def Call.fdOp : Call → Option (FdOp Int)
  | .accept sock_client => if sock_client < 0 then none else some (.opened sock_client)
  | .stored fd => some (.stored fd)
  | .close fd => some (.closed fd)
  | .poll _ | .handleClient _ => none

/-- The answer of a `poll`. -/
def Call.ready? : Call → Option (List Int)
  | .poll ready => some ready
  | _ => none

/-- The descriptor `handle_client` is called on. -/
def Call.handled? : Call → Option Int
  | .handleClient fd => some fd
  | _ => none

section SimpSet

variable (d : Int) (ready : List Int)

@[simp] theorem Call.fdOp_poll : (Call.poll ready).fdOp = none := rfl
@[simp] theorem Call.fdOp_handleClient : (Call.handleClient d).fdOp = none := rfl
@[simp] theorem Call.fdOp_stored : (Call.stored d).fdOp = some (.stored d) := rfl
@[simp] theorem Call.fdOp_close : (Call.close d).fdOp = some (.closed d) := rfl

theorem Call.fdOp_accept_neg {d : Int} (hd : d < 0) : (Call.accept d).fdOp = none := if_pos hd

theorem Call.fdOp_accept_pos {d : Int} (hd : 0 ≤ d) : (Call.accept d).fdOp = some (.opened d) :=
  if_neg (Int.not_lt.mpr hd)

end SimpSet

/-- The answers of the environment. -/
inductive Event where
  /-- `poll` returns `rc_poll` and, when it succeeds, writes these `revents` -/
  | poll (rc_poll : Int) (revents : ℕ → BitVec 16)
  | accept (sock_client : Int)
  /-- `handle_client` returns or throws -/
  | handled (outcome : Except Exn ClientActivity)
  /-- the program goes on without a call -/
  | tau

/-- The variables of the loop, and the calls made so far, newest first. -/
structure State where
  fds : PollArray maxConnection
  nfds : ℕ
  sock_server : Int
  phase : Phase
  trace : List Call

/-- The descriptor history of the run. -/
def State.history (s : State) : List (FdOp Int) := s.trace.filterMap Call.fdOp

/-- The descriptors in the table. -/
def State.slots (s : State) : List Int := s.fds.slots s.nfds

/-- What the last `poll` reported as readable. -/
def State.reported (s : State) : List Int := (lastMark Call.ready? s.trace).getD []

/-- The calls made since the last `poll`. -/
def State.round (s : State) : List Call := currentRound Call.ready? s.trace

/-- The descriptors `handle_client` was called on since the last `poll`. -/
def State.handled (s : State) : List Int := s.round.filterMap Call.handled?

/-- The state at `while (true)`: `fds` is whatever the stack held, but for slot 0. -/
def init (garbage : PollArray maxConnection) (sock_server : Int) : State where
  fds := garbage.modify 0 fun p => { p with fd := sock_server, events := pollIn }
  nfds := 1
  sock_server := sock_server
  phase := .polling
  trace := []

/-- The assumption on `accept`: it returns a descriptor that is not open. -/
def FreshAccept (base : Finset Int) (s : State) : Event → Prop
  | .accept sock_client => 0 ≤ sock_client → sock_client ∉ openFds base s.history
  | _ => True

instance (base : Finset Int) (s : State) : (e : Event) → Decidable (FreshAccept base s e)
  | .accept sock_client =>
    inferInstanceAs (Decidable (0 ≤ sock_client → sock_client ∉ openFds base s.history))
  | .poll _ _ | .handled _ | .tau => isTrue trivial

/-! ## One step -/

/-- The state after one more call. -/
def State.log (s : State) (call : Call) : State := { s with trace := call :: s.trace }

/-- `close(fds[i].fd); fds[i].fd = fds[nfds - 1].fd; fds[i].events = fds[nfds - 1].events; nfds--;` and
the `i++` of the scan. -/
def removeClient (s : State) (i : ℕ) : State :=
  match s.fds.get? i, s.fds.get? (s.nfds - 1) with
  | some p, some q =>
    { s with
      fds := s.fds.modify i fun p => { p with fd := q.fd, events := q.events }
      nfds := s.nfds - 1
      phase := .scan (i + 1)
      trace := .close p.fd :: s.trace }
  | none, _ => { s with phase := .fault i }
  | some _, none => { s with phase := .fault (s.nfds - 1) }

/-- What follows `handle_client` on slot `i`. -/
def clientHandled (s : State) (i : ℕ) : Except Exn ClientActivity → State
  | .error _ => { s with phase := .stopped }
  | .ok activity =>
    if activity ≠ .waiting then removeClient s i else { s with phase := .scan (i + 1) }

/-- `fds[nfds].fd = sock_client; fds[nfds].events = POLLIN; nfds++;` while slot `i` is scanned. -/
def storeClient (s : State) (i : ℕ) (sock_client : Int) : State :=
  match s.fds.get? s.nfds with
  | some _ =>
    { s with
      fds := s.fds.modify s.nfds fun p => { p with fd := sock_client, events := pollIn }
      nfds := s.nfds + 1
      phase := .scan (i + 1)
      trace := .stored sock_client :: s.trace }
  | none => { s with phase := .fault s.nfds }

/-- What follows `accept` while slot `i` is scanned. -/
def acceptClient (s : State) (i : ℕ) (sock_client : Int) : State :=
  if sock_client < 0 then { s.log (.accept sock_client) with phase := .scan (i + 1) }
  else if s.nfds < maxConnection then storeClient (s.log (.accept sock_client)) i sock_client
  else { s.log (.accept sock_client) with phase := .scan (i + 1) }

/-- What follows `poll`. -/
def pollReturns (s : State) (rc_poll : Int) (revents : ℕ → BitVec 16) : State :=
  if rc_poll < 0 then { s with phase := .stopped }
  else
    let fds := s.fds.report s.nfds revents
    { s.log (.poll (fds.readyFds s.nfds)) with fds := fds, phase := .scan 0 }

/-- **One step of the loop.** The `else` of the readiness test is where `handle_client` is called. -/
def step (s : State) (e : Event) : Option State :=
  match s.phase with
  | .polling =>
    match e with
    | .poll rc_poll revents => some (pollReturns s rc_poll revents)
    | _ => none
  | .scan i =>
    if i < s.nfds then
      match s.fds.get? i with
      | none => some { s with phase := .fault i }
      | some p =>
        if p.readable then
          if p.fd = s.sock_server then
            match e with
            | .accept sock_client => some (acceptClient s i sock_client)
            | _ => none
          else
            match e with
            | .tau => some { s with phase := .scan (i + 1) }
            | _ => none
        else
          match e with
          | .handled outcome => some (clientHandled (s.log (.handleClient p.fd)) i outcome)
          | _ => none
    else
      match e with
      | .tau => some { s with phase := .polling }
      | _ => none
  | .stopped => none
  | .fault _ => none

/-! ## What a step can do -/

/-- The state after slot `i` has been handled, closed and refilled from the last slot `q`. -/
def State.refill (s : State) (i : ℕ) (p q : PollFd) : State :=
  { s with
    fds := s.fds.modify i fun p => { p with fd := q.fd, events := q.events }
    nfds := s.nfds - 1
    phase := .scan (i + 1)
    trace := .close p.fd :: .handleClient p.fd :: s.trace }

/-- The state after a client has been stored while slot `i` is scanned. -/
def State.store (s : State) (i : ℕ) (sock_client : Int) : State :=
  { s with
    fds := s.fds.modify s.nfds fun p => { p with fd := sock_client, events := pollIn }
    nfds := s.nfds + 1
    phase := .scan (i + 1)
    trace := .stored sock_client :: .accept sock_client :: s.trace }

/-- **`Step s e t`** — everything one step can do while the table is in range, one case per path
through the loop body, each with the tests that select it. -/
inductive Step (s : State) : Event → State → Prop
  | pollFails {rc_poll : Int} {revents : ℕ → BitVec 16} (hphase : s.phase = .polling)
      (hrc : rc_poll < 0) : Step s (.poll rc_poll revents) { s with phase := .stopped }
  | polls {rc_poll : Int} {revents : ℕ → BitVec 16} (hphase : s.phase = .polling)
      (hrc : 0 ≤ rc_poll) :
      Step s (.poll rc_poll revents)
        { s with
          fds := s.fds.report s.nfds revents
          phase := .scan 0
          trace := .poll ((s.fds.report s.nfds revents).readyFds s.nfds) :: s.trace }
  | acceptFails {i : ℕ} {p : PollFd} {sock_client : Int} (hphase : s.phase = .scan i)
      (hlt : i < s.nfds) (hp : s.fds.get? i = some p) (hr : p.readable = true)
      (hsock : p.fd = s.sock_server) (hneg : sock_client < 0) :
      Step s (.accept sock_client)
        { s with phase := .scan (i + 1), trace := .accept sock_client :: s.trace }
  | stores {i : ℕ} {p : PollFd} {sock_client : Int} (hphase : s.phase = .scan i) (hlt : i < s.nfds)
      (hp : s.fds.get? i = some p) (hr : p.readable = true) (hsock : p.fd = s.sock_server)
      (hpos : 0 ≤ sock_client) (hroom : s.nfds < maxConnection) :
      Step s (.accept sock_client) (s.store i sock_client)
  | full {i : ℕ} {p : PollFd} {sock_client : Int} (hphase : s.phase = .scan i) (hlt : i < s.nfds)
      (hp : s.fds.get? i = some p) (hr : p.readable = true) (hsock : p.fd = s.sock_server)
      (hpos : 0 ≤ sock_client) (hfull : s.nfds = maxConnection) :
      Step s (.accept sock_client)
        { s with phase := .scan (i + 1), trace := .accept sock_client :: s.trace }
  | ignores {i : ℕ} {p : PollFd} (hphase : s.phase = .scan i) (hlt : i < s.nfds)
      (hp : s.fds.get? i = some p) (hr : p.readable = true) (hsock : p.fd ≠ s.sock_server) :
      Step s .tau { s with phase := .scan (i + 1) }
  | throws {i : ℕ} {p : PollFd} {exn : Exn} (hphase : s.phase = .scan i) (hlt : i < s.nfds)
      (hp : s.fds.get? i = some p) (hr : p.readable = false) :
      Step s (.handled (.error exn)) { s with phase := .stopped, trace := .handleClient p.fd :: s.trace }
  | waits {i : ℕ} {p : PollFd} (hphase : s.phase = .scan i) (hlt : i < s.nfds)
      (hp : s.fds.get? i = some p) (hr : p.readable = false) :
      Step s (.handled (.ok .waiting))
        { s with phase := .scan (i + 1), trace := .handleClient p.fd :: s.trace }
  | drops {i : ℕ} {p q : PollFd} {activity : ClientActivity} (hphase : s.phase = .scan i)
      (hlt : i < s.nfds) (hp : s.fds.get? i = some p) (hr : p.readable = false)
      (hact : activity ≠ .waiting) (hq : s.fds.get? (s.nfds - 1) = some q) :
      Step s (.handled (.ok activity)) (s.refill i p q)
  | endRound {i : ℕ} (hphase : s.phase = .scan i) (hend : s.nfds ≤ i) :
      Step s .tau { s with phase := .polling }

/-- The scan is at one slot. -/
theorem scan_inj {s : State} {i j : ℕ} (hi : s.phase = .scan i) (hj : s.phase = .scan j) : i = j := by
  rw [hi] at hj
  exact Phase.scan.inj hj

/-- The listening socket is a constant of the loop. -/
theorem Step.sock_server {s t : State} {e : Event} (h : Step s e t) : t.sock_server = s.sock_server := by
  cases h <;> rfl

/-- **The inversion lemma**: with the table in range, a step is one of the cases of `Step`. -/
theorem Step.of_step {s t : State} {e : Event} (hle : s.nfds ≤ maxConnection)
    (h : step s e = some t) : Step s e t := by
  unfold step at h
  cases hphase : s.phase with
  | polling =>
      rw [hphase] at h
      cases e with
      | poll rc_poll revents =>
          cases h
          unfold pollReturns
          split
          next hrc => exact .pollFails hphase hrc
          next hrc => exact .polls hphase (by omega)
      | accept _ | handled _ | tau => cases h
  | scan i =>
      simp only [hphase] at h
      split at h
      next hlt =>
        obtain ⟨p, hp⟩ := s.fds.exists_get? (i := i) (by omega)
        simp only [hp] at h
        split at h
        next hr =>
          split at h
          next hsock =>
            cases e with
            | accept sock_client =>
                cases h
                unfold acceptClient
                split
                next hneg => exact .acceptFails hphase hlt hp hr hsock hneg
                next hneg =>
                  split
                  next hroom =>
                    obtain ⟨c, hc⟩ := s.fds.exists_get? hroom
                    simp only [storeClient, State.log, hc]
                    exact .stores hphase hlt hp hr hsock (by omega) hroom
                  next hroom => exact .full hphase hlt hp hr hsock (by omega) (by omega)
            | poll _ _ | handled _ | tau => cases h
          next hsock =>
            cases e with
            | tau =>
                cases h
                exact .ignores hphase hlt hp hr hsock
            | poll _ _ | accept _ | handled _ => cases h
        next hr =>
          have hr' : p.readable = false := by simpa using hr
          cases e with
          | handled outcome =>
              cases h
              cases outcome with
              | error exn => exact .throws hphase hlt hp hr'
              | ok activity =>
                  rw [clientHandled]
                  split
                  next hact =>
                    obtain ⟨q, hq⟩ := s.fds.exists_get? (i := s.nfds - 1) (by omega)
                    simp only [removeClient, State.log, hp, hq]
                    exact .drops hphase hlt hp hr' hact hq
                  next hact =>
                    obtain rfl : activity = .waiting := by simpa using hact
                    exact .waits hphase hlt hp hr'
          | poll _ _ | accept _ | tau => cases h
      next hend =>
        cases e with
        | tau =>
            cases h
            exact .endRound hphase (by omega)
        | poll _ _ | accept _ | handled _ => cases h
  | stopped => simp [hphase] at h
  | fault i => simp [hphase] at h

/-! ## Rounds -/

theorem reported_append {s t : State} {calls : List Call} (hcalls : ∀ c ∈ calls, c.ready? = none)
    (ht : t.trace = calls ++ s.trace) : t.reported = s.reported := by
  rw [State.reported, ht, lastMark_append hcalls]
  rfl

theorem handled_append {s t : State} {calls : List Call} (hcalls : ∀ c ∈ calls, c.ready? = none)
    (ht : t.trace = calls ++ s.trace) :
    t.handled = calls.filterMap Call.handled? ++ s.handled := by
  rw [State.handled, State.round, ht, currentRound_append hcalls, List.filterMap_append]
  rfl

theorem reported_poll {s t : State} {ready : List Int} (ht : t.trace = .poll ready :: s.trace) :
    t.reported = ready := by
  have hmark : (Call.poll ready).ready? = some ready := rfl
  rw [State.reported, ht, lastMark_cons_some hmark]
  rfl

theorem handled_poll {s t : State} {ready : List Int} (ht : t.trace = .poll ready :: s.trace) :
    t.handled = [] := by
  have hmark : (Call.poll ready).ready? = some ready := rfl
  rw [State.handled, State.round, ht, currentRound_cons_some hmark]
  rfl

end LinuxNet.Http.Server
