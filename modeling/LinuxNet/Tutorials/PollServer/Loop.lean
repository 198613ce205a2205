/-
# LinuxNet.Tutorials.PollServer.Loop — the server loop of `13_multiplexing_poll_client_server.c`

`run_server` of the poll tutorial as a machine whose events are the answers of the kernel: one state
per place where the loop can be between two system calls (`Phase`), one step per loop head, accept
and iteration of the client loop (`step`). The state has the variables of the loop, `fds` and `nfds`,
and the trace of the system calls made so far.

An access of `fds` beyond its end leads to the phase `fault`, so "every index used is in range" is the
statement that no reachable state is in that phase. The buffers of a request are local to one
iteration; the model keeps them apart from `fds`, and takes of a request the C string it starts with.
-/
import LinuxNet.Lib.FdLedger
import LinuxNet.Lib.Machine
import LinuxNet.Posix.PollFd
import LinuxNet.Posix.Recv

namespace LinuxNet.Tutorials.PollServer

open LinuxNet.Lib LinuxNet.Lib.FdLedger LinuxNet.Posix

/-- `MAX_CONNECTION`. -/
def maxConnection : ℕ := 100

/-! ## States, events and calls -/

/-- Where the loop is. -/
inductive Phase where
  /-- before `poll` -/
  | polling
  /-- at `if (fds[0].revents & POLLIN)` -/
  | listener
  /-- at the test of the client loop, with this value of `i` -/
  | clients (i : ℕ)
  /-- after the loop -/
  | exited
  /-- an access of `fds` at an index beyond its end -/
  | fault (i : ℕ)
  deriving DecidableEq, Repr

/-- The system calls on sockets, and the moment a descriptor gets into the table. -/
inductive Call where
  /-- `poll`, with the descriptors it reported as readable -/
  | poll (ready : List Int)
  | accept (sock_client : Int)
  | stored (fd : Int)
  | recv (fd : Int)
  | send (fd : Int) (response : Bytes)
  | close (fd : Int)
  deriving DecidableEq, Repr

/-- What a call does to the descriptors of the process. -/
def Call.fdOp : Call → Option (FdOp Int)
  | .accept sock_client => if sock_client < 0 then none else some (.opened sock_client)
  | .stored fd => some (.stored fd)
  | .close fd => some (.closed fd)
  | .poll _ | .recv _ | .send _ _ => none

section SimpSet

variable (d : Int) (response : Bytes)

@[simp] theorem Call.fdOp_recv : (Call.recv d).fdOp = none := rfl
@[simp] theorem Call.fdOp_send : (Call.send d response).fdOp = none := rfl
@[simp] theorem Call.fdOp_stored : (Call.stored d).fdOp = some (.stored d) := rfl
@[simp] theorem Call.fdOp_close : (Call.close d).fdOp = some (.closed d) := rfl

theorem Call.fdOp_accept_neg {d : Int} (hd : d < 0) : (Call.accept d).fdOp = none := if_pos hd

theorem Call.fdOp_accept_pos {d : Int} (hd : 0 ≤ d) : (Call.accept d).fdOp = some (.opened d) :=
  if_neg (Int.not_lt.mpr hd)

end SimpSet

/-- The answer of a `poll`. -/
def Call.ready? : Call → Option (List Int)
  | .poll ready => some ready
  | _ => none

/-- The answers of the kernel. -/
inductive Event where
  /-- `poll` returns `activity` and, when it succeeds, writes these `revents` -/
  | poll (activity : Int) (revents : ℕ → BitVec 16)
  | accept (sock_client : Int)
  /-- one request: what `recv` gives, the time, what `send` answers (if it is called) -/
  | serve (received : Received) (time : Int) (sent_bytes : Int)
  /-- the program goes on without a system call -/
  | tau

/-- The variables of the loop, and the calls made so far, newest first. -/
structure State where
  fds : PollArray maxConnection
  nfds : ℕ
  sock_server : Int
  phase : Phase
  trace : List Call

/-- The descriptor history of the run. -/
def State.history (s : State) : List (FdOp Int) := s.trace.filterMap Call.fdOp

/-- The descriptors in the table. -/
def State.slots (s : State) : List Int := s.fds.slots s.nfds

/-- `struct pollfd fds[MAX_CONNECTION]` after `memset(&fds, 0, sizeof(fds))`. -/
def zeroed : PollArray maxConnection := ⟨List.replicate maxConnection ⟨0, 0, 0⟩, by simp⟩

/-- The state at the first `while (1)`. -/
def init (sock_server : Int) : State where
  fds := zeroed.modify 0 fun p => { p with fd := sock_server, events := pollIn }
  nfds := 1
  sock_server := sock_server
  phase := .polling
  trace := []

/-- What the last `poll` reported as readable. -/
def State.reported (s : State) : List Int := (lastMark Call.ready? s.trace).getD []

/-- The calls made since the last `poll`. -/
def State.round (s : State) : List Call := currentRound Call.ready? s.trace

/-- The assumption on `accept`: it returns a descriptor that is not open. -/
def FreshAccept (base : Finset Int) (s : State) : Event → Prop
  | .accept sock_client => 0 ≤ sock_client → sock_client ∉ openFds base s.history
  | _ => True

instance (base : Finset Int) (s : State) : (e : Event) → Decidable (FreshAccept base s e)
  | .accept sock_client =>
    inferInstanceAs (Decidable (0 ≤ sock_client → sock_client ∉ openFds base s.history))
  | .poll _ _ | .serve _ _ _ | .tau => isTrue trivial

/-! ## One step -/

/-- The state after one more call. -/
def State.log (s : State) (call : Call) : State := { s with trace := call :: s.trace }

/-- `sprintf(response_buffer, "Server time: %ld", time(NULL))`. -/
def responseText (time : Int) : Bytes := ofText "Server time: " ++ intText time

/-- `strcmp(request_buffer, word) == 0` for the request just received. -/
def requestIs (word : String) (bytes : Bytes) : Bool := cString bytes == ofText word

/-- Whether one iteration ends with the client being closed: no data, `send` failing, or a request to
quit. -/
def disconnects (received : Received) (sent_bytes : Int) : Bool :=
  received.received ≤ 0 || sent_bytes ≤ 0 ||
    requestIs "quit" received.bytes || requestIs "exit" received.bytes

/-- `close(fds[i].fd); fds[i].fd = fds[nfds - 1].fd; nfds--; i--;` and the `i++` of the loop. -/
def removeClient (s : State) (i : ℕ) : State :=
  match s.fds.get? i, s.fds.get? (s.nfds - 1) with
  | some p, some q =>
    { s with
      fds := s.fds.modify i fun p => { p with fd := q.fd }
      nfds := s.nfds - 1
      phase := .clients (i - 1 + 1)
      trace := .close p.fd :: s.trace }
  | none, _ => { s with phase := .fault i }
  | some _, none => { s with phase := .fault (s.nfds - 1) }

/-- The body of the client loop for a readable slot `i` that holds `fd`. -/
def serveClient (s : State) (i : ℕ) (fd : Int) (received : Received) (time sent_bytes : Int) : State :=
  if received.received ≤ 0 then removeClient (s.log (.recv fd)) i
  else if disconnects received sent_bytes then
    removeClient ((s.log (.recv fd)).log (.send fd (responseText time))) i
  else { (s.log (.recv fd)).log (.send fd (responseText time)) with phase := .clients (i + 1) }

/-- `fds[nfds].fd = sock_client; fds[nfds].events = POLLIN; nfds++;` -/
def storeClient (s : State) (sock_client : Int) : State :=
  match s.fds.get? s.nfds with
  | some _ =>
    { s with
      fds := s.fds.modify s.nfds fun p => { p with fd := sock_client, events := pollIn }
      nfds := s.nfds + 1
      phase := .clients 1
      trace := .stored sock_client :: s.trace }
  | none => { s with phase := .fault s.nfds }

/-- What follows `accept`: a failure starts the next round, a client is stored while there is room. -/
def acceptClient (s : State) (sock_client : Int) : State :=
  if sock_client < 0 then { s.log (.accept sock_client) with phase := .polling }
  else if s.nfds < maxConnection then storeClient (s.log (.accept sock_client)) sock_client
  else { s.log (.accept sock_client) with phase := .clients 1 }

/-- What follows `poll`: a failure leaves the loop, and the listening socket is closed. -/
def pollReturns (s : State) (activity : Int) (revents : ℕ → BitVec 16) : State :=
  if activity < 0 then { s.log (.close s.sock_server) with phase := .exited }
  else
    let fds := s.fds.report s.nfds revents
    { s.log (.poll (fds.readyFds s.nfds)) with fds := fds, phase := .listener }

/-- **One step of the server loop.** -/
def step (s : State) (e : Event) : Option State :=
  match s.phase with
  | .polling =>
    match e with
    | .poll activity revents => some (pollReturns s activity revents)
    | _ => none
  | .listener =>
    match s.fds.get? 0 with
    | none => some { s with phase := .fault 0 }
    | some p =>
      if p.readable then
        match e with
        | .accept sock_client => some (acceptClient s sock_client)
        | _ => none
      else
        match e with
        | .tau => some { s with phase := .clients 1 }
        | _ => none
  | .clients i =>
    if 1 ≤ i ∧ i < s.nfds then
      match s.fds.get? i with
      | none => some { s with phase := .fault i }
      | some p =>
        if p.readable then
          match e with
          | .serve received time sent_bytes => some (serveClient s i p.fd received time sent_bytes)
          | _ => none
        else
          match e with
          | .tau => some { s with phase := .clients (i + 1) }
          | _ => none
    else
      match e with
      | .tau => some { s with phase := .polling }
      | _ => none
  | .exited => none
  | .fault _ => none

/-! ## What a step can do -/

/-- The state after slot `i` has been closed and refilled. -/
def State.refill (s : State) (i : ℕ) (fd : Int) (calls : List Call) : State :=
  { s with
    fds := s.fds.modify i fun p => { p with fd := fd }
    nfds := s.nfds - 1
    phase := .clients i
    trace := calls ++ s.trace }

/-- **`Step s e t`** — everything one step can do while the table is in range, one case per path
through the loop body, each with the tests that select it. -/
inductive Step (s : State) : Event → State → Prop
  | pollFails {activity : Int} {revents : ℕ → BitVec 16} (hphase : s.phase = .polling)
      (hact : activity < 0) :
      Step s (.poll activity revents)
        { s with phase := .exited, trace := .close s.sock_server :: s.trace }
  | polls {activity : Int} {revents : ℕ → BitVec 16} (hphase : s.phase = .polling)
      (hact : 0 ≤ activity) :
      Step s (.poll activity revents)
        { s with
          fds := s.fds.report s.nfds revents
          phase := .listener
          trace := .poll ((s.fds.report s.nfds revents).readyFds s.nfds) :: s.trace }
  | acceptFails {sock_client : Int} (hphase : s.phase = .listener) (hneg : sock_client < 0) :
      Step s (.accept sock_client)
        { s with phase := .polling, trace := .accept sock_client :: s.trace }
  | stores {sock_client : Int} (hphase : s.phase = .listener) (hpos : 0 ≤ sock_client)
      (hroom : s.nfds < maxConnection) :
      Step s (.accept sock_client)
        { s with
          fds := s.fds.modify s.nfds fun p => { p with fd := sock_client, events := pollIn }
          nfds := s.nfds + 1
          phase := .clients 1
          trace := .stored sock_client :: .accept sock_client :: s.trace }
  | full {sock_client : Int} (hphase : s.phase = .listener) (hpos : 0 ≤ sock_client)
      (hfull : s.nfds = maxConnection) :
      Step s (.accept sock_client)
        { s with phase := .clients 1, trace := .accept sock_client :: s.trace }
  | noListener (hphase : s.phase = .listener) : Step s .tau { s with phase := .clients 1 }
  | keeps {i : ℕ} {p : PollFd} {received : Received} {time sent_bytes : Int}
      (hphase : s.phase = .clients i) (hi : 1 ≤ i) (hlt : i < s.nfds) (hp : s.fds.get? i = some p)
      (hr : p.readable = true) (hkeep : disconnects received sent_bytes = false) :
      Step s (.serve received time sent_bytes)
        { s with
          phase := .clients (i + 1)
          trace := .send p.fd (responseText time) :: .recv p.fd :: s.trace }
  | drops {i : ℕ} {p q : PollFd} {received : Received} {time sent_bytes : Int} {sends : List Call}
      (hphase : s.phase = .clients i) (hi : 1 ≤ i) (hlt : i < s.nfds) (hp : s.fds.get? i = some p)
      (hr : p.readable = true) (hdrop : disconnects received sent_bytes = true)
      (hq : s.fds.get? (s.nfds - 1) = some q)
      (hsends : sends = if received.received ≤ 0 then [] else [.send p.fd (responseText time)]) :
      Step s (.serve received time sent_bytes)
        (s.refill i q.fd (.close p.fd :: (sends ++ [.recv p.fd])))
  | skips {i : ℕ} {p : PollFd} (hphase : s.phase = .clients i) (hi : 1 ≤ i) (hlt : i < s.nfds)
      (hp : s.fds.get? i = some p) (hr : p.readable = false) :
      Step s .tau { s with phase := .clients (i + 1) }
  | endRound {i : ℕ} (hphase : s.phase = .clients i) (hend : ¬ (1 ≤ i ∧ i < s.nfds)) :
      Step s .tau { s with phase := .polling }

/-- The listening socket is a constant of the loop. -/
theorem Step.sock_server {s t : State} {e : Event} (h : Step s e t) : t.sock_server = s.sock_server := by
  cases h <;> rfl

theorem disconnects_of_received {received : Received} (h : received.received ≤ 0) (sent_bytes : Int) :
    disconnects received sent_bytes = true := by
  simp [disconnects, h]

theorem removeClient_eq {s : State} {i : ℕ} {p q : PollFd} (hi : 1 ≤ i) (hp : s.fds.get? i = some p)
    (hq : s.fds.get? (s.nfds - 1) = some q) :
    removeClient s i = s.refill i q.fd [.close p.fd] := by
  simp only [removeClient, hp, hq, Nat.sub_add_cancel hi]
  rfl

/-- The table has the listener in it and fits into `fds`. -/
structure InRange (s : State) : Prop where
  pos : 1 ≤ s.nfds
  le : s.nfds ≤ maxConnection

/-- **The inversion lemma**: with the table in range, a step is one of the cases of `Step`. -/
theorem Step.of_step {s t : State} {e : Event} (hs : InRange s) (h : step s e = some t) :
    Step s e t := by
  obtain ⟨hpos, hle⟩ := hs
  obtain ⟨q, hq⟩ := s.fds.exists_get? (i := s.nfds - 1) (by omega)
  unfold step at h
  cases hphase : s.phase with
  | polling =>
      rw [hphase] at h
      cases e with
      | poll activity revents =>
          cases h
          unfold pollReturns
          split
          next hact => exact .pollFails hphase hact
          next hact => exact .polls hphase (by omega)
      | accept _ | serve _ _ _ | tau => cases h
  | listener =>
      obtain ⟨p, hp⟩ := s.fds.exists_get? (i := 0) (by omega)
      simp only [hphase, hp] at h
      split at h
      next hr =>
        cases e with
        | accept sock_client =>
            cases h
            unfold acceptClient
            split
            next hneg => exact .acceptFails hphase hneg
            next hneg =>
              split
              next hroom =>
                obtain ⟨c, hc⟩ := s.fds.exists_get? hroom
                simp only [storeClient, State.log, hc]
                exact .stores hphase (by omega) hroom
              next hroom => exact .full hphase (by omega) (by omega)
        | poll _ _ | serve _ _ _ | tau => cases h
      next hr =>
        cases e with
        | tau =>
            cases h
            exact .noListener hphase
        | poll _ _ | accept _ | serve _ _ _ => cases h
  | clients i =>
      simp only [hphase] at h
      split at h
      next hi =>
        obtain ⟨p, hp⟩ := s.fds.exists_get? (i := i) (by omega)
        simp only [hp] at h
        split at h
        next hr =>
          cases e with
          | serve received time sent_bytes =>
              cases h
              unfold serveClient
              split
              next hrec =>
                rw [removeClient_eq (s := s.log _) hi.1 hp hq]
                show Step s _ (s.refill i q.fd (.close p.fd :: ([] ++ [.recv p.fd])))
                exact .drops hphase hi.1 hi.2 hp hr (disconnects_of_received hrec _) hq
                  (by simp [hrec])
              next hrec =>
                split
                next hdrop =>
                  rw [removeClient_eq (s := (s.log _).log _) hi.1 hp hq]
                  show Step s _
                    (s.refill i q.fd
                      (.close p.fd :: ([.send p.fd (responseText time)] ++ [.recv p.fd])))
                  exact .drops hphase hi.1 hi.2 hp hr hdrop hq (by simp [hrec])
                next hkeep =>
                  exact .keeps hphase hi.1 hi.2 hp hr (by simpa using hkeep)
          | poll _ _ | accept _ | tau => cases h
        next hr =>
          cases e with
          | tau =>
              cases h
              exact .skips hphase hi.1 hi.2 hp (by simpa using hr)
          | poll _ _ | accept _ | serve _ _ _ => cases h
      next hend =>
        cases e with
        | tau =>
            cases h
            exact .endRound hphase hend
        | poll _ _ | accept _ | serve _ _ _ => cases h
  | exited => simp [hphase] at h
  | fault i => simp [hphase] at h

theorem InRange.of_step {s t : State} {e : Event} (hs : InRange s) (h : step s e = some t) :
    InRange t := by
  obtain ⟨hpos, hle⟩ := hs
  cases Step.of_step ⟨hpos, hle⟩ h with
  | stores _ _ hroom => exact ⟨Nat.succ_pos _, hroom⟩
  | drops _ hi hlt _ _ _ _ _ =>
      have hpos' : 1 ≤ s.nfds - 1 := by omega
      exact ⟨hpos', (Nat.sub_le _ _).trans hle⟩
  | pollFails | polls | acceptFails | full | noListener | keeps | skips | endRound =>
      exact ⟨hpos, hle⟩

theorem inRange_init (sock_server : Int) : InRange (init sock_server) :=
  ⟨le_rfl, Nat.le_of_ble_eq_true rfl⟩

/-! ## Rounds -/

theorem reported_append {s t : State} {calls : List Call} (hcalls : ∀ c ∈ calls, c.ready? = none)
    (ht : t.trace = calls ++ s.trace) : t.reported = s.reported := by
  rw [State.reported, ht, lastMark_append hcalls]
  rfl

theorem round_append {s t : State} {calls : List Call} (hcalls : ∀ c ∈ calls, c.ready? = none)
    (ht : t.trace = calls ++ s.trace) : t.round = calls ++ s.round := by
  rw [State.round, ht, currentRound_append hcalls]
  rfl

theorem reported_poll {s t : State} {ready : List Int} (ht : t.trace = .poll ready :: s.trace) :
    t.reported = ready := by
  have hmark : (Call.poll ready).ready? = some ready := rfl
  rw [State.reported, ht, lastMark_cons_some hmark]
  rfl

theorem round_poll {s t : State} {ready : List Int} (ht : t.trace = .poll ready :: s.trace) :
    t.round = [] := by
  have hmark : (Call.poll ready).ready? = some ready := rfl
  rw [State.round, ht, currentRound_cons_some hmark]

/-! ## What the steps do to the descriptor history -/

section History

variable {s t : State} {sock_client : Int}

theorem State.history_acceptFails (hneg : sock_client < 0)
    (ht : t.trace = .accept sock_client :: s.trace) : t.history = s.history := by
  rw [State.history, ht]
  exact List.filterMap_cons_none (Call.fdOp_accept_neg hneg)

/-- An accepted client is open, whether the table has room for it or not. -/
theorem State.history_full (hpos : 0 ≤ sock_client)
    (ht : t.trace = .accept sock_client :: s.trace) : t.history = .opened sock_client :: s.history := by
  rw [State.history, ht]
  exact List.filterMap_cons_some (Call.fdOp_accept_pos hpos)

theorem State.history_stores (hpos : 0 ≤ sock_client)
    (ht : t.trace = .stored sock_client :: .accept sock_client :: s.trace) :
    t.history = .stored sock_client :: .opened sock_client :: s.history := by
  rw [State.history, ht, List.filterMap_cons_some (Call.fdOp_stored _),
    List.filterMap_cons_some (Call.fdOp_accept_pos hpos)]
  rfl

theorem State.history_refill {i : ℕ} {fd d : Int} {calls : List Call}
    (hops : calls.filterMap Call.fdOp = [.closed d]) :
    (s.refill i fd calls).history = .closed d :: s.history := by
  show (calls ++ s.trace).filterMap Call.fdOp = _
  rw [List.filterMap_append, hops]
  rfl

/-- A client is closed once, whether the answer was sent to it before that or not. -/
theorem fdOps_drops {d : Int} {received : Received} {sends : List Call} {response : Bytes}
    (hsends : sends = if received.received ≤ 0 then [] else [.send d response]) :
    (Call.close d :: (sends ++ [.recv d])).filterMap Call.fdOp = [.closed d] := by
  rw [hsends]
  split
  · rfl
  · rfl

end History

end LinuxNet.Tutorials.PollServer
