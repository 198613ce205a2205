/-
# LinuxNet.Tutorials.SelectServer.Loop — the server loop of `12_multiplexing_select_client_server.c`

`run_server` of the select tutorial as a machine whose events are the answers of the kernel. A round
copies `master_set` into `read_set`, lets `select` thin it out, and scans the descriptors from 0 to
`global_max_fd`: one step per descriptor, the listening socket and the clients in one scan. A client is
kept in three places, a slot of `fds_client`, the set `master_set` and the maximum.

A failed `select` leaves `read_set` as it is and the scan is made all the same. An `fd_set` is modelled as
a set of descriptors; which descriptors `FD_SET`, `FD_CLR` and `FD_ISSET` are called with is in the trace.

An `fd_set` has a bit for each descriptor below `FD_SETSIZE`, and nothing in the loop tests a descriptor
against it. `step` is the loop as long as every descriptor has its bit. `stepInFrame` is the loop whatever the
descriptors are: when a macro or `select` gets at what lies behind the set, anything may happen.
-/
import LinuxNet.Lib.FreeSlots
import LinuxNet.Tutorials.PollServer.Loop

namespace LinuxNet.Tutorials.SelectServer

open LinuxNet.Lib LinuxNet.Lib.FdLedger LinuxNet.Posix
open LinuxNet.Tutorials.PollServer (responseText disconnects)

/-- `MAX_CONNECTION`. -/
def maxConnection : ℕ := 100

/-- `FD_SETSIZE`. -/
def fdSetSize : Int := 1024

/-! ## States, events and calls -/

/-- Where the loop is. -/
inductive Phase where
  /-- before `select` -/
  | selecting
  /-- at the test of the scan, with this value of `i` -/
  | scan (i : Int)
  deriving DecidableEq

/-- The calls the loop makes. -/
inductive Call where
  /-- `select`, with the descriptors it reported as readable, if it succeeded -/
  | select (reported : Option (Finset Int))
  | fdIsset (fd : Int)
  | fdSet (fd : Int)
  | fdClr (fd : Int)
  | accept (sock_client : Int)
  | recv (fd : Int)
  | send (fd : Int) (response : Bytes)
  | close (fd : Int)
  deriving DecidableEq

/-- What a call does to the descriptors of the process. -/
def Call.fdOp : Call → Option (FdOp Int)
  | .accept sock_client => if sock_client < 0 then none else some (.opened sock_client)
  | .close fd => some (.closed fd)
  | .select _ | .fdIsset _ | .fdSet _ | .fdClr _ | .recv _ | .send _ _ => none

section SimpSet

variable (d : Int) (response : Bytes) (reported : Option (Finset Int))

@[simp] theorem Call.fdOp_select : (Call.select reported).fdOp = none := rfl
@[simp] theorem Call.fdOp_fdIsset : (Call.fdIsset d).fdOp = none := rfl
@[simp] theorem Call.fdOp_fdSet : (Call.fdSet d).fdOp = none := rfl
@[simp] theorem Call.fdOp_fdClr : (Call.fdClr d).fdOp = none := rfl
@[simp] theorem Call.fdOp_recv : (Call.recv d).fdOp = none := rfl
@[simp] theorem Call.fdOp_send : (Call.send d response).fdOp = none := rfl
@[simp] theorem Call.fdOp_close : (Call.close d).fdOp = some (.closed d) := rfl

theorem Call.fdOp_accept_neg {d : Int} (hd : d < 0) : (Call.accept d).fdOp = none := if_pos hd

theorem Call.fdOp_accept_pos {d : Int} (hd : 0 ≤ d) : (Call.accept d).fdOp = some (.opened d) :=
  if_neg (Int.not_lt.mpr hd)

end SimpSet

/-- The answers of the kernel. -/
inductive Event where
  /-- `select` returns `activity`, and of the descriptors it was asked about it reports those in `ready` -/
  | select (activity : Int) (ready : Finset Int)
  | accept (sock_client : Int)
  /-- one request: what `recv` gives, the time, what `send` answers (if it is called) -/
  | serve (received : Received) (time : Int) (sent_bytes : Int)
  /-- the program goes on without waiting for an answer -/
  | tau

/-- The variables of the loop, and the calls made so far, newest first. -/
structure State where
  fds_client : SlotArray Int maxConnection
  read_set : Finset Int
  master_set : Finset Int
  global_max_fd : Int
  sock_server : Int
  phase : Phase
  trace : List Call

/-- The descriptor history of the run. -/
def State.history (s : State) : List (FdOp Int) := s.trace.filterMap Call.fdOp

/-- The history goes on with what the new calls do. -/
theorem State.history_append (s : State) (calls : List Call) {t : State} (ht : t.trace = calls ++ s.trace) :
    t.history = calls.filterMap Call.fdOp ++ s.history := by
  rw [State.history, ht, List.filterMap_append]
  rfl

/-- The non-zero entries of `fds_client`. -/
def State.clients (s : State) : List Int := s.fds_client.inUse 0

/-- The state at the first `while (1)`. -/
def init (sock_server : Int) : State where
  fds_client := SlotArray.filled 0
  read_set := ∅
  master_set := {sock_server}
  global_max_fd := max 0 sock_server
  sock_server := sock_server
  phase := .selecting
  trace := [.fdSet sock_server]

/-- The assumption on `accept`: a descriptor it returns is positive and not open. -/
def NewAccept (base : Finset Int) (s : State) : Event → Prop
  | .accept sock_client => 0 ≤ sock_client → 0 < sock_client ∧ sock_client ∉ openFds base s.history
  | _ => True

/-- The descriptors that get into the sets have their bit there: that of the listening socket, and one that
`accept` returns while there is a free slot. -/
def BelowSetSize (s : State) : Event → Prop
  | .accept sock_client =>
    s.sock_server < fdSetSize ∧ (0 ∈ s.fds_client.cells → sock_client < fdSetSize)
  | _ => s.sock_server < fdSetSize

/-- **What is assumed of the descriptors**: a new one is positive and not open, and what gets into the sets
is below `FD_SETSIZE`. -/
def FreshAccept (base : Finset Int) (s : State) (e : Event) : Prop := NewAccept base s e ∧ BelowSetSize s e

instance (base : Finset Int) (s : State) : (e : Event) → Decidable (NewAccept base s e)
  | .accept sock_client =>
    inferInstanceAs
      (Decidable (0 ≤ sock_client → 0 < sock_client ∧ sock_client ∉ openFds base s.history))
  | .select _ _ | .serve _ _ _ | .tau => isTrue trivial

instance (s : State) : (e : Event) → Decidable (BelowSetSize s e)
  | .accept sock_client =>
    inferInstanceAs
      (Decidable (s.sock_server < fdSetSize ∧ (0 ∈ s.fds_client.cells → sock_client < fdSetSize)))
  | .select _ _ | .serve _ _ _ | .tau => inferInstanceAs (Decidable (s.sock_server < fdSetSize))

instance (base : Finset Int) (s : State) (e : Event) : Decidable (FreshAccept base s e) :=
  inferInstanceAs (Decidable (NewAccept base s e ∧ BelowSetSize s e))

/-! ## One step -/

/-- The state after one more call. -/
def State.log (s : State) (call : Call) : State := { s with trace := call :: s.trace }

/-- `read_set = master_set` and what follows `select`. -/
def selectReturns (s : State) (activity : Int) (ready : Finset Int) : State :=
  if activity < 0 then { s.log (.select none) with read_set := s.master_set, phase := .scan 0 }
  else
    let read_set := s.master_set ∩ ready
    { s.log (.select (some read_set)) with read_set := read_set, phase := .scan 0 }

/-- The loop over `fds_client` that looks for a free slot. -/
def storeClient (s : State) (sock_client : Int) : State :=
  if 0 ∈ s.fds_client.cells then
    { s.log (.fdSet sock_client) with
      fds_client := s.fds_client.replaceFirst 0 sock_client
      master_set := insert sock_client s.master_set
      global_max_fd := max s.global_max_fd sock_client }
  else s

/-- What follows `accept`. -/
def acceptClient (s : State) (sock_client : Int) : State :=
  if sock_client < 0 then s.log (.accept sock_client)
  else storeClient (s.log (.accept sock_client)) sock_client

/-- `close(i); FD_CLR(i, &master_set);` and the loop over `fds_client` that looks for `i`. -/
def closeClient (s : State) (i : Int) : State :=
  { (s.log (.close i)).log (.fdClr i) with
    master_set := s.master_set.erase i
    fds_client := s.fds_client.replaceFirst i 0 }

/-- What is done for a readable descriptor `i` that is not the listening socket. -/
def serveClient (s : State) (i : Int) (received : Received) (time sent_bytes : Int) : State :=
  if received.received ≤ 0 then closeClient (s.log (.recv i)) i
  else if disconnects received sent_bytes then
    closeClient ((s.log (.recv i)).log (.send i (responseText time))) i
  else (s.log (.recv i)).log (.send i (responseText time))

/-- **One step of the server loop**, as long as every descriptor has its bit in the sets. -/
def step (s : State) (e : Event) : Option State :=
  match s.phase with
  | .selecting =>
    match e with
    | .select activity ready => some (selectReturns s activity ready)
    | _ => none
  | .scan i =>
    if i ≤ s.global_max_fd then
      -- the state after `FD_ISSET` and, whatever happens in the body, `i++`
      let next : State := { s.log (.fdIsset i) with phase := .scan (i + 1) }
      if i ∈ s.read_set then
        if i = s.sock_server then
          match e with
          | .accept sock_client => some (acceptClient next sock_client)
          | _ => none
        else
          match e with
          | .serve received time sent_bytes => some (serveClient next i received time sent_bytes)
          | _ => none
      else
        match e with
        | .tau => some next
        | _ => none
    else
      match e with
      | .tau => some { s with phase := .selecting }
      | _ => none

/-! ## Descriptors without a bit -/

/-- Every descriptor the step hands to `FD_ISSET`, `FD_SET`, `FD_CLR` and `select` has its bit in the set. -/
def insideSets (s : State) (e : Event) : Bool :=
  match s.phase with
  | .selecting => s.global_max_fd < fdSetSize
  | .scan i =>
    decide (i ≤ s.global_max_fd → i < fdSetSize) &&
      match e with
      | .accept sock_client =>
        decide (i ≤ s.global_max_fd → i ∈ s.read_set → i = s.sock_server → 0 ≤ sock_client →
          0 ∈ s.fds_client.cells → sock_client < fdSetSize)
      | _ => true

/-- **One step of the server loop, whatever the descriptors are.** `frame` is what becomes of the program when
the step gets at what the compiler has put behind a set. -/
def stepInFrame (frame : State → Event → Option State) (s : State) (e : Event) : Option State :=
  if insideSets s e then step s e else frame s e

/-- The 32-bit integer with one more bit set. -/
def setBit (n : Int) (bit : ℕ) : Int := Int.bmod (((n % 2 ^ 32).toNat ||| 2 ^ bit : ℕ) : Int) (2 ^ 32)

example : setBit 4 3 = 12 := by decide

/-- **The frame of `run_server` in a debug build**: `fds_client` lies directly behind `master_set`, so an
`FD_SET` beyond the set puts the bit into an entry of `fds_client`. Only this is followed here. -/
def debugFrame (s : State) : Event → Option State
  | .accept sock_client =>
    match s.phase with
    | .scan i =>
      if i < fdSetSize then
        let bit := (sock_client - fdSetSize).toNat
        let stored := s.fds_client.replaceFirst 0 sock_client
        (stored.get? (bit / 32)).map fun fd =>
          { s with
            fds_client := stored.set (bit / 32) (setBit fd (bit % 32))
            global_max_fd := max s.global_max_fd sock_client
            phase := .scan (i + 1)
            trace := .fdSet sock_client :: .accept sock_client :: .fdIsset i :: s.trace }
      else none
    | .selecting => none
  | .select _ _ | .serve _ _ _ | .tau => none

/-! ## What a step can do -/

/-- The state after the client `i` has been closed. -/
def State.without (s : State) (i : Int) (calls : List Call) : State :=
  { s with
    fds_client := s.fds_client.replaceFirst i 0
    master_set := s.master_set.erase i
    phase := .scan (i + 1)
    trace := calls ++ s.trace }

/-- **`Step s e t`** — everything one step can do, one case per path through the loop body, each with
the tests that select it. -/
inductive Step (s : State) : Event → State → Prop
  | selectFails {activity : Int} {ready : Finset Int} (hphase : s.phase = .selecting)
      (hact : activity < 0) :
      Step s (.select activity ready)
        { s with read_set := s.master_set, phase := .scan 0, trace := .select none :: s.trace }
  | selects {activity : Int} {ready : Finset Int} (hphase : s.phase = .selecting)
      (hact : 0 ≤ activity) :
      Step s (.select activity ready)
        { s with
          read_set := s.master_set ∩ ready
          phase := .scan 0
          trace := .select (some (s.master_set ∩ ready)) :: s.trace }
  | acceptFails {i sock_client : Int} (hphase : s.phase = .scan i) (hmem : i ∈ s.read_set)
      (hsock : i = s.sock_server) (hneg : sock_client < 0) :
      Step s (.accept sock_client)
        { s with phase := .scan (i + 1), trace := .accept sock_client :: .fdIsset i :: s.trace }
  | stores {i sock_client : Int} (hphase : s.phase = .scan i) (hmem : i ∈ s.read_set)
      (hsock : i = s.sock_server) (hpos : 0 ≤ sock_client) (hroom : 0 ∈ s.fds_client.cells) :
      Step s (.accept sock_client)
        { s with
          fds_client := s.fds_client.replaceFirst 0 sock_client
          master_set := insert sock_client s.master_set
          global_max_fd := max s.global_max_fd sock_client
          phase := .scan (i + 1)
          trace := .fdSet sock_client :: .accept sock_client :: .fdIsset i :: s.trace }
  | full {i sock_client : Int} (hphase : s.phase = .scan i) (hmem : i ∈ s.read_set)
      (hsock : i = s.sock_server) (hpos : 0 ≤ sock_client) (hfull : 0 ∉ s.fds_client.cells) :
      Step s (.accept sock_client)
        { s with phase := .scan (i + 1), trace := .accept sock_client :: .fdIsset i :: s.trace }
  | keeps {i : Int} {received : Received} {time sent_bytes : Int} (hphase : s.phase = .scan i)
      (hmem : i ∈ s.read_set) (hsock : i ≠ s.sock_server)
      (hkeep : disconnects received sent_bytes = false) :
      Step s (.serve received time sent_bytes)
        { s with
          phase := .scan (i + 1)
          trace := .send i (responseText time) :: .recv i :: .fdIsset i :: s.trace }
  | drops {i : Int} {received : Received} {time sent_bytes : Int} {sends : List Call}
      (hphase : s.phase = .scan i) (hmem : i ∈ s.read_set) (hsock : i ≠ s.sock_server)
      (hdrop : disconnects received sent_bytes = true)
      (hsends : sends = if received.received ≤ 0 then [] else [.send i (responseText time)]) :
      Step s (.serve received time sent_bytes)
        (s.without i (.fdClr i :: .close i :: (sends ++ [.recv i, .fdIsset i])))
  | skips {i : Int} (hphase : s.phase = .scan i) (hle : i ≤ s.global_max_fd) (hmem : i ∉ s.read_set) :
      Step s .tau { s with phase := .scan (i + 1), trace := .fdIsset i :: s.trace }
  | endRound {i : Int} (hphase : s.phase = .scan i) (hend : s.global_max_fd < i) :
      Step s .tau { s with phase := .selecting }

/-- The listening socket is a constant of the loop. -/
theorem Step.sock_server {s t : State} {e : Event} (h : Step s e t) : t.sock_server = s.sock_server := by
  cases h <;> rfl

/-- The scan of a readable client. -/
theorem Step.of_serve {s : State} {i : Int} (hphase : s.phase = .scan i) (hmem : i ∈ s.read_set)
    (hsock : i ≠ s.sock_server) (received : Received) (time sent_bytes : Int) :
    Step s (.serve received time sent_bytes)
      (serveClient { s.log (.fdIsset i) with phase := .scan (i + 1) } i received time sent_bytes) := by
  unfold serveClient
  split
  next hrec =>
    show Step s _ (s.without i (.fdClr i :: .close i :: ([] ++ [.recv i, .fdIsset i])))
    exact .drops hphase hmem hsock (PollServer.disconnects_of_received hrec _) (by simp [hrec])
  next hrec =>
    split
    next hdrop =>
      show Step s _
        (s.without i
          (.fdClr i :: .close i :: ([.send i (responseText time)] ++ [.recv i, .fdIsset i])))
      exact .drops hphase hmem hsock hdrop (by simp [hrec])
    next hkeep => exact .keeps hphase hmem hsock (by simpa using hkeep)

/-- The scan of a readable listening socket. -/
theorem Step.of_accept {s : State} {i : Int} (hphase : s.phase = .scan i) (hmem : i ∈ s.read_set)
    (hsock : i = s.sock_server) (sock_client : Int) :
    Step s (.accept sock_client)
      (acceptClient { s.log (.fdIsset i) with phase := .scan (i + 1) } sock_client) := by
  unfold acceptClient
  split
  next hneg => exact .acceptFails hphase hmem hsock hneg
  next hneg =>
    unfold storeClient
    split
    next hroom => exact .stores hphase hmem hsock (Int.not_lt.mp hneg) hroom
    next hfull => exact .full hphase hmem hsock (Int.not_lt.mp hneg) hfull

/-- **The inversion lemma**: a step is one of the cases of `Step`. -/
theorem Step.of_step {s t : State} {e : Event} (h : step s e = some t) : Step s e t := by
  unfold step at h
  rcases hphase : s.phase with _ | i
  · rw [hphase] at h
    rcases e with ⟨activity, ready⟩ | _ | _ | _
    · cases h
      unfold selectReturns
      split
      next hact => exact .selectFails hphase hact
      next hact => exact .selects hphase (Int.not_lt.mp hact)
    all_goals cases h
  · simp only [hphase] at h
    split at h
    next hle =>
      split at h
      next hmem =>
        split at h
        next hsock =>
          rcases e with _ | sock_client | _ | _
          case accept =>
            cases h
            exact .of_accept hphase hmem hsock sock_client
          all_goals cases h
        next hsock =>
          rcases e with _ | _ | ⟨received, time, sent_bytes⟩ | _
          case serve =>
            cases h
            exact .of_serve hphase hmem hsock received time sent_bytes
          all_goals cases h
      next hmem =>
        rcases e with _ | _ | _ | _
        case tau =>
          cases h
          exact .skips hphase hle hmem
        all_goals cases h
    next hend =>
      rcases e with _ | _ | _ | _
      case tau =>
        cases h
        exact .endRound hphase (Int.not_le.mp hend)
      all_goals cases h

/-! ## What the steps do to the descriptor history -/

section History

variable {s t : State} {i sock_client : Int}

theorem State.history_acceptFails (hneg : sock_client < 0)
    (ht : t.trace = .accept sock_client :: .fdIsset i :: s.trace) : t.history = s.history := by
  have hops : [Call.accept sock_client, .fdIsset i].filterMap Call.fdOp = [] := by
    simp [List.filterMap_cons, Call.fdOp_accept_neg hneg]
  rw [s.history_append [_, _] ht, hops]
  rfl

/-- An accepted client is open, whether it finds a slot or not. -/
theorem State.history_full (hpos : 0 ≤ sock_client)
    (ht : t.trace = .accept sock_client :: .fdIsset i :: s.trace) :
    t.history = .opened sock_client :: s.history := by
  have hops : [Call.accept sock_client, .fdIsset i].filterMap Call.fdOp = [.opened sock_client] := by
    simp [List.filterMap_cons, Call.fdOp_accept_pos hpos]
  rw [s.history_append [_, _] ht, hops]
  rfl

theorem State.history_stores (hpos : 0 ≤ sock_client)
    (ht : t.trace = .fdSet sock_client :: .accept sock_client :: .fdIsset i :: s.trace) :
    t.history = .opened sock_client :: s.history := by
  have hops : [Call.fdSet sock_client, .accept sock_client, .fdIsset i].filterMap Call.fdOp =
      [.opened sock_client] := by
    simp [List.filterMap_cons, Call.fdOp_accept_pos hpos]
  rw [s.history_append [_, _, _] ht, hops]
  rfl

theorem State.history_without {calls : List Call} (hops : calls.filterMap Call.fdOp = [.closed i]) :
    (s.without i calls).history = .closed i :: s.history := by
  rw [s.history_append calls rfl, hops]
  rfl

/-- A client is closed once, whether the answer was sent to it before that or not. -/
theorem fdOps_drops {received : Received} {sends : List Call} {response : Bytes}
    (hsends : sends = if received.received ≤ 0 then [] else [.send i response]) :
    (Call.fdClr i :: .close i :: (sends ++ [.recv i, .fdIsset i])).filterMap Call.fdOp =
      [.closed i] := by
  rw [hsends]
  split
  · rfl
  · rfl

end History

/-! ## Below `FD_SETSIZE` -/

section BelowSetSize

variable {s t : State} {e : Event}

/-- A step stays inside the sets, as long as the highest descriptor has its bit. -/
theorem insideSets_of_below (hmax : s.global_max_fd < fdSetSize) (hbelow : BelowSetSize s e) :
    insideSets s e = true := by
  unfold insideSets
  split
  · exact decide_eq_true hmax
  · rw [Bool.and_eq_true]
    refine ⟨decide_eq_true fun hle => hle.trans_lt hmax, ?_⟩
    split
    · exact decide_eq_true fun _ _ _ _ hroom => hbelow.2 hroom
    · rfl

/-- The highest descriptor keeps its bit. -/
theorem max_lt_of_step (hmax : s.global_max_fd < fdSetSize) (hbelow : BelowSetSize s e)
    (h : step s e = some t) : t.global_max_fd < fdSetSize := by
  cases Step.of_step h with
  | stores _ _ _ _ hroom => exact max_lt hmax (hbelow.2 hroom)
  | selectFails | selects | acceptFails | full | keeps | drops | skips | endRound => exact hmax

/-- The highest descriptor of every run has its bit. -/
theorem max_lt_of_reach {ok : State → Event → Prop} (hok : ∀ s e, ok s e → BelowSetSize s e)
    {sock_server : Int} (hsock : sock_server < fdSetSize) (h : Reach step ok (init sock_server) s) :
    s.global_max_fd < fdSetSize :=
  h.invariant (fun s e _ hmax hallowed => max_lt_of_step hmax (hok s e hallowed)) (max_lt (by decide) hsock)

/-- **Below `FD_SETSIZE`** nothing behind the sets is touched: the runs are those of `step`. -/
theorem reach_stepInFrame_iff {frame : State → Event → Option State} {ok : State → Event → Prop}
    (hok : ∀ s e, ok s e → BelowSetSize s e) {sock_server : Int} (hsock : sock_server < fdSetSize) :
    Reach (stepInFrame frame) ok (init sock_server) s ↔ Reach step ok (init sock_server) s := by
  have hstart : (init sock_server).global_max_fd < fdSetSize := max_lt (by decide) hsock
  have heq {s : State} {e : Event} (hmax : s.global_max_fd < fdSetSize) (hallowed : ok s e) :
      stepInFrame frame s e = step s e := if_pos (insideSets_of_below hmax (hok s e hallowed))
  constructor
  · refine fun h => h.transfer (I := fun s => s.global_max_fd < fdSetSize) ?_ hstart
    intro s e t hmax hallowed hst
    rw [heq hmax hallowed] at hst
    exact ⟨hallowed, hst, max_lt_of_step hmax (hok s e hallowed) hst⟩
  · refine fun h => h.transfer (I := fun s => s.global_max_fd < fdSetSize) ?_ hstart
    intro s e t hmax hallowed hst
    refine ⟨hallowed, ?_, max_lt_of_step hmax (hok s e hallowed) hst⟩
    rw [heq hmax hallowed, hst]

end BelowSetSize

end LinuxNet.Tutorials.SelectServer
