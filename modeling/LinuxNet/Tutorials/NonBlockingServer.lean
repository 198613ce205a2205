/-
# LinuxNet.Tutorials.NonBlockingServer — `run_server` of `11_non_blocking_sockets.c`

The server has room for one client, `sock_client`, and asks for the next one as long as that is negative.
Nothing but `accept` ever writes to it: a client that hangs up is reported in every later iteration, keeps its
socket and keeps its place (`slot_kept`). So the place becomes free again exactly in the runs in which nobody
hangs up (`slot_freed_iff`).

An event is what the calls of one iteration answer, those of them that are made.
-/
import LinuxNet.Lib.FdLedger
import LinuxNet.Lib.Machine
import LinuxNet.Posix.Recv

namespace LinuxNet.Tutorials.NonBlockingServer

open LinuxNet.Lib LinuxNet.Lib.FdLedger LinuxNet.Posix

/-! ## States, events and calls -/

/-- `EAGAIN`. -/
def eagain : Int := 11

/-- `EWOULDBLOCK`, the same on this system. -/
def ewouldblock : Int := 11

/-- `errno == EAGAIN || errno == EWOULDBLOCK` -/
def WouldBlock (errno : Int) : Prop := errno = eagain ∨ errno = ewouldblock

instance (errno : Int) : Decidable (WouldBlock errno) := inferInstanceAs (Decidable (_ ∨ _))

/-- What is sent to a client: `"Status OK"` with its NUL. -/
def statusOk : Bytes := ofText "Status OK" ++ [0]

/-- The calls of the loop and of what follows it. -/
inductive Call where
  /-- with the answer -/
  | accept (sock_server : Int) (sock_client : Int)
  | recv (sock_client : Int) (received : Received)
  | send (sock_client : Int) (message : Bytes) (sent_bytes : Int)
  | close (sock : Int)
  | freeaddrinfo
  deriving DecidableEq, Repr

/-- Where the server is. -/
inductive Phase where
  /-- at `while (1)` -/
  | polling
  /-- behind the loop -/
  | left
  deriving DecidableEq, Repr

/-- The variables of the loop, and the calls made so far, newest first. -/
structure State where
  sock_server : Int
  sock_client : Int
  phase : Phase
  trace : List Call
  deriving DecidableEq

/-- One iteration: what `accept` answers, what `recv` gives, each with the `errno` it leaves, and what `send`
answers. -/
structure Event where
  accepted : Int
  accept_errno : Int
  received : Received
  recv_errno : Int
  sent_bytes : Int

/-- The state at the first `while (1)`. -/
def init (sock_server : Int) : State := ⟨sock_server, -1, .polling, []⟩

/-- The state after one more call. -/
def State.log (s : State) (call : Call) : State := { s with trace := call :: s.trace }

/-- `break`, and what follows the loop. -/
def State.leave (s : State) : State :=
  { ((s.log (.close s.sock_server)).log (.close s.sock_client)).log .freeaddrinfo with phase := .left }

/-! ## One iteration -/

/-- `if (sock_client < 0)` -/
def acceptClient (s : State) (e : Event) : State :=
  if s.sock_client < 0 then
    let s := { s with sock_client := e.accepted }.log (.accept s.sock_server e.accepted)
    if e.accepted < 0 ∧ ¬ WouldBlock e.accept_errno then s.leave else s
  else s

/-- `if (sock_client > 0)` -/
def serveClient (s : State) (e : Event) : State :=
  if 0 < s.sock_client then
    let s := s.log (.recv s.sock_client e.received)
    if e.received.received < 0 then
      if ¬ WouldBlock e.recv_errno then s.leave else s
    -- the client is gone, and stays in its place
    else if e.received.received = 0 then s
    -- a failing `send` is reported only
    else s.log (.send s.sock_client statusOk e.sent_bytes)
  else s

/-- **One iteration of `run_server`.** -/
def step (s : State) (e : Event) : Option State :=
  match s.phase with
  | .polling =>
    let s := acceptClient s e
    some (if s.phase = .left then s else serveClient s e)
  | .left => none

/-! ## When the place is free again -/

/-- What a call does to the descriptors. -/
def Call.fdOp : Call → Option (FdOp Int)
  | .accept _ sock_client => if sock_client < 0 then none else some (.opened sock_client)
  | .close sock => if sock < 0 then none else some (.closed sock)
  | .recv _ _ | .send _ _ _ | .freeaddrinfo => none

/-- The history of the descriptors, newest first. -/
def history (trace : List Call) : List (FdOp Int) := trace.filterMap Call.fdOp

/-- The assumption on the system: a descriptor that is returned is not open. -/
def Fresh (s : State) (e : Event) : Prop :=
  s.sock_client < 0 → 0 ≤ e.accepted → e.accepted ∉ openFds {s.sock_server} (history s.trace)

instance (s : State) (e : Event) : Decidable (Fresh s e) := inferInstanceAs (Decidable (_ → _ → _))

/-- In this iteration `recv` reports that the client has hung up. -/
def HangsUp (s : State) (e : Event) : Prop :=
  0 < (acceptClient s e).sock_client ∧ e.received.received = 0

instance (s : State) (e : Event) : Decidable (HangsUp s e) := inferInstanceAs (Decidable (_ ∧ _))

/-- The client that has hung up, with the state behind the iteration. -/
def hangups (s : State) (e : Event) (t : State) : List (Int × State) :=
  if HangsUp s e then [((acceptClient s e).sock_client, t)] else []

/-- **The condition on an iteration**: nobody hangs up. -/
def StaysConnected (s : State) (e : Event) : Prop := ¬ HangsUp s e

/-- The call is one of `accept`. -/
def Call.IsAccept : Call → Prop
  | .accept _ _ => True
  | .recv _ _ | .send _ _ _ | .close _ | .freeaddrinfo => False

/-- Between two states `accept` is called. -/
def Accepts (s t : State) : Prop := ∃ calls, t.trace = calls ++ s.trace ∧ ∃ call ∈ calls, call.IsAccept

/-- **The place is free again**: the socket has been closed exactly once since it was opened, and the next
iteration calls `accept`, whatever the system answers. -/
def Freed (sock_client : Int) (t : State) : Prop :=
  (lifetimes sock_client (history t.trace)).head? = some 1 ∧ ∀ e, ∃ u, step t e = some u ∧ Accepts t u

/-! ## What an iteration can do -/

/-- **`Step s e t`** — everything one iteration can do. -/
inductive Step (s : State) (e : Event) : State → Prop
  /-- `accept` fails: the loop is left -/
  | acceptFails (hleft : (acceptClient s e).phase = .left) : Step s e (acceptClient s e)
  /-- nobody is there yet, or the descriptor is 0 -/
  | idle (hnone : (acceptClient s e).sock_client ≤ 0) : Step s e (acceptClient s e)
  /-- the client stays in its place: nothing has come, or it has hung up -/
  | waits (hclient : 0 < (acceptClient s e).sock_client) (hnothing : e.received.received ≤ 0) :
      Step s e ((acceptClient s e).log (.recv (acceptClient s e).sock_client e.received))
  | answers (hclient : 0 < (acceptClient s e).sock_client) (hmore : 0 < e.received.received) :
      Step s e (((acceptClient s e).log (.recv (acceptClient s e).sock_client e.received)).log
        (.send (acceptClient s e).sock_client statusOk e.sent_bytes))
  /-- `recv` fails: the loop is left -/
  | recvFails (hclient : 0 < (acceptClient s e).sock_client) (hfail : e.received.received < 0) :
      Step s e ((acceptClient s e).log (.recv (acceptClient s e).sock_client e.received)).leave

/-- What the first part of an iteration does. -/
theorem acceptClient_cases (s : State) (e : Event) :
    (e.accepted < 0 ∧
      acceptClient s e = ({ s with sock_client := e.accepted }.log (.accept s.sock_server e.accepted)).leave) ∨
    (s.sock_client < 0 ∧
      acceptClient s e = { s with sock_client := e.accepted }.log (.accept s.sock_server e.accepted)) ∨
    acceptClient s e = s := by
  unfold acceptClient
  split
  next hfree =>
    simp only
    split
    next hfail => exact .inl ⟨hfail.1, rfl⟩
    next => exact .inr (.inl ⟨hfree, rfl⟩)
  next => exact .inr (.inr rfl)

/-- With a client the iteration goes on. -/
theorem polling_of_client {s : State} {e : Event} (hphase : s.phase = .polling)
    (hclient : 0 < (acceptClient s e).sock_client) : (acceptClient s e).phase = .polling := by
  rcases acceptClient_cases s e with ⟨hfail, heq⟩ | ⟨-, heq⟩ | heq
  · rw [heq] at hclient
    exact absurd hclient hfail.not_gt
  · rw [heq]
    exact hphase
  · rw [heq]
    exact hphase

/-- The second part, with a client or without. -/
theorem Step.of_serve {s : State} {e : Event} : Step s e (serveClient (acceptClient s e) e) := by
  unfold serveClient
  split
  next hclient =>
    simp only
    split
    next hfail =>
      split
      next => exact .recvFails hclient hfail
      next => exact .waits hclient hfail.le
    next hnofail =>
      split
      next hgone => exact .waits hclient hgone.le
      next hmore => exact .answers hclient (lt_of_le_of_ne (Int.not_lt.mp hnofail) (Ne.symm hmore))
  next hnone => exact .idle (Int.not_lt.mp hnone)

/-- **The inversion lemma**: an iteration is one of the cases of `Step`. -/
theorem Step.of_step {s t : State} {e : Event} (h : step s e = some t) :
    s.phase = .polling ∧ Step s e t := by
  unfold step at h
  rcases hphase : s.phase with _ | _
  · rw [hphase] at h
    simp only [Option.some.injEq] at h
    refine ⟨rfl, ?_⟩
    split at h
    next hleft =>
      rw [← h]
      exact .acceptFails hleft
    next =>
      rw [← h]
      exact .of_serve
  · rw [hphase] at h
    cases h

/-! ## The place is taken for good -/

section Kept

variable {s t : State} {e : Event}

theorem acceptClient_of_client (hclient : 0 ≤ s.sock_client) (e : Event) : acceptClient s e = s :=
  if_neg (Int.not_lt.mpr hclient)

/-- **While there is a client, nobody else is accepted**, and the client stays in its place. -/
theorem kept_of_step (hclient : 0 ≤ s.sock_client) (h : step s e = some t) :
    t.sock_client = s.sock_client ∧ ∃ calls, t.trace = calls ++ s.trace ∧ ∀ call ∈ calls, ¬ call.IsAccept := by
  obtain ⟨-, hstep⟩ := Step.of_step h
  have hkept := acceptClient_of_client hclient e
  cases hstep with
  | acceptFails | idle =>
      rw [hkept]
      exact ⟨rfl, [], rfl, List.forall_mem_nil _⟩
  | waits =>
      rw [hkept]
      exact ⟨rfl, [_], rfl, List.forall_mem_singleton.mpr id⟩
  | answers =>
      rw [hkept]
      refine ⟨rfl, [_, _], rfl, ?_⟩
      rw [List.forall_mem_cons, List.forall_mem_singleton]
      exact ⟨id, id⟩
  | recvFails =>
      rw [hkept]
      refine ⟨rfl, [_, _, _, _], rfl, ?_⟩
      simp only [List.forall_mem_cons]
      exact ⟨id, id, id, id, List.forall_mem_nil _⟩

/-- The same of a run. -/
theorem kept_of_run {ok : State → Event → Prop} {es : List Event} (h : Run step ok s es t)
    (hclient : 0 ≤ s.sock_client) :
    t.sock_client = s.sock_client ∧ ∃ calls, t.trace = calls ++ s.trace ∧ ∀ call ∈ calls, ¬ call.IsAccept := by
  induction h with
  | nil => exact ⟨rfl, [], rfl, List.forall_mem_nil _⟩
  | cons _ hst _ ih =>
      obtain ⟨hsame, calls, htrace, hnone⟩ := kept_of_step hclient hst
      rw [← hsame] at hclient
      obtain ⟨hsame', calls', htrace', hnone'⟩ := ih hclient
      refine ⟨hsame'.trans hsame, calls' ++ calls, ?_, List.forall_mem_append.mpr ⟨hnone', hnone⟩⟩
      rw [htrace', htrace, List.append_assoc]

theorem not_accepts_of_run {ok : State → Event → Prop} {es : List Event} (h : Run step ok s es t)
    (hclient : 0 ≤ s.sock_client) : ¬ Accepts s t := by
  rintro ⟨calls, htrace, call, hin, haccept⟩
  obtain ⟨-, calls', htrace', hnone⟩ := kept_of_run h hclient
  rw [htrace] at htrace'
  obtain rfl : calls = calls' := List.append_cancel_right htrace'
  exact hnone call hin haccept

/-- In the loop, the client in the place is the only one that was ever accepted, and it has not been closed. -/
def OneClient (s : State) : Prop :=
  s.phase = .polling →
    history s.trace = if s.sock_client < 0 then [] else [.opened s.sock_client]

theorem oneClient_init (sock_server : Int) : OneClient (init sock_server) := fun _ => rfl

theorem history_accept {trace : List Call} (hnobody : history trace = []) (sock_server sock_client : Int) :
    history (.accept sock_server sock_client :: trace) =
      if sock_client < 0 then [] else [.opened sock_client] := by
  rw [← hnobody]
  by_cases hnone : sock_client < 0
  · rw [if_pos hnone]
    exact List.filterMap_cons_none (if_pos hnone)
  · rw [if_neg hnone]
    exact List.filterMap_cons_some (if_neg hnone)

/-- Somebody is accepted only if there is nobody. -/
theorem OneClient.accepted (hs : OneClient s) (hphase : s.phase = .polling) : OneClient (acceptClient s e) := by
  have hhistory := hs hphase
  rcases acceptClient_cases s e with ⟨-, heq⟩ | ⟨hfree, heq⟩ | heq
  · rw [heq]
    intro hno
    cases hno
  · rw [if_pos hfree] at hhistory
    rw [heq]
    intro _
    exact history_accept hhistory _ _
  · rw [heq]
    exact hs

/-- **The step lemma**: in the loop nothing is closed. -/
theorem OneClient.of_step (hs : OneClient s) (h : step s e = some t) : OneClient t := by
  obtain ⟨hphase, hstep⟩ := Step.of_step h
  have haccepted : OneClient (acceptClient s e) := hs.accepted hphase
  cases hstep with
  | acceptFails | idle | waits | answers => exact haccepted
  | recvFails =>
      intro hno
      cases hno

/-- A client that has hung up is where it was: in its place, and open. -/
theorem kept_of_hangsUp (hs : OneClient s) (hup : HangsUp s e) (h : step s e = some t) :
    0 < t.sock_client ∧ t.sock_client = (acceptClient s e).sock_client ∧
      history t.trace = [.opened t.sock_client] := by
  obtain ⟨hphase, hstep⟩ := Step.of_step h
  obtain ⟨hclient, hgone⟩ := hup
  have hpolling := polling_of_client hphase hclient
  cases hstep with
  | acceptFails hleft => cases hpolling.symm.trans hleft
  | idle hnone => exact absurd hclient hnone.not_gt
  | waits =>
      have hhistory := hs.accepted hphase hpolling
      rw [if_neg hclient.not_gt] at hhistory
      exact ⟨hclient, rfl, hhistory⟩
  | answers _ hmore => exact absurd hgone hmore.ne'
  | recvFails _ hfail => exact absurd hgone hfail.ne

end Kept

/-! ## The run -/

variable {ok : State → Event → Prop} {sock_server : Int} {es : List Event} {t : State}

/-- **Who has hung up keeps the place**, in every run: the socket has not been closed, and however the run goes
on, `accept` is not called again. -/
theorem slot_kept (h : Run step ok (init sock_server) es t) :
    ∀ o ∈ observations step hangups (init sock_server) es,
      lifetimes o.1 (history o.2.trace) = [0] ∧ ∀ ok' es' u, Run step ok' o.2 es' u → ¬ Accepts o.2 u := by
  refine (h.forall_observations_iff (I := OneClient) ?_ (oneClient_init sock_server)).mpr h
  intro s e t hs hok hst
  refine ⟨iff_of_true ?_ hok, fun _ => hs.of_step hst⟩
  rw [hangups]
  split
  next hup =>
    obtain ⟨hclient, hsame, hhistory⟩ := kept_of_hangsUp hs hup hst
    rw [List.forall_mem_singleton, hhistory, hsame]
    exact ⟨if_pos rfl, fun _ _ _ hrun => not_accepts_of_run hrun hclient.le⟩
  next => exact List.forall_mem_nil _

/-- **When the place becomes free.** For every sequence of answers of `accept`, `recv` and `send`: each client
that has been reported to have hung up has its socket closed exactly once, and the next iteration calls
`accept`, if and only if nobody has hung up at all. -/
theorem slot_freed_iff (h : Run step ok (init sock_server) es t) :
    (∀ o ∈ observations step hangups (init sock_server) es, Freed o.1 o.2) ↔
      Run step StaysConnected (init sock_server) es t := by
  refine h.forall_observations_iff (I := OneClient) ?_ (oneClient_init sock_server)
  intro s e t hs _ hst
  refine ⟨?_, fun _ => hs.of_step hst⟩
  rw [hangups]
  split
  next hup =>
    obtain ⟨hclient, -, -⟩ := kept_of_hangsUp hs hup hst
    refine iff_of_false (fun hfreed => ?_) (not_not.mpr hup)
    obtain ⟨-, haccepts⟩ := hfreed _ (List.mem_singleton_self _)
    obtain ⟨u, hu, haccepts⟩ := haccepts e
    have hrun : Run step (fun _ _ => True) t [e] u := .cons trivial hu (.nil u)
    exact not_accepts_of_run hrun hclient.le haccepts
  next hup => exact iff_of_true (List.forall_mem_nil _) hup

/-- Nothing comes. -/
def nothing : Event := ⟨-1, eagain, .failed, eagain, 0⟩

/-- A client asks for its status. -/
def asks : List Event :=
  [nothing, ⟨4, 0, .failed, eagain, 0⟩, ⟨-1, 0, .data (ofText "Client time: 1"), 0, 10⟩]

theorem slot_freed_iff_asks :
    ∃ t, Run step StaysConnected (init 3) asks t ∧
      ∀ o ∈ observations step hangups (init 3) asks, Freed o.1 o.2 := by
  have hexec : (execOk step (fun s e => Fresh s e ∧ ¬ HangsUp s e) (init 3) asks).isSome = true := by decide
  obtain ⟨t, hrun⟩ := exists_run_of_exec hexec
  have hstays : Run step StaysConnected (init 3) asks t := hrun.mono fun _ _ hok => hok.2
  exact ⟨t, hstays, (slot_freed_iff hrun).mpr hstays⟩

/-- A client hangs up. -/
def hangsUp : List Event := [⟨4, 0, .data [], 0, 0⟩]

/-- **A client that hangs up keeps the server to itself.** -/
theorem hangup_keeps_slot :
    ¬ ∀ (sock_server : Int) (es : List Event) (t : State), Run step Fresh (init sock_server) es t →
      ∀ o ∈ observations step hangups (init sock_server) es, Freed o.1 o.2 := by
  intro hall
  have hexec : (execOk step Fresh (init 3) hangsUp).isSome = true := by decide
  obtain ⟨t, hrun⟩ := exists_run_of_exec hexec
  have hup : (observations step hangups (init 3) hangsUp).map Prod.fst = [4] := by decide
  have hin : (4 : Int) ∈ (observations step hangups (init 3) hangsUp).map Prod.fst := by
    rw [hup]
    exact List.mem_singleton_self 4
  obtain ⟨o, ho, -⟩ := List.mem_map.mp hin
  obtain ⟨hclosed, -⟩ := hall 3 hangsUp t hrun o ho
  rw [(slot_kept hrun o ho).1] at hclosed
  cases hclosed

end LinuxNet.Tutorials.NonBlockingServer
