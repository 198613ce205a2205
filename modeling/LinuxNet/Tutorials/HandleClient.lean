/-
# LinuxNet.Tutorials.HandleClient — the thread function of `09_multithread_client_server.c`

`server_handle_client` talks to one client: it receives a request, answers it and goes on until nothing more
is received or the client asks it to stop. An event is what the calls of one iteration answer. Which text
belongs to a request, and which requests end the conversation, is said in `Conversation`.
-/
import LinuxNet.Tutorials.Conversation

namespace LinuxNet.Tutorials.HandleClient

open LinuxNet.Lib LinuxNet.Posix
open LinuxNet.Tutorials.Conversation (leaves serverHandleClient)

/-- The calls on the socket. -/
inductive Call where
  | recv (fd : Int)
  | send (fd : Int) (response : Bytes)
  | close (fd : Int)
  deriving DecidableEq, Repr

/-- Where the function is. -/
inductive Phase where
  /-- before `recv` -/
  | receiving
  /-- after the loop -/
  | left
  deriving DecidableEq, Repr

/-- One iteration: what `recv` gives, the time, what `send` answers (if it is called). -/
structure Event where
  received : Received
  time : Int
  rc : Int

/-- The variables of the function, and the calls made so far, newest first. -/
structure State where
  sock_client : Int
  phase : Phase
  trace : List Call
  deriving DecidableEq

/-- The state at the first `while (1)`. -/
def init (sock_client : Int) : State := ⟨sock_client, .receiving, []⟩

/-- The state after one more call. -/
def State.log (s : State) (call : Call) : State := { s with trace := call :: s.trace }

/-- What follows a request: a failing `send` is reported only, and the socket is closed when the client asks
to stop. -/
def answer (s : State) (request : Bytes) (time : Int) : State :=
  let answered := s.log (.send s.sock_client (serverHandleClient.reply time request))
  if leaves request then { answered.log (.close s.sock_client) with phase := .left } else answered

/-- **One iteration of `server_handle_client`.** When nothing is received the loop is left. -/
def step (s : State) (e : Event) : Option State :=
  match s.phase with
  | .receiving =>
    let received := s.log (.recv s.sock_client)
    -- the socket is not closed on this path
    if e.received.received ≤ 0 then some { received with phase := .left }
    else some (answer received (cString e.received.bytes) e.time)
  | .left => none

/-- **An iteration is what the service says**: a request is answered with its reply, and the loop is left
exactly when the service closes the connection. -/
theorem step_data {s : State} (hphase : s.phase = .receiving) {bytes : Bytes} (hne : bytes ≠ [])
    (time rc : Int) : ∃ t, step s ⟨.data bytes, time, rc⟩ = some t ∧
      .send s.sock_client (serverHandleClient.reply time (cString bytes)) ∈ t.trace ∧
      (t.phase = .left ↔ serverHandleClient.closes (cString bytes) rc = true) := by
  have hpos := not_received_nonpos hne
  have hstep : step s ⟨.data bytes, time, rc⟩ =
      some (answer (s.log (.recv s.sock_client)) (cString bytes) time) := by
    simp only [step, hphase]
    exact if_neg hpos
  refine ⟨_, hstep, ?_⟩
  show _ ∧ (_ ↔ leaves (cString bytes) = true)
  unfold answer
  split
  next hleave => exact ⟨List.mem_cons_of_mem _ List.mem_cons_self, iff_of_true rfl hleave⟩
  next hstay =>
    refine ⟨List.mem_cons_self, iff_of_false ?_ hstay⟩
    show s.phase ≠ .left
    rw [hphase]
    exact Phase.noConfusion

/-- **What an iteration can do**: nothing is received and the loop is left, the client asks to stop, or it is
answered. -/
theorem step_cases {s t : State} {e : Event} (h : step s e = some t) :
    (e.received.received ≤ 0 ∧ t = { s with phase := .left, trace := .recv s.sock_client :: s.trace }) ∨
    ∃ response, 0 < e.received.received ∧
      (t = { s with
          phase := .left
          trace := .close s.sock_client :: .send s.sock_client response :: .recv s.sock_client :: s.trace } ∨
        t = { s with trace := .send s.sock_client response :: .recv s.sock_client :: s.trace }) := by
  unfold step at h
  rcases hphase : s.phase with _ | _
  · rw [hphase] at h
    simp only at h
    split at h
    next hend =>
      cases h
      exact .inl ⟨hend, rfl⟩
    next hmore =>
      cases h
      refine .inr ⟨serverHandleClient.reply e.time (cString e.received.bytes), Int.not_le.mp hmore, ?_⟩
      unfold answer
      split
      · exact .inl rfl
      · rw [← hphase]
        exact .inr rfl
  · rw [hphase] at h
    cases h

end LinuxNet.Tutorials.HandleClient
