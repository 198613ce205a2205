/-
# LinuxNet.Tutorials.Turns — what the tutorial servers have in common

The multithreaded, the select and the poll server wait for their clients in three ways, but what they then do
with the sockets of the clients is the same: accept one, or take one request of one client, answer it, and
perhaps close the socket (`Iteration`). Which answer a request gets and when the socket is closed is what
`Service` says for a single client (`Legal`).

`ServerLoop` is a server that keeps to that: it only reads from clients it has accepted and not closed, the
calls on their sockets are those of its turns, and each iteration is what the service says.
-/
import LinuxNet.Lib.Clients
import LinuxNet.Tutorials.Conversation

namespace LinuxNet.Tutorials.Turns

open LinuxNet.Lib LinuxNet.Lib.Clients LinuxNet.Posix
open LinuxNet.Tutorials.Conversation (Service multiplexed)
open LinuxNet.Tutorials.PollServer (responseText disconnects)

/-! ## Iterations -/

/-- The calls on the sockets of clients. -/
inductive ClientCall where
  | accept (sock_client : Int)
  | recv (sock_client : Int)
  | send (sock_client : Int) (response : Bytes)
  | close (sock_client : Int)
  deriving DecidableEq, Repr

/-- An answer: what `time(NULL)` gave, the bytes given to `send`, and what that answered. -/
structure Answer where
  time : Int
  response : Bytes
  rc : Int
  deriving DecidableEq, Repr

/-- **One iteration for one client**: what `recv` gave, the answer if there was one, and whether the socket was
closed then. -/
structure Iteration where
  received : Received
  answer : Option Answer
  closed : Bool
  deriving DecidableEq

/-- The client is given up: nothing more is received, or its socket is closed. -/
def Iteration.ends (i : Iteration) : Bool := i.received.received ≤ 0 || i.closed

/-- The calls of a turn, newest first. -/
def turnCalls : Turn Int Iteration → List ClientCall
  | .accepts sock_client => [.accept sock_client]
  | .iterates sock_client i =>
    (if i.closed then [.close sock_client] else []) ++
      (i.answer.map fun r => ClientCall.send sock_client r.response).toList ++ [.recv sock_client]
  | .quits => []

/-- The calls of a step. -/
def callsOf (turn : Option (Turn Int Iteration)) : List ClientCall := turn.elim [] turnCalls

/-- **`Legal service closesAtEnd i`** — the iterations of this service. At the end of a client's stream the
socket is closed, or the client is just given up. -/
inductive Legal (service : Service) (closesAtEnd : Bool) : Iteration → Prop
  | ends {received : Received} (hend : received.received ≤ 0) :
      Legal service closesAtEnd ⟨received, none, closesAtEnd⟩
  | answers {received : Received} (hmore : 0 < received.received) (time rc : Int) :
      Legal service closesAtEnd
        ⟨received, some ⟨time, service.reply time (cString received.bytes), rc⟩,
          service.closes (cString received.bytes) rc⟩

/-! ## The turns of the select and of the poll server -/

/-- One iteration for a readable client: the loops of both servers do the same with it. -/
def iteration (received : Received) (time sent_bytes : Int) : Iteration where
  received := received
  answer := if received.received ≤ 0 then none else some ⟨time, responseText time, sent_bytes⟩
  closed := disconnects received sent_bytes

theorem disconnects_eq_closes {received : Received} (hmore : 0 < received.received) (sent_bytes : Int) :
    disconnects received sent_bytes = multiplexed.closes (cString received.bytes) sent_bytes := by
  rcases received with _ | bytes
  · cases hmore
  · apply Conversation.disconnects_eq
    rintro rfl
    cases hmore

theorem ends_iteration (received : Received) (time sent_bytes : Int) :
    (iteration received time sent_bytes).ends = disconnects received sent_bytes := by
  show (decide (received.received ≤ 0) || disconnects received sent_bytes) = _
  by_cases hend : received.received ≤ 0
  · rw [PollServer.disconnects_of_received hend, Bool.or_true]
  · rw [decide_eq_false hend, Bool.false_or]

theorem legal_iteration (received : Received) (time sent_bytes : Int) :
    Legal multiplexed true (iteration received time sent_bytes) := by
  unfold iteration
  by_cases hend : received.received ≤ 0
  · rw [PollServer.disconnects_of_received hend sent_bytes, if_pos hend]
    exact .ends hend
  · have hmore := Int.not_le.mp hend
    rw [disconnects_eq_closes hmore, if_neg hend]
    exact .answers hmore time sent_bytes

theorem obeys_iteration {sock_client : Int} {received : Received} {sent_bytes : Int} {before after : Finset Int}
    (hin : sock_client ∈ before)
    (hafter : after ⊆ if disconnects received sent_bytes then before.erase sock_client else before)
    (time : Int) :
    Obeys (Legal multiplexed true) Iteration.ends before
      (some (.iterates sock_client (iteration received time sent_bytes))) after := by
  refine .iterates hin (legal_iteration received time sent_bytes) ?_
  rw [ends_iteration]
  exact hafter

theorem callsOf_iteration_keeps {received : Received} {sent_bytes : Int}
    (hkeep : disconnects received sent_bytes = false) (sock_client time : Int) :
    callsOf (some (.iterates sock_client (iteration received time sent_bytes))) =
      [.send sock_client (responseText time), .recv sock_client] := by
  have hmore : ¬ received.received ≤ 0 := by
    intro hend
    rw [PollServer.disconnects_of_received hend] at hkeep
    cases hkeep
  simp only [callsOf, iteration, Option.elim_some, turnCalls, hkeep, if_neg hmore]
  rfl

theorem callsOf_iteration_drops {received : Received} {sent_bytes : Int}
    (hdrop : disconnects received sent_bytes = true) (sock_client time : Int) :
    callsOf (some (.iterates sock_client (iteration received time sent_bytes))) =
      .close sock_client ::
        ((if received.received ≤ 0 then [] else [.send sock_client (responseText time)]) ++
          [.recv sock_client]) := by
  simp only [callsOf, iteration, Option.elim_some, turnCalls, hdrop]
  by_cases hend : received.received ≤ 0
  · rw [if_pos hend, if_pos hend]
    rfl
  · rw [if_neg hend, if_neg hend]
    rfl

/-! ## Servers that obey their service -/

/-- **`ServerLoop σ ε service closesAtEnd`** — a server whose iterations are those of the service, and the
proof that its turns are all it does with clients. -/
structure ServerLoop (σ ε : Type) (service : Service) (closesAtEnd : Bool) extends
    Server σ ε Int Iteration (Legal service closesAtEnd) Iteration.ends where
  /-- the calls on the sockets of clients so far, newest first -/
  calls : σ → List ClientCall
  calls_step : ∀ {s e t}, Inv s → ok s e → step s e = some t → calls t = callsOf (turn s e) ++ calls s

end LinuxNet.Tutorials.Turns
