/-
# LinuxNet.Tutorials.UdpServer — `run_server` of `10_peer_to_peer_client_server.c`

The server has one socket and no connections: it takes a datagram, shows it, and sends the time back to the
address it came from. A datagram without bytes looks like a failure of `recvfrom` and gets no answer. What is
kept between the two calls is `addr_client` and the request.
-/
import LinuxNet.Tutorials.UdpClient

namespace LinuxNet.Tutorials.UdpServer

open LinuxNet.Lib
open LinuxNet.Tutorials.Conversation (messageSize)
open LinuxNet.Tutorials.UdpClient (Address Datagram)

/-- Where the server is. -/
inductive Phase where
  /-- in `recvfrom` -/
  | receiving
  /-- before `sendto`, with the sender of the datagram and what it started with -/
  | replying (addr_client : Address) (request : Bytes)
  deriving DecidableEq, Repr

/-- What the server waits for. -/
inductive Event where
  /-- `recvfrom` fails, or takes a datagram -/
  | recvfrom (datagram : Option Datagram)
  /-- the time the server asks for, and what its `sendto` answers -/
  | sendto (time : Int) (rc : Int)
  deriving DecidableEq

/-- `sprintf(response_buffer, "Server received request at %d", time(NULL))`: `%d` shows the low 32 bits. -/
def responseText (time : Int) : Bytes :=
  ofText "Server received request at " ++ intText (BitVec.ofInt 32 time).toInt

/-- What follows `recvfrom`: without a byte the loop starts again. -/
def recvfromReturns : Option Datagram → Phase
  | none => .receiving
  | some d => if d.bytes = [] then .receiving else .replying d.sender (cString d.bytes)

/-- **One step of `run_server`.** A `sendto` that fails is reported, and the loop goes on. -/
def step (s : Phase) (e : Event) : Option Phase :=
  match s with
  | .receiving =>
    match e with
    | .recvfrom datagram => some (recvfromReturns datagram)
    | .sendto _ _ => none
  | .replying _ _ =>
    match e with
    | .sendto _ _ => some .receiving
    | .recvfrom _ => none

/-! ## The answer -/

theorem responseText_ne_nil (time : Int) : responseText time ≠ [] :=
  List.append_ne_nil_of_right_ne_nil _ (intText_ne_nil _)

theorem nul_notMem_responseText (time : Int) : (0 : UInt8) ∉ responseText time := by
  rw [responseText, List.mem_append, not_or]
  exact ⟨by decide, nul_notMem_intText _⟩

/-- A client shows the answer it gets as a whole. -/
theorem cString_responseText (time : Int) : cString (responseText time) = responseText time :=
  cString_of_notMem (nul_notMem_responseText time)

/-- `sprintf` stays within `response_buffer`, and so does a client that terminates what it gets. -/
theorem length_responseText_lt (time : Int) : (responseText time).length < messageSize := by
  have hlow := BitVec.le_two_mul_toInt (x := BitVec.ofInt 32 time)
  have hhigh := BitVec.two_mul_toInt_lt (x := BitVec.ofInt 32 time)
  have hlen : (intText (BitVec.ofInt 32 time).toInt).length ≤ 10 + 1 :=
    length_intText_le (by decide) (by omega)
  have hprefix : (ofText "Server received request at ").length = 27 := by decide
  rw [responseText, List.length_append, hprefix, messageSize]
  omega

end LinuxNet.Tutorials.UdpServer
