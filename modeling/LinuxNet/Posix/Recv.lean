/-
# LinuxNet.Posix.Recv — what a call of `recv` can give back

`recv(fd, buf, len, 0)` answers a negative number on an error, `0` at the end of the stream, and
otherwise the number of bytes it has put at the start of the buffer.
-/
import LinuxNet.Lib.Bytes

namespace LinuxNet.Posix

open LinuxNet.Lib

/-- The outcome of one `recv`. -/
inductive Received where
  | failed
  | data (bytes : Bytes)
  deriving DecidableEq, Repr

/-- The value `recv` returns. -/
def Received.received : Received → Int
  | .failed => -1
  | .data bytes => bytes.length

/-- The bytes `recv` has written at the start of the buffer. -/
def Received.bytes : Received → Bytes
  | .failed => []
  | .data bytes => bytes

/-- Bytes that were received are not taken for a failure. -/
theorem not_received_nonpos {bytes : Bytes} (hne : bytes ≠ []) : ¬ (Received.data bytes).received ≤ 0 := by
  have hlen := List.length_pos_of_ne_nil hne
  show ¬ (bytes.length : Int) ≤ 0
  omega

/-- Without success, no bytes are written. -/
theorem bytes_eq_nil_of_nonpos {received : Received} (h : received.received ≤ 0) : received.bytes = [] := by
  rcases received with _ | bytes
  · rfl
  · exact List.length_eq_zero_iff.mp (Int.natCast_nonpos_iff.mp h)

/-! ## Streams -/

/-- **`Delivers rest asked received`** — what a call that asks for `asked` bytes may give back when `rest` is
still to come of a stream: bytes from the start of `rest`; none of them, or a failure, only if none is asked for
or none is left. -/
structure Delivers (rest : Bytes) (asked : ℕ) (received : Received) : Prop where
  isPrefix : received.bytes <+: rest
  length_le : received.bytes.length ≤ asked
  ends : received.received ≤ 0 → asked = 0 ∨ rest = []

/-- What was received is counted by what `recv` returns. -/
theorem length_pos_of_received_pos {received : Received} (h : 0 < received.received) :
    0 < received.bytes.length := by
  rcases received with _ | bytes
  · cases h
  · exact Int.natCast_pos.mp h

/-- A call can always give something back. -/
theorem exists_delivers (rest : Bytes) (asked : ℕ) : ∃ received, Delivers rest asked received := by
  refine ⟨.data (rest.take asked), List.take_prefix _ _, List.length_take_le _ _, fun hend => ?_⟩
  have hnil : rest.take asked = [] := bytes_eq_nil_of_nonpos hend
  rw [List.take_eq_nil_iff] at hnil
  exact hnil

section Stream

variable {stream : Bytes} {capacity n : ℕ} {received : Received}

/-- Of the stream, what was received is what comes next. -/
theorem Delivers.take_append (h : Delivers (stream.drop n) (capacity - n) received) :
    stream.take n ++ received.bytes = stream.take (n + received.bytes.length) := by
  rw [List.take_add, ← List.prefix_iff_eq_take.mp h.isPrefix]

/-- No more is received than there is, nor than there is room for. -/
theorem Delivers.add_le (h : Delivers (stream.drop n) (capacity - n) received)
    (hn : n ≤ min stream.length capacity) : n + received.bytes.length ≤ min stream.length capacity := by
  have hrest := h.isPrefix.length_le
  have hroom := h.length_le
  rw [List.length_drop] at hrest
  omega

/-- **The stream is at its end, or there is no room**, when a call has given nothing. -/
theorem Delivers.complete (h : Delivers (stream.drop n) (capacity - n) received)
    (hend : received.received ≤ 0) (hn : n ≤ min stream.length capacity) :
    n = min stream.length capacity := by
  rcases h.ends hend with hfull | hnone
  · omega
  · rw [List.drop_eq_nil_iff] at hnone
    omega

end Stream

end LinuxNet.Posix
