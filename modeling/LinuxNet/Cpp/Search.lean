/-
# LinuxNet.Cpp.Search — `std::string`: searching for a character, and cutting a part out

The positions are `std::size_t`, with `npos` for nothing found. A `std::string` is shorter than `2 ^ 63`
(`StdString`), so `npos` is no length, and a part that is asked for with it goes to the end.
-/
import LinuxNet.Cpp.Std

namespace LinuxNet.Cpp

open LinuxNet.Lib

/-- `std::string`: no longer than `max_size()`, which is below `2 ^ 63`. -/
structure StdString where
  bytes : Bytes
  length_lt : bytes.length < 2 ^ 63
  deriving DecidableEq

/-- `std::string::npos`. -/
def npos : ℕ := 2 ^ 64 - 1

/-- `s.find_first_of(c)`. -/
def findFirstOf (s : Bytes) (c : UInt8) : ℕ := if c ∈ s then s.idxOf c else npos

/-- `s.find_last_of(c)`. -/
def findLastOf (s : Bytes) (c : UInt8) : ℕ := if c ∈ s then s.length - 1 - s.reverse.idxOf c else npos

/-- `s.substr(pos, count)`. -/
def substr (s : Bytes) (pos count : ℕ) : Except Exn Bytes :=
  if s.length < pos then .error .outOfRange else .ok ((s.drop pos).take count)

section Find

variable {s pre post : Bytes} {c : UInt8}

theorem findFirstOf_of_notMem (h : c ∉ s) : findFirstOf s c = npos := if_neg h

theorem findLastOf_of_notMem (h : c ∉ s) : findLastOf s c = npos := if_neg h

theorem findFirstOf_append (hpre : c ∉ pre) (post : Bytes) : findFirstOf (pre ++ c :: post) c = pre.length := by
  have hin : c ∈ pre ++ c :: post := List.mem_append_right _ List.mem_cons_self
  rw [findFirstOf, if_pos hin, List.idxOf_append_of_notMem hpre, List.idxOf_cons_self, Nat.add_zero]

theorem findLastOf_append (pre : Bytes) (hpost : c ∉ post) : findLastOf (pre ++ c :: post) c = pre.length := by
  have hin : c ∈ pre ++ c :: post := List.mem_append_right _ List.mem_cons_self
  have hreverse : (pre ++ c :: post).reverse = post.reverse ++ c :: pre.reverse := by
    rw [List.reverse_append, List.reverse_cons, List.append_assoc, List.singleton_append]
  have hpost' : c ∉ post.reverse := mt List.mem_reverse.mp hpost
  rw [findLastOf, if_pos hin, hreverse, List.idxOf_append_of_notMem hpost', List.idxOf_cons_self,
    List.length_reverse, List.length_append, List.length_cons]
  omega

end Find

/-- With a count no string is as long as, the part goes to the end. -/
theorem substr_all {s : StdString} {pos count : ℕ} (hpos : pos ≤ s.bytes.length) (hcount : 2 ^ 63 ≤ count) :
    substr s.bytes pos count = .ok (s.bytes.drop pos) := by
  have hlen := s.length_lt
  have hall : (s.bytes.drop pos).length ≤ count := by
    rw [List.length_drop]
    omega
  rw [substr, if_neg (Nat.not_lt.mpr hpos), List.take_of_length_le hall]

end LinuxNet.Cpp
