/-
# LinuxNet.Cpp.Std — the part of the C++ standard library the HTTP server rests on

`std::string` is a byte string whose length is bounded by `max_size()`, which the implementation
chooses: `Limits` has it as a parameter, between the largest `int` and the largest signed size.
`std::stoi` and `std::string::resize` are given with the exceptions the standard prescribes;
allocation below `max_size()` succeeds.
-/
import LinuxNet.Lib.Bytes

namespace LinuxNet.Cpp

open LinuxNet.Lib

/-- The exceptions that can occur. -/
inductive Exn where
  /-- `std::invalid_argument`: `stoi` finds no number -/
  | invalidArgument
  /-- `std::out_of_range`: `stoi` finds a number that is no `int`, `substr` begins behind the end -/
  | outOfRange
  /-- `std::length_error`: a string longer than `max_size()` -/
  | lengthError
  /-- `std::filesystem::filesystem_error` -/
  | filesystemError
  deriving DecidableEq, Repr

/-- **`Limits`** — `std::string::max_size()`: at least the largest `int`, and below `2 ^ 63`, so that no
negative number converted to `std::size_t` is within it. -/
structure Limits where
  maxSize : ℕ
  intMax_le : 2 ^ 31 - 1 ≤ maxSize
  maxSize_lt : maxSize < 2 ^ 63

/-- Strings are no longer than the largest `int`. -/
def intLimits : Limits where
  maxSize := 2 ^ 31 - 1
  intMax_le := le_rfl
  maxSize_lt := by decide

/-- The conversion of a signed number to `std::size_t`. -/
def toSizeT (n : Int) : ℕ := (n % 2 ^ 64).toNat

/-- `s.resize(n)`. -/
def resize (lim : Limits) (s : Bytes) (n : ℕ) : Except Exn Bytes :=
  if lim.maxSize < n then .error .lengthError
  else .ok (s.take n ++ List.replicate (n - s.length) 0)

/-- The optional sign of a number: whether it is a minus, and what follows. -/
def sign : Bytes → Bool × Bytes
  | 45 :: s => (true, s)
  | 43 :: s => (false, s)
  | s => (false, s)

/-- The number with this sign and magnitude. -/
def signedValue (minus : Bool) (magnitude : ℕ) : Int := if minus then -magnitude else magnitude

/-- **`std::stoi(s)`**: white space, an optional sign, the longest run of digits; what follows is
ignored. -/
def stoi (s : Bytes) : Except Exn Int :=
  let (minus, rest) := sign (s.dropWhile isSpace)
  let digits := rest.takeWhile isDigit
  if digits = [] then .error .invalidArgument
  else
    let value := signedValue minus (digitsValue digits)
    if value < -2 ^ 31 ∨ 2 ^ 31 ≤ value then .error .outOfRange else .ok value

/-! ## Conversions -/

theorem toSizeT_natCast {n : ℕ} (hn : n < 2 ^ 64) : toSizeT n = n := by
  have h : ((n : Int) % 2 ^ 64) = n := Int.emod_eq_of_lt (Int.natCast_nonneg n) (by exact_mod_cast hn)
  rw [toSizeT, h, Int.toNat_natCast]

/-- A negative number of magnitude at most `2 ^ 63` becomes a size no string can have. -/
theorem maxSize_lt_toSizeT (lim : Limits) {n : Int} (hneg : n < 0) (hlow : -2 ^ 63 ≤ n) :
    lim.maxSize < toSizeT n := by
  have hmax := lim.maxSize_lt
  have h : n % 2 ^ 64 = n + 2 ^ 64 := by
    rw [← Int.add_emod_right]
    exact Int.emod_eq_of_lt (by omega) (by omega)
  unfold toSizeT
  rw [h]
  omega

theorem resize_nil {lim : Limits} {n : ℕ} (hn : n ≤ lim.maxSize) :
    resize lim [] n = .ok (List.replicate n 0) := by
  simp [resize, Nat.not_lt.mpr hn]

theorem resize_error {lim : Limits} {n : ℕ} (s : Bytes) (hn : lim.maxSize < n) :
    resize lim s n = .error .lengthError := by
  simp [resize, hn]

/-! ## `stoi` on numerals -/

theorem sign_of_isDigit {b : UInt8} (hb : isDigit b = true) (s : Bytes) :
    sign (b :: s) = (false, b :: s) := by
  unfold sign
  split
  next h => cases h; exact absurd hb (by decide)
  next h => cases h; exact absurd hb (by decide)
  next => rfl

theorem not_isSpace_of_isDigit {b : UInt8} (hb : isDigit b = true) : isSpace b = false := by
  simp only [isDigit, Bool.and_eq_true, decide_eq_true_eq, UInt8.le_iff_toNat_le] at hb
  simp only [isSpace, Bool.or_eq_false_iff, Bool.and_eq_false_iff, beq_eq_false_iff_ne,
    decide_eq_false_iff_not, UInt8.le_iff_toNat_le]
  have h48 : (48 : UInt8).toNat = 48 := rfl
  have h13 : (13 : UInt8).toNat = 13 := rfl
  constructor
  · rintro rfl
    exact absurd hb.1 (by decide)
  · right
    omega

/-- **`stoi` on a decimal numeral**: the number, when it is an `int`. -/
theorem stoi_natText_eq (n : ℕ) :
    stoi (natText n) = if 2 ^ 31 ≤ n then .error .outOfRange else .ok n := by
  have hdigits : ∀ b ∈ natText n, isDigit b = true := fun b hb => isDigit_of_mem_natText hb
  have hne := natText_ne_nil n
  have hval := digitsValue_natText n
  obtain ⟨b, s, hs⟩ := List.exists_cons_of_ne_nil hne
  have hb : isDigit b = true := hdigits b (by simp [hs])
  have hdrop : (natText n).dropWhile isSpace = natText n := by
    simp [hs, not_isSpace_of_isDigit hb]
  have hsign : sign (natText n) = (false, natText n) := by rw [hs]; exact sign_of_isDigit hb s
  have htake : (natText n).takeWhile isDigit = natText n := List.takeWhile_eq_self_iff.mpr hdigits
  simp only [stoi, hdrop, hsign, htake, if_neg hne, hval, signedValue, Bool.false_eq_true, if_false]
  by_cases hn : 2 ^ 31 ≤ n
  · rw [if_pos hn, if_pos (by omega)]
  · rw [if_neg hn, if_neg (by omega)]

theorem stoi_natText {n : ℕ} (hn : n < 2 ^ 31) : stoi (natText n) = .ok n := by
  rw [stoi_natText_eq, if_neg (Nat.not_le.mpr hn)]

/-- The number a text starts with, after white space: `none` when there is no digit. -/
def leadingNumber (s : Bytes) : Option Int :=
  let (minus, rest) := sign (s.dropWhile isSpace)
  let digits := rest.takeWhile isDigit
  if digits = [] then none else some (signedValue minus (digitsValue digits))

/-- **`stoi` in terms of the number a text starts with.** -/
theorem stoi_eq (s : Bytes) :
    stoi s = (leadingNumber s).elim (.error .invalidArgument) fun n =>
      if n < -2 ^ 31 ∨ 2 ^ 31 ≤ n then .error .outOfRange else .ok n := by
  simp only [stoi, leadingNumber]
  split
  · rfl
  · rfl

theorem stoi_eq_ok_iff {s : Bytes} {n : Int} :
    stoi s = .ok n ↔ leadingNumber s = some n ∧ -2 ^ 31 ≤ n ∧ n < 2 ^ 31 := by
  rw [stoi_eq]
  cases leadingNumber s with
  | none => simp
  | some m =>
      show (if m < -2 ^ 31 ∨ 2 ^ 31 ≤ m then Except.error Exn.outOfRange else Except.ok m) = .ok n ↔ _
      split
      next hrange =>
        constructor
        · intro h
          cases h
        · rintro ⟨h, hlow, hhigh⟩
          cases h
          omega
      next hrange =>
        rw [Except.ok.injEq, Option.some.injEq]
        constructor
        · rintro rfl
          exact ⟨rfl, by omega⟩
        · exact And.left

/-- What `stoi` returns is an `int`. -/
theorem stoi_range {s : Bytes} {n : Int} (h : stoi s = .ok n) : -2 ^ 31 ≤ n ∧ n < 2 ^ 31 :=
  (stoi_eq_ok_iff.mp h).2

end LinuxNet.Cpp
