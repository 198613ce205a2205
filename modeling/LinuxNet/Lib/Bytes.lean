/-
# LinuxNet.Lib.Bytes — byte strings: delimiters, tokens, C strings and decimal numerals

The text formats of network programs are cut out of byte strings with very few tools, and this module
has those tools and the equations a proof needs to carry a position through them:

* `splitFirst c` — everything before and after the first `c`;
* `lines c` — the results of reading up to the delimiter `c` again and again, each with the bytes left
  unread after it (the last piece may lack its delimiter, an empty last piece is no piece);
* `extractToken` — skip white space, take what is not white space; `words` — all of a text's tokens;
* `cString` — what a C string function sees of a buffer;
* `natText`, `intText` — decimal numerals, and `digitsValue`, which reads one back.
-/
import Mathlib.Data.List.TakeWhile
import Mathlib.Data.Nat.Digits.Lemmas

namespace LinuxNet.Lib

/-- A string of bytes. -/
abbrev Bytes := List UInt8

/-- The bytes of an ASCII text. -/
def ofText (s : String) : Bytes := s.toList.map fun c => UInt8.ofNat c.toNat

/-- Carriage return. -/
def cr : UInt8 := 13

/-- Line feed. -/
def lf : UInt8 := 10

/-- The slash. -/
def slash : UInt8 := 47

/-! ## Cutting at a delimiter -/

section Delimiters

variable {α : Type*} [DecidableEq α]

/-- What stands before and after the first `c`. -/
def splitFirst (c : α) : List α → Option (List α × List α)
  | [] => none
  | a :: l => if a = c then some ([], l) else (splitFirst c l).map fun p => (a :: p.1, p.2)

theorem splitFirst_append {c : α} {pre : List α} (hpre : c ∉ pre) (post : List α) :
    splitFirst c (pre ++ c :: post) = some (pre, post) := by
  induction pre with
  | nil => simp [splitFirst]
  | cons a pre ih =>
      simp only [List.mem_cons, not_or] at hpre
      simp [splitFirst, Ne.symm hpre.1, ih hpre.2]

/-- **Cutting and joining**: the cut is where the first `c` stands. -/
theorem splitFirst_eq_some_iff {c : α} {l pre post : List α} :
    splitFirst c l = some (pre, post) ↔ l = pre ++ c :: post ∧ c ∉ pre := by
  constructor
  · intro h
    induction l generalizing pre with
    | nil => cases h
    | cons a l ih =>
        rw [splitFirst] at h
        split at h
        next ha =>
          cases h
          exact ⟨by rw [ha]; rfl, List.not_mem_nil⟩
        next ha =>
          obtain ⟨⟨pre', post'⟩, hcut, heq⟩ := Option.map_eq_some_iff.mp h
          cases heq
          obtain ⟨rfl, hout⟩ := ih hcut
          refine ⟨rfl, ?_⟩
          rw [List.mem_cons, not_or]
          exact ⟨Ne.symm ha, hout⟩
  · rintro ⟨rfl, hout⟩
    exact splitFirst_append hout post

theorem splitFirst_eq_none_iff {c : α} {l : List α} : splitFirst c l = none ↔ c ∉ l := by
  constructor
  · intro h hmem
    obtain ⟨pre, post, rfl, hout⟩ := List.eq_append_cons_of_mem hmem
    rw [splitFirst_append hout] at h
    cases h
  · intro h
    rw [Option.eq_none_iff_forall_ne_some]
    rintro ⟨pre, post⟩ hcut
    rw [(splitFirst_eq_some_iff.mp hcut).1] at h
    exact h (by simp)

/-- Read up to the delimiter again and again: each piece, with the bytes left unread after it. -/
def lines (c : α) : List α → List (List α × List α)
  | [] => []
  | a :: l =>
    if a = c then ([], l) :: lines c l
    else match lines c l with
      | [] => [([a], [])]
      | (piece, rest) :: more => (a :: piece, rest) :: more

/-- A piece ends at the first delimiter, and reading goes on behind it. -/
theorem lines_append {c : α} {piece : List α} (hpiece : c ∉ piece) (rest : List α) :
    lines c (piece ++ c :: rest) = (piece, rest) :: lines c rest := by
  induction piece with
  | nil => simp [lines]
  | cons a piece ih =>
      simp only [List.mem_cons, not_or] at hpiece
      simp [lines, Ne.symm hpiece.1, ih hpiece.2]

/-- A last piece without delimiter is read to the end. -/
theorem lines_of_notMem {c : α} {l : List α} (h : c ∉ l) (hne : l ≠ []) : lines c l = [(l, [])] := by
  induction l with
  | nil => exact absurd rfl hne
  | cons a l ih =>
      simp only [List.mem_cons, not_or] at h
      cases l with
      | nil => simp [lines, Ne.symm h.1]
      | cons b l =>
          have hb := ih h.2 (by simp)
          simp only [lines, Ne.symm h.1, if_false] at hb ⊢
          rw [hb]

/-- No piece has the delimiter in it. -/
theorem notMem_of_mem_lines {c : α} {l : List α} {p : List α × List α} (h : p ∈ lines c l) :
    c ∉ p.1 := by
  induction l generalizing p with
  | nil => cases h
  | cons a l ih =>
      rw [lines] at h
      split at h
      next =>
        rcases List.mem_cons.mp h with rfl | h
        · exact List.not_mem_nil
        · exact ih h
      next ha =>
        split at h
        next =>
          rw [List.mem_singleton.mp h, List.mem_singleton]
          exact Ne.symm ha
        next piece rest more hmore =>
          rcases List.mem_cons.mp h with rfl | h
          · show c ∉ a :: piece
            rw [List.mem_cons, not_or]
            exact ⟨Ne.symm ha, ih (p := (piece, rest)) (by rw [hmore]; exact List.mem_cons_self)⟩
          · exact ih (by rw [hmore]; exact List.mem_cons_of_mem _ h)

/-- The first piece of something. -/
theorem head?_lines {c : α} {l : List α} (hne : l ≠ []) :
    (lines c l).head?.map Prod.fst = some (l.takeWhile (· ≠ c)) := by
  induction l with
  | nil => exact absurd rfl hne
  | cons a l ih =>
      by_cases ha : a = c
      · simp [lines, ha]
      · rcases l with _ | ⟨b, l⟩
        · simp [lines, ha]
        · have hb := ih (by simp)
          rw [lines, if_neg ha, List.takeWhile_cons_of_pos (by simpa using ha)]
          cases hl : lines c (b :: l) with
          | nil =>
              rw [hl] at hb
              cases hb
          | cons p more =>
              rw [hl] at hb
              rw [← Option.some.inj hb]
              rfl

end Delimiters

/-! ## Tokens -/

/-- `isspace` of the C locale. -/
def isSpace (b : UInt8) : Bool := b == 32 || (9 ≤ b && b ≤ 13)

/-- Skip white space, then take the longest run that is not white space; with what is left. -/
def extractToken (s : Bytes) : Bytes × Bytes :=
  let t := s.dropWhile isSpace
  (t.takeWhile (!isSpace ·), t.dropWhile (!isSpace ·))

theorem extractToken_space {b : UInt8} (hb : isSpace b = true) (s : Bytes) :
    extractToken (b :: s) = extractToken s := by
  simp [extractToken, hb]

/-- A token followed by white space is extracted as it is. -/
theorem extractToken_append {tok : Bytes} (hne : tok ≠ []) (htok : ∀ b ∈ tok, isSpace b = false)
    {sp : UInt8} (hsp : isSpace sp = true) (rest : Bytes) :
    extractToken (tok ++ sp :: rest) = (tok, sp :: rest) := by
  cases tok with
  | nil => exact absurd rfl hne
  | cons a tok =>
      have hdrop : ((a :: tok) ++ sp :: rest).dropWhile isSpace = (a :: tok) ++ sp :: rest := by
        simp [htok a (by simp)]
      have htake : ∀ b ∈ a :: tok, (!isSpace b) = true := by
        intro b hb
        simp [htok b hb]
      simp only [extractToken, hdrop]
      rw [List.takeWhile_append_of_pos htake, List.dropWhile_append_of_pos htake]
      simp [hsp]

/-- A token has no white space in it. -/
theorem isSpace_of_mem_extractToken {s : Bytes} {b : UInt8} (hb : b ∈ (extractToken s).1) :
    isSpace b = false := by
  simpa using List.mem_takeWhile_imp hb

/-- Where there is no token, nothing but white space is passed over. -/
theorem extractToken_snd_of_nil {s : Bytes} (h : (extractToken s).1 = []) : (extractToken s).2 = [] := by
  show (s.dropWhile isSpace).dropWhile (!isSpace ·) = []
  cases hs : s.dropWhile isSpace with
  | nil => rfl
  | cons b rest =>
      have hb : isSpace b = false := by
        have hhead := List.head?_dropWhile_not isSpace s
        rw [hs] at hhead
        simpa using hhead
      have htake : (s.dropWhile isSpace).takeWhile (!isSpace ·) = [] := h
      rw [hs, List.takeWhile_cons_of_pos (by simpa using hb)] at htake
      cases htake

/-- A token that runs to the end. -/
theorem extractToken_self {tok : Bytes} (htok : ∀ b ∈ tok, isSpace b = false) :
    extractToken tok = (tok, []) := by
  have hdrop : tok.dropWhile isSpace = tok := by
    cases tok with
    | nil => rfl
    | cons a tok => simp [htok a (by simp)]
  have htake : ∀ b ∈ tok, (!isSpace b) = true := by
    intro b hb
    simp [htok b hb]
  simp only [extractToken, hdrop]
  rw [List.takeWhile_eq_self_iff.mpr htake, List.dropWhile_eq_nil_iff.mpr htake]

/-- The words of a text: its longest runs without white space. -/
def words (s : Bytes) : List Bytes := (s.splitOnP isSpace).filter (· ≠ [])

theorem words_space {b : UInt8} (hb : isSpace b = true) (s : Bytes) : words (b :: s) = words s := by
  simp [words, List.splitOnP_cons_eq_if_modifyHead, hb]

/-- White space in front of a text does not matter. -/
theorem words_dropWhile (s : Bytes) : words (s.dropWhile isSpace) = words s := by
  induction s with
  | nil => rfl
  | cons b s ih =>
      by_cases hb : isSpace b = true
      · rw [List.dropWhile_cons_of_pos hb, ih, words_space hb]
      · rw [List.dropWhile_cons_of_neg hb]

/-- **The words of a text are its tokens**: the first one, and the words of what is left. -/
theorem words_eq (s : Bytes) :
    words s = if (extractToken s).1 = [] then [] else (extractToken s).1 :: words (extractToken s).2 := by
  rw [← words_dropWhile]
  show words (s.dropWhile isSpace) =
    if (s.dropWhile isSpace).takeWhile (!isSpace ·) = [] then []
    else (s.dropWhile isSpace).takeWhile (!isSpace ·) ::
      words ((s.dropWhile isSpace).dropWhile (!isSpace ·))
  have hhead : ∀ b ∈ (s.dropWhile isSpace).head?, isSpace b = false := by
    intro b hb
    have hnot := List.head?_dropWhile_not isSpace s
    rw [Option.mem_def] at hb
    rw [hb] at hnot
    simpa using hnot
  generalize s.dropWhile isSpace = t at hhead ⊢
  rcases t with _ | ⟨b, t⟩
  · rfl
  · have hb : isSpace b = false := hhead b rfl
    have htoken : (b :: t).takeWhile (!isSpace ·) ≠ [] := by simp [hb]
    have hinside : ∀ c ∈ (b :: t).takeWhile (!isSpace ·), isSpace c = false := by
      intro c hc
      simpa using List.mem_takeWhile_imp hc
    rw [if_neg htoken]
    have hjoin := List.takeWhile_append_dropWhile (p := (!isSpace ·)) (l := b :: t)
    rcases hrest : (b :: t).dropWhile (!isSpace ·) with _ | ⟨c, rest⟩
    · -- the token runs to the end
      rw [hrest, List.append_nil] at hjoin
      rw [hjoin] at hinside ⊢
      rw [words, List.splitOnP_eq_singleton hinside]
      simp [words]
    · have hc : isSpace c = true := by
        have hnot := List.head?_dropWhile_not (!isSpace ·) (b :: t)
        rw [hrest] at hnot
        simpa using hnot
      rw [hrest] at hjoin
      conv_lhs => rw [← hjoin]
      rw [words_space hc, words, List.splitOnP_append_cons_of_forall_mem hinside c hc rest,
        List.filter_cons_of_pos (by simpa using htoken)]
      rfl

/-- There is a second token exactly when there are two words. -/
theorem extractToken_extractToken_eq_nil_iff (s : Bytes) :
    (extractToken (extractToken s).2).1 = [] ↔ (words s).length < 2 := by
  rw [words_eq s]
  split
  next hnil =>
    rw [extractToken_snd_of_nil hnil]
    simp [extractToken]
  next =>
    rw [words_eq (extractToken s).2]
    split
    next hnil => simp [hnil]
    next hne => simp [hne]

/-! ## C strings -/

/-- The C string a buffer starts with: its bytes before the first NUL. -/
def cString (buf : Bytes) : Bytes := buf.takeWhile (· != 0)

/-- What follows a NUL is not part of the C string. -/
theorem cString_append_nul (s rest : Bytes) : cString (s ++ 0 :: rest) = cString s := by
  induction s with
  | nil => rfl
  | cons b s ih =>
      by_cases hb : b = 0
      · simp [cString, hb]
      · simpa [cString, hb] using ih

/-- Bytes without NUL are passed over. -/
theorem cString_append {s : Bytes} (h : (0 : UInt8) ∉ s) (rest : Bytes) :
    cString (s ++ rest) = s ++ cString rest := by
  have hs : ∀ b ∈ s, (b != 0) = true := by
    intro b hb
    simpa using ne_of_mem_of_not_mem hb h
  exact List.takeWhile_append_of_pos hs

/-- Nothing behind bytes with a NUL is reached. -/
theorem cString_append_of_mem {s : Bytes} (h : (0 : UInt8) ∈ s) (rest : Bytes) :
    cString (s ++ rest) = cString s := by
  obtain ⟨before, behind, rfl⟩ := List.append_of_mem h
  rw [List.append_assoc, List.cons_append, cString_append_nul, cString_append_nul]

theorem cString_of_notMem {s : Bytes} (h : (0 : UInt8) ∉ s) : cString s = s := by
  apply List.takeWhile_eq_self_iff.mpr
  intro b hb
  simpa using ne_of_mem_of_not_mem hb h

theorem nul_notMem_cString (s : Bytes) : (0 : UInt8) ∉ cString s := by
  intro h
  simpa using List.mem_takeWhile_imp h

/-! ## Decimal numerals -/

/-- The digit `d`, `d < 10`. -/
def digitByte (d : ℕ) : UInt8 := UInt8.ofNat (48 + d)

/-- `isdigit`. -/
def isDigit (b : UInt8) : Bool := 48 ≤ b && b ≤ 57

/-- The decimal numeral of a natural number, as `std::to_string` and `operator<<` write it. -/
def natText (n : ℕ) : Bytes :=
  if n = 0 then [48] else ((Nat.digits 10 n).map digitByte).reverse

/-- The decimal numeral of an integer. -/
def intText (n : Int) : Bytes :=
  if n < 0 then 45 :: natText n.natAbs else natText n.natAbs

/-- The number a string of digits stands for. -/
def digitsValue (s : Bytes) : ℕ := s.foldl (fun acc b => acc * 10 + (b.toNat - 48)) 0

theorem toNat_digitByte {d : ℕ} (hd : d < 10) : (digitByte d).toNat = 48 + d := by
  simp only [digitByte, UInt8.toNat_ofNat']
  omega

theorem isDigit_digitByte {d : ℕ} (hd : d < 10) : isDigit (digitByte d) = true := by
  have h := toNat_digitByte hd
  simp only [isDigit, Bool.and_eq_true, decide_eq_true_eq, UInt8.le_iff_toNat_le, h]
  exact ⟨Nat.le_add_right 48 d, by simp; omega⟩

theorem isDigit_of_mem_natText {n : ℕ} {b : UInt8} (hb : b ∈ natText n) : isDigit b = true := by
  unfold natText at hb
  split at hb
  next => simp at hb; subst hb; decide
  next =>
    simp only [List.mem_reverse, List.mem_map] at hb
    obtain ⟨d, hd, rfl⟩ := hb
    exact isDigit_digitByte (Nat.digits_lt_base (by norm_num) hd)

theorem natText_ne_nil (n : ℕ) : natText n ≠ [] := by
  unfold natText
  split
  next => simp
  next h => simpa [Nat.digits_eq_nil_iff_eq_zero] using h

theorem length_natText_le {n k : ℕ} (hk : 0 < k) (h : n < 10 ^ k) : (natText n).length ≤ k := by
  unfold natText
  split
  next => exact hk
  next =>
    rw [List.length_reverse, List.length_map]
    exact (Nat.digits_length_le_iff (by norm_num) n).mpr h

theorem foldr_digitByte {ds : List ℕ} (hds : ∀ d ∈ ds, d < 10) :
    (ds.map digitByte).foldr (fun b acc => acc * 10 + (b.toNat - 48)) 0 = Nat.ofDigits 10 ds := by
  induction ds with
  | nil => rfl
  | cons d ds ih =>
      rw [List.map_cons, List.foldr_cons, ih fun e he => hds e (List.mem_cons_of_mem d he),
        toNat_digitByte (hds d (by simp)), Nat.ofDigits_cons]
      omega

/-- **Reading a numeral back.** -/
theorem digitsValue_natText (n : ℕ) : digitsValue (natText n) = n := by
  unfold natText
  split
  next h => subst h; rfl
  next =>
    have hlt : ∀ d ∈ Nat.digits 10 n, d < 10 := fun d hd => Nat.digits_lt_base (by norm_num) hd
    rw [digitsValue, List.foldl_reverse, foldr_digitByte hlt, Nat.ofDigits_digits]

/-- Every byte of an integer's numeral is a digit or the sign. -/
theorem mem_intText {n : Int} {b : UInt8} (hb : b ∈ intText n) : b = 45 ∨ isDigit b = true := by
  unfold intText at hb
  split at hb
  next =>
    rcases List.mem_cons.mp hb with rfl | hb
    · exact .inl rfl
    · exact .inr (isDigit_of_mem_natText hb)
  next => exact .inr (isDigit_of_mem_natText hb)

theorem nul_notMem_intText (n : Int) : (0 : UInt8) ∉ intText n := by
  intro h
  rcases mem_intText h with h | h
  · exact absurd h (by decide)
  · exact absurd h (by decide)

theorem length_intText_le {n : Int} {k : ℕ} (hk : 0 < k) (h : n.natAbs < 10 ^ k) :
    (intText n).length ≤ k + 1 := by
  have hle := length_natText_le hk h
  unfold intText
  split
  next =>
    rw [List.length_cons]
    omega
  next => omega

theorem intText_ne_nil (n : Int) : intText n ≠ [] := by
  unfold intText
  split
  next => simp
  next => exact natText_ne_nil _

end LinuxNet.Lib
