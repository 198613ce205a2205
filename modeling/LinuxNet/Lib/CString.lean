/-
# LinuxNet.Lib.CString — what the string functions of C look at

A C string function is given a pointer and goes on until it has found a NUL, wherever that is. The memory
from a buffer's first byte on is a list `mem` here, the bytes of the buffer and those behind it.

An access (`Access`) is a range of indices; it is `Inside` a buffer of some size if no index in it is too
large. Reading the string at index `i` (`readString`) looks at all of it and at its NUL, so it stays in the
buffer exactly when there is a NUL in the rest of the buffer (`readString_inside_iff`). A buffer that is zeroed
before it is written to (`bufferMemory`) has one unless it is filled. `strcmp` stops where the comparison is
decided (`readCompared`). `find` is the search of `strstr`.
-/
import Mathlib.Data.List.GetD
import LinuxNet.Lib.Bytes

namespace LinuxNet.Lib

/-! ## Accesses -/

/-- **`Access`** — the indices `first, …, first + count - 1` of a buffer, read or written. -/
inductive Access where
  | read (first count : ℕ)
  | write (first count : ℕ)
  deriving DecidableEq, Repr

/-- The index behind the last one touched. -/
def Access.stop : Access → ℕ
  | .read first count | .write first count => first + count

/-- Every index touched is below `size`. -/
def Access.Inside (size : ℕ) (a : Access) : Prop := a.stop ≤ size

instance (size : ℕ) (a : Access) : Decidable (a.Inside size) := inferInstanceAs (Decidable (_ ≤ _))

@[simp] theorem inside_read {size first count : ℕ} :
    (Access.read first count).Inside size ↔ first + count ≤ size := .rfl

@[simp] theorem inside_write {size first count : ℕ} :
    (Access.write first count).Inside size ↔ first + count ≤ size := .rfl

/-! ## Strings in memory -/

/-- The string a buffer of size `n` starts with ends in the buffer exactly when there is a NUL in it. -/
theorem length_cString_lt_iff {mem : Bytes} {n : ℕ} (hn : n ≤ mem.length) :
    (cString mem).length < n ↔ (0 : UInt8) ∈ mem.take n := by
  induction mem generalizing n with
  | nil =>
      obtain rfl : n = 0 := Nat.le_zero.mp hn
      simp
  | cons b mem ih =>
      rcases n with _ | n
      · simp
      · by_cases hb : b = 0
        · simp [cString, hb]
        · have hcons : cString (b :: mem) = b :: cString mem := by simp [cString, hb]
          rw [hcons, List.length_cons, List.take_succ_cons, List.mem_cons, Nat.add_lt_add_iff_right,
            ih (Nat.le_of_succ_le_succ hn), or_iff_right (Ne.symm hb)]

/-- The string at a later index of a string is the rest of it. -/
theorem cString_drop {mem : Bytes} {i : ℕ} (hi : i ≤ (cString mem).length) :
    cString (mem.drop i) = (cString mem).drop i := by
  induction mem generalizing i with
  | nil => rw [List.drop_nil, cString, List.takeWhile_nil, List.drop_nil]
  | cons b mem ih =>
      rcases i with _ | i
      · rfl
      · by_cases hb : b = 0
        · simp [cString, hb] at hi
        · have hcons : cString (b :: mem) = b :: cString mem := by simp [cString, hb]
          rw [hcons, List.length_cons] at hi
          rw [hcons, List.drop_succ_cons, List.drop_succ_cons, ih (Nat.le_of_succ_le_succ hi)]

/-- The string at index `i` is read, its NUL included. -/
def readString (mem : Bytes) (i : ℕ) : Access := .read i ((cString (mem.drop i)).length + 1)

/-- **Reading a string** stays in the buffer exactly when there is a NUL in the rest of the buffer. -/
theorem readString_inside_iff {mem : Bytes} {size i : ℕ} (hi : i ≤ size) (hsize : size ≤ mem.length) :
    (readString mem i).Inside size ↔ (0 : UInt8) ∈ (mem.drop i).take (size - i) := by
  have hlen : size - i ≤ (mem.drop i).length := by
    rw [List.length_drop]
    omega
  rw [readString, inside_read, ← length_cString_lt_iff hlen]
  omega

/-- Reading a string from a later index of it stays where reading all of it does. -/
theorem readString_drop_inside {mem : Bytes} {size i : ℕ} (hi : i ≤ (cString mem).length)
    (h : (readString mem 0).Inside size) : (readString mem i).Inside size := by
  rw [readString, inside_read, List.drop_zero] at h
  rw [readString, inside_read, cString_drop hi, List.length_drop]
  omega

/-! ## Zeroed buffers -/

/-- The memory from the start of a buffer of `size` bytes that was zeroed before `bytes` were put at its start;
`behind` stands behind the buffer. -/
def bufferMemory (size : ℕ) (bytes behind : Bytes) : Bytes :=
  bytes ++ List.replicate (size - bytes.length) 0 ++ behind

theorem take_bufferMemory {size : ℕ} {bytes : Bytes} (h : bytes.length ≤ size) (behind : Bytes) :
    (bufferMemory size bytes behind).take size = bytes ++ List.replicate (size - bytes.length) 0 := by
  apply List.take_left'
  rw [List.length_append, List.length_replicate]
  omega

theorem le_length_bufferMemory {size : ℕ} {bytes : Bytes} (h : bytes.length ≤ size) (behind : Bytes) :
    size ≤ (bufferMemory size bytes behind).length := by
  rw [bufferMemory, List.length_append, List.length_append, List.length_replicate]
  omega

/-- **What was put into a zeroed buffer ends in it** unless it fills the buffer and has no NUL. -/
theorem readString_bufferMemory_iff {size : ℕ} {bytes : Bytes} (h : bytes.length ≤ size) (behind : Bytes) :
    (readString (bufferMemory size bytes behind) 0).Inside size ↔
      bytes.length < size ∨ (0 : UInt8) ∈ bytes := by
  rw [readString_inside_iff (Nat.zero_le size) (le_length_bufferMemory h behind), List.drop_zero,
    Nat.sub_zero, take_bufferMemory h, List.mem_append, List.mem_replicate, or_comm]
  apply or_congr_left
  constructor
  · rintro ⟨hroom, -⟩
    omega
  · intro hlt
    exact ⟨by omega, rfl⟩

/-- What is read back from a zeroed buffer, if it ends in it. -/
theorem cString_bufferMemory {size : ℕ} {bytes : Bytes} (h : bytes.length < size ∨ (0 : UInt8) ∈ bytes)
    (behind : Bytes) : cString (bufferMemory size bytes behind) = cString bytes := by
  rcases h with hroom | hnul
  · obtain ⟨n, hn⟩ := Nat.exists_eq_add_of_lt hroom
    have hzeros : size - bytes.length = n + 1 := by omega
    rw [bufferMemory, hzeros, List.replicate_succ, List.append_assoc, List.cons_append, cString_append_nul]
  · rw [bufferMemory, List.append_assoc, cString_append_of_mem hnul]

/-- `memcpy(dst, src, n)` for the `n` bytes of `src`: the memory from `dst` on. -/
def memcpy (dst src : Bytes) : Bytes := src ++ dst.drop src.length

theorem getD_memcpy (dst src : Bytes) (i : ℕ) :
    (memcpy dst src).getD i 0 = if i < src.length then src.getD i 0 else dst.getD i 0 := by
  rw [memcpy]
  split
  next hlt => exact List.getD_append _ _ _ _ hlt
  next hge =>
    have hle := Nat.not_lt.mp hge
    rw [List.getD_append_right _ _ _ _ hle, List.getD_eq_getElem?_getD, List.getD_eq_getElem?_getD,
      List.getElem?_drop, Nat.add_sub_cancel' hle]

/-- Memory after `bytes` have been written from index `i` on. -/
def store (mem : Bytes) (i : ℕ) (bytes : Bytes) : Bytes := mem.take i ++ memcpy (mem.drop i) bytes

/-- Bytes that are written behind the first ones. -/
theorem store_append_drop (start mem bytes : Bytes) :
    store (start ++ mem.drop start.length) start.length bytes =
      start ++ bytes ++ mem.drop (start ++ bytes).length := by
  rw [store, List.take_left, List.drop_left, memcpy, List.drop_drop, List.length_append, List.append_assoc]

/-- A string of no bytes. -/
theorem cString_eq_nil_iff {mem : Bytes} : cString mem = [] ↔ mem.getD 0 0 = 0 := by
  rcases mem with _ | ⟨b, mem⟩
  · exact iff_of_true rfl rfl
  · by_cases hb : b = 0
    · exact iff_of_true (by simp [cString, hb]) hb
    · exact iff_of_false (by simp [cString, hb]) hb

/-- **A text that is copied over another one** is read back exactly when a NUL stands behind it. -/
theorem cString_memcpy_eq_iff {src : Bytes} (hsrc : (0 : UInt8) ∉ src) (dst : Bytes) :
    cString (memcpy dst src) = src ↔ dst.getD src.length 0 = 0 := by
  have hnext : (dst.drop src.length).getD 0 0 = dst.getD src.length 0 := by
    rw [List.getD_eq_getElem?_getD, List.getElem?_drop, Nat.add_zero, List.getD_eq_getElem?_getD]
  rw [memcpy, cString_append hsrc, List.append_right_eq_self, cString_eq_nil_iff, hnext]

/-- What several texts leave in a buffer that was zeroed before the first of them: a byte is still 0 exactly
when no text was long enough to reach it. -/
theorem getD_copies_eq_zero_iff {texts : List Bytes} (htexts : ∀ text ∈ texts, (0 : UInt8) ∉ text)
    (size i : ℕ) : (texts.foldl memcpy (List.replicate size 0)).getD i 0 = 0 ↔
      ∀ text ∈ texts, text.length ≤ i := by
  induction texts using List.reverseRecOn with
  | nil =>
      refine iff_of_true ?_ (List.forall_mem_nil _)
      rw [List.foldl_nil, List.getD_eq_getElem?_getD, List.getElem?_replicate]
      split
      · rfl
      · rfl
  | append_singleton texts text ih =>
      obtain ⟨hbefore, htext⟩ := List.forall_mem_append.mp htexts
      rw [List.foldl_concat, getD_memcpy, List.forall_mem_append, List.forall_mem_singleton]
      split
      next hlt =>
        -- a byte of the last text
        refine iff_of_false (fun hzero => ?_) fun hle => absurd hle.2 (Nat.not_le.mpr hlt)
        rw [List.getD_eq_getElem _ _ hlt] at hzero
        exact htext text (List.mem_singleton_self text) (hzero ▸ List.getElem_mem hlt)
      next hge => rw [ih hbefore, and_iff_left (Nat.not_lt.mp hge)]

/-! ## Comparing -/

/-- The number of bytes two strings have in common at their starts. -/
def commonPrefix : Bytes → Bytes → ℕ
  | a :: s, b :: t => if a = b then commonPrefix s t + 1 else 0
  | _, _ => 0

theorem commonPrefix_le (s word : Bytes) : commonPrefix s word ≤ word.length := by
  induction s generalizing word with
  | nil => simp [commonPrefix]
  | cons a s ih =>
      rcases word with _ | ⟨b, word⟩
      · simp [commonPrefix]
      · rw [commonPrefix]
        split
        · exact Nat.succ_le_succ (ih word)
        · exact Nat.zero_le _

/-- What `strcmp` looks at to compare the string in `mem` with `word`. -/
def readCompared (mem word : Bytes) : Access := .read 0 (commonPrefix (cString mem) word + 1)

/-- A comparison stops in any buffer the other string fits in. -/
theorem readCompared_inside {mem word : Bytes} {size : ℕ} (h : word.length < size) :
    (readCompared mem word).Inside size := by
  have hle := commonPrefix_le (cString mem) word
  rw [readCompared, inside_read]
  omega

/-- What the comparisons `strcmp(mem, w₁) == 0 || strcmp(mem, w₂) == 0 || …` look at. -/
def readsCompared (mem : Bytes) : List Bytes → List Access
  | [] => []
  | word :: words =>
    readCompared mem word :: if cString mem = word then [] else readsCompared mem words

theorem readsCompared_inside {mem : Bytes} {words : List Bytes} {size : ℕ}
    (h : ∀ word ∈ words, word.length < size) : ∀ a ∈ readsCompared mem words, a.Inside size := by
  induction words with
  | nil =>
      intro a ha
      cases ha
  | cons word words ih =>
      obtain ⟨hword, hmore⟩ := List.forall_mem_cons.mp h
      intro a ha
      rcases List.mem_cons.mp ha with rfl | ha
      · exact readCompared_inside hword
      · split at ha
        · cases ha
        · exact ih hmore a ha

/-! ## Searching -/

/-- Where `needle` first occurs in `s`. -/
def find (needle : Bytes) : Bytes → Option ℕ
  | [] => if needle = [] then some 0 else none
  | b :: s => if needle <+: b :: s then some 0 else (find needle s).map (· + 1)

/-- What is found is there. -/
theorem isPrefix_of_find {needle s : Bytes} {i : ℕ} (h : find needle s = some i) :
    needle <+: s.drop i := by
  induction s generalizing i with
  | nil =>
      rw [find] at h
      split at h
      next hnil =>
        rw [hnil]
        exact List.nil_prefix
      next => cases h
  | cons b s ih =>
      rw [find] at h
      split at h
      next hhere =>
        cases h
        exact hhere
      next =>
        -- not here: the rest of the string is searched
        obtain ⟨j, hj, rfl⟩ := Option.map_eq_some_iff.mp h
        exact ih hj

theorem find_le_length {needle s : Bytes} {i : ℕ} (h : find needle s = some i) : i ≤ s.length := by
  induction s generalizing i with
  | nil =>
      rw [find] at h
      split at h
      · cases h
        exact le_rfl
      · cases h
  | cons b s ih =>
      rw [find] at h
      split at h
      · cases h
        exact Nat.zero_le _
      · obtain ⟨j, hj, rfl⟩ := Option.map_eq_some_iff.mp h
        exact Nat.succ_le_succ (ih hj)

/-- What is found ends in the string. -/
theorem find_add_length_le {needle s : Bytes} {i : ℕ} (h : find needle s = some i) :
    i + needle.length ≤ s.length := by
  have hle := (isPrefix_of_find h).length_le
  have hi := find_le_length h
  rw [List.length_drop] at hle
  omega

/-- `needle` stands at index `i` of `s`, and at no index before. -/
def FirstAt (needle s : Bytes) (i : ℕ) : Prop := needle <+: s.drop i ∧ ∀ j < i, ¬ needle <+: s.drop j

/-- **The search finds the first occurrence.** -/
theorem find_eq_some_iff {needle s : Bytes} {i : ℕ} : find needle s = some i ↔ FirstAt needle s i := by
  induction s generalizing i with
  | nil =>
      rw [find]
      split
      next hnil =>
        rw [Option.some.injEq, FirstAt, hnil]
        constructor
        · rintro rfl
          exact ⟨List.nil_prefix, fun j hj => absurd hj (Nat.not_lt_zero j)⟩
        · rintro ⟨-, hbefore⟩
          by_contra hne
          exact hbefore 0 (by omega) List.nil_prefix
      next hne =>
        constructor
        · intro hsome
          cases hsome
        · rintro ⟨hat, -⟩
          rw [List.drop_nil, List.prefix_nil] at hat
          exact absurd hat hne
  | cons b s ih =>
      rw [find]
      split
      next hhere =>
        rw [Option.some.injEq]
        constructor
        · rintro rfl
          exact ⟨hhere, fun j hj => absurd hj (Nat.not_lt_zero j)⟩
        · rintro ⟨-, hbefore⟩
          by_contra hne
          exact hbefore 0 (by omega) hhere
      next hnot =>
        -- not here, so the first occurrence is one of the rest
        rw [Option.map_eq_some_iff]
        constructor
        · rintro ⟨i, hfind, rfl⟩
          obtain ⟨hat, hbefore⟩ := ih.mp hfind
          refine ⟨hat, fun j hj => ?_⟩
          rcases j with _ | j
          · exact hnot
          · exact hbefore j (by omega)
        · rintro ⟨hat, hbefore⟩
          rcases i with _ | i
          · exact absurd hat hnot
          · exact ⟨i, ih.mpr ⟨hat, fun j hj => hbefore (j + 1) (by omega)⟩, rfl⟩

/-- Something is found exactly when it is there. -/
theorem find_isSome_iff {needle s : Bytes} : (find needle s).isSome = true ↔ needle <:+: s := by
  induction s with
  | nil =>
      rw [find, List.infix_nil]
      split
      next hnil => exact iff_of_true rfl hnil
      next hne => exact iff_of_false Bool.noConfusion hne
  | cons b s ih =>
      rw [find, List.infix_cons_iff]
      split
      next hhere => exact iff_of_true rfl (.inl hhere)
      next hnot => rw [Option.isSome_map, ih, or_iff_right hnot]

/-- A text without `c` at the start of `a ++ c :: b` is in `a`. -/
theorem isPrefix_append_cons_iff {needle : Bytes} {c : UInt8} (hc : c ∉ needle) (a b : Bytes) :
    needle <+: a ++ c :: b ↔ needle <+: a := by
  induction a generalizing needle with
  | nil =>
      rcases needle with _ | ⟨x, needle⟩
      · exact iff_of_true List.nil_prefix List.nil_prefix
      · rw [List.nil_append, List.cons_prefix_cons, List.prefix_nil]
        exact iff_of_false (fun h => hc (h.1 ▸ List.mem_cons_self)) (List.cons_ne_nil _ _)
  | cons y a ih =>
      rcases needle with _ | ⟨x, needle⟩
      · exact iff_of_true List.nil_prefix List.nil_prefix
      · rw [List.cons_append, List.cons_prefix_cons, List.cons_prefix_cons,
          ih fun h => hc (List.mem_cons_of_mem x h)]

/-- **A search does not see beyond a byte it does not look for** until it has passed it. -/
theorem find_append_cons {needle : Bytes} {c : UInt8} (hc : c ∉ needle) (hne : needle ≠ []) (a b : Bytes) :
    find needle (a ++ c :: b) = (find needle a).or ((find needle b).map (· + (a.length + 1))) := by
  have hnil : find needle [] = none := if_neg hne
  induction a with
  | nil =>
      have hnot : ¬ needle <+: c :: b := by
        intro h
        rw [← List.nil_append (c :: b), isPrefix_append_cons_iff hc, List.prefix_nil] at h
        exact hne h
      rw [List.nil_append, hnil, Option.none_or, find, if_neg hnot]
      rfl
  | cons x a ih =>
      rw [List.cons_append, find, find, ← List.cons_append]
      by_cases hhere : needle <+: x :: a
      · rw [if_pos ((isPrefix_append_cons_iff hc _ _).mpr hhere), if_pos hhere, Option.some_or]
      · rw [if_neg (mt (isPrefix_append_cons_iff hc _ _).mp hhere), if_neg hhere, ih, Option.map_or,
          Option.map_map]
        rfl

/-- `strstr(mem, needle)`, as an index. -/
def strstr (mem needle : Bytes) : Option ℕ := find needle (cString mem)

end LinuxNet.Lib
