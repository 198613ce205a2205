/-
# LinuxNet.Lib.SwapRemove — removal from a dense table by moving the last entry into the hole

A table without holes that need not keep its order removes entry `i` in constant time: the last entry
overwrites entry `i` and the table gets shorter by one. `swapRemove` is that operation on lists. It
loses exactly the entry it removes (`perm_cons_swapRemove`), so it keeps distinctness and membership,
and it keeps every position below `i` (`getElem?_swapRemove`).

An imperative program has the table as a prefix of a longer array, and may move only part of the last
cell: `map_take_modify_eq_swapRemove` says what that does to the table seen through a projection.
-/
import Mathlib.Data.List.Induction
import Mathlib.Data.List.Perm.Basic
import Mathlib.Data.List.Nodup

namespace LinuxNet.Lib

variable {α β : Type*}

/-- Overwrite entry `i` by the last entry and drop the last entry. -/
def swapRemove (l : List α) (i : ℕ) : List α :=
  match l.getLast? with
  | none => []
  | some a => l.dropLast.set i a

/-- With the last entry in view: removing the last position is a write beyond the end, hence no write. -/
@[simp] theorem swapRemove_concat (l : List α) (a : α) (i : ℕ) :
    swapRemove (l ++ [a]) i = l.set i a := by
  simp [swapRemove]

theorem getElem?_swapRemove {l : List α} {i : ℕ} (hi : i < l.length) (j : ℕ) :
    (swapRemove l i)[j]? =
      if j + 1 < l.length then (if j = i then l[l.length - 1]? else l[j]?) else none := by
  induction l using List.reverseRecOn with
  | nil => simp at hi
  | append_singleton l a _ =>
      rw [swapRemove_concat, List.getElem?_set]
      simp only [List.length_append, List.length_singleton] at hi ⊢
      by_cases hj : j < l.length
      · by_cases hij : i = j
        · simp [hij, hj]
        · simp [hij, Ne.symm hij, hj, List.getElem?_append_left hj]
      · by_cases hij : i = j
        · simp [hij, hj]
        · simp [hij, hj]

/-! ## What is lost -/

/-- Overwriting a position trades its entry for the new one. -/
theorem perm_cons_set {l : List α} {i : ℕ} (hi : i < l.length) (a : α) :
    List.Perm (a :: l) (l[i] :: l.set i a) := by
  induction l generalizing i with
  | nil => simp at hi
  | cons b l ih =>
      cases i with
      | zero => exact List.Perm.swap b a l
      | succ i =>
          have hi' : i < l.length := by simpa using hi
          calc List.Perm (a :: b :: l) (b :: a :: l) := List.Perm.swap b a l
            List.Perm _ (b :: l[i] :: l.set i a) := (ih hi').cons b
            List.Perm _ (l[i] :: b :: l.set i a) := List.Perm.swap _ _ _

/-- **Exactly the removed entry is lost.** -/
theorem perm_cons_swapRemove {l : List α} {i : ℕ} (hi : i < l.length) :
    List.Perm l (l[i] :: swapRemove l i) := by
  induction l using List.reverseRecOn with
  | nil => simp at hi
  | append_singleton l a _ =>
      rw [swapRemove_concat]
      by_cases hlt : i < l.length
      · rw [List.getElem_append_left hlt]
        exact (List.perm_append_singleton a l).trans (perm_cons_set hlt a)
      · obtain rfl : i = l.length := by simp at hi; omega
        rw [List.getElem_concat_length rfl, List.set_eq_of_length_le (Nat.le_refl _)]
        exact List.perm_append_singleton a l

theorem nodup_swapRemove {l : List α} (hl : l.Nodup) (i : ℕ) : (swapRemove l i).Nodup := by
  by_cases hi : i < l.length
  · exact ((perm_cons_swapRemove hi).nodup_iff.mp hl).of_cons
  · induction l using List.reverseRecOn with
    | nil => exact List.nodup_nil
    | append_singleton l a _ =>
        rw [swapRemove_concat, List.set_eq_of_length_le (by simp at hi; omega)]
        exact (List.nodup_append.mp hl).1

theorem mem_swapRemove {l : List α} (hl : l.Nodup) {i : ℕ} (hi : i < l.length) {x : α} :
    x ∈ swapRemove l i ↔ x ∈ l ∧ x ≠ l[i] := by
  have hperm := perm_cons_swapRemove hi
  have hnot : l[i] ∉ swapRemove l i := (List.nodup_cons.mp (hperm.nodup_iff.mp hl)).1
  rw [hperm.mem_iff, List.mem_cons]
  constructor
  · intro hx
    exact ⟨.inr hx, fun he => hnot (he ▸ hx)⟩
  · rintro ⟨hx | hx, hne⟩
    · exact absurd hx hne
    · exact hx

/-- **A scan that stands at `i`** still has the same entries ahead of it as behind `i` before: the last one
has moved from the end to the front. -/
theorem drop_swapRemove_perm {l : List α} {i : ℕ} (hi : i < l.length) :
    List.Perm ((swapRemove l i).drop i) (l.drop (i + 1)) := by
  induction l using List.reverseRecOn with
  | nil => simp at hi
  | append_singleton l a _ =>
      rw [swapRemove_concat]
      by_cases hlt : i < l.length
      · have hset : (l.set i a).drop i = a :: l.drop (i + 1) := by
          rw [List.drop_eq_getElem_cons (by simpa using hlt), List.getElem_set_self,
            List.drop_set_of_lt (Nat.lt_succ_self i)]
        rw [hset, List.drop_append_of_le_length hlt]
        exact (List.perm_append_singleton a _).symm
      · obtain rfl : i = l.length := by simp at hi; omega
        simp

/-! ## The table as a prefix of an array -/

/-- **Removal in an array.** The first `n` cells of `xs`, seen through `f`, are the table. Rewriting
cell `i` so that it looks like cell `n - 1`, and shortening the prefix, is `swapRemove`. -/
theorem map_take_modify_eq_swapRemove {xs : List α} {n i : ℕ} {f : α → β} {g : α → α} {p q : α}
    (hn : n ≤ xs.length) (hi : i < n) (hp : xs[i]? = some p) (hq : xs[n - 1]? = some q)
    (hg : f (g p) = f q) :
    ((xs.modify i g).take (n - 1)).map f = swapRemove ((xs.take n).map f) i := by
  have hlen : ((xs.take n).map f).length = n := by simp [hn]
  apply List.ext_getElem?
  intro j
  rw [getElem?_swapRemove (by omega), hlen]
  simp only [List.getElem?_map, List.getElem?_take, List.getElem?_modify]
  by_cases hj : j + 1 < n
  · by_cases hij : i = j
    · subst hij
      simp [show i < n - 1 by omega, show n - 1 < n by omega, hj, hp, hq, hg]
    · simp [show j < n - 1 by omega, show j < n by omega, hj, hij, Ne.symm hij]
  · simp [show ¬ j < n - 1 by omega, hj]

end LinuxNet.Lib
