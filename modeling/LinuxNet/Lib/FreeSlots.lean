/-
# LinuxNet.Lib.FreeSlots — arrays in which one value marks the free cells

A table of fixed size is often an array of names, one value of which says that a cell is free. It is
searched from the front: storing overwrites the first free cell, clearing overwrites the first cell that
holds the name with the free value. Both are the one operation `replaceFirst`.

`inUse free a` forgets where the names stand and keeps the names. Storing adds one (`inUse_store`), and
clearing takes one away (`inUse_clear`).
-/
import Mathlib.Data.List.Nodup
import Mathlib.Data.List.Perm.Basic

namespace LinuxNet.Lib

variable {α : Type*} [DecidableEq α] {cap : ℕ}

/-! ## Replacing in a list -/

theorem replace_cons_ne {a b : α} (h : b ≠ a) (c : α) (l : List α) :
    (b :: l).replace a c = b :: l.replace a c := by
  have hbeq : (a == b) = false := by simpa using Ne.symm h
  rw [List.replace_cons, hbeq]

theorem filter_replace_free {free a : α} (ha : a ≠ free) {l : List α} (hroom : free ∈ l) :
    ((l.replace free a).filter (· ≠ free)).Perm (a :: l.filter (· ≠ free)) := by
  induction l with
  | nil => cases hroom
  | cons b l ih =>
      by_cases hb : b = free
      · subst hb
        rw [List.replace_cons_self, List.filter_cons_of_pos (by simpa using ha),
          List.filter_cons_of_neg (by simp)]
      · have hmem : free ∈ l := (List.mem_cons.mp hroom).resolve_left (Ne.symm hb)
        rw [replace_cons_ne hb, List.filter_cons_of_pos (by simpa using hb),
          List.filter_cons_of_pos (by simpa using hb)]
        exact ((ih hmem).cons b).trans (List.Perm.swap a b _)

theorem filter_replace_name {free a : α} (ha : a ≠ free) (l : List α) :
    (l.replace a free).filter (· ≠ free) = (l.filter (· ≠ free)).erase a := by
  induction l with
  | nil => rfl
  | cons b l ih =>
      by_cases hb : b = a
      · subst hb
        rw [List.replace_cons_self, List.filter_cons_of_neg (by simp),
          List.filter_cons_of_pos (by simpa using ha), List.erase_cons_head]
      · rw [replace_cons_ne hb, List.filter_cons, List.filter_cons, ih]
        split
        · rw [List.erase_cons_tail (by simpa using hb)]
        · rfl

/-! ## Slot arrays -/

/-- **`SlotArray α cap`** — an array of `cap` cells. -/
structure SlotArray (α : Type*) (cap : ℕ) where
  cells : List α
  size_eq : cells.length = cap

namespace SlotArray

/-- An array with the same value in every cell. -/
def filled (a : α) : SlotArray α cap := ⟨List.replicate cap a, List.length_replicate⟩

/-- Cell `i`; `none` beyond the end. -/
def get? (slots : SlotArray α cap) (i : ℕ) : Option α := slots.cells[i]?

/-- Overwrite cell `i`. -/
def set (slots : SlotArray α cap) (i : ℕ) (a : α) : SlotArray α cap :=
  ⟨slots.cells.set i a, by rw [List.length_set, slots.size_eq]⟩

/-- Overwrite the first cell that holds `a`, if there is one. -/
def replaceFirst (slots : SlotArray α cap) (a b : α) : SlotArray α cap :=
  ⟨slots.cells.replace a b, by rw [List.length_replace, slots.size_eq]⟩

/-- The names in the cells that are not free. -/
def inUse (free : α) (slots : SlotArray α cap) : List α := slots.cells.filter (· ≠ free)

omit [DecidableEq α] in
theorem get?_set_self (slots : SlotArray α cap) {i : ℕ} (hi : i < cap) (a : α) :
    (slots.set i a).get? i = some a := by
  have hlen : i < slots.cells.length := by
    rw [slots.size_eq]
    exact hi
  exact List.getElem?_set_self hlen

omit [DecidableEq α] in
theorem get?_set_ne (slots : SlotArray α cap) {i j : ℕ} (h : i ≠ j) (a : α) :
    (slots.set i a).get? j = slots.get? j :=
  List.getElem?_set_ne h

omit [DecidableEq α] in
/-- Overwriting a cell and putting the old value back changes nothing. -/
theorem set_set_of_get? {slots : SlotArray α cap} {i : ℕ} {a : α} (h : slots.get? i = some a) (b : α) :
    (slots.set i b).set i a = slots := by
  obtain ⟨cells, hsize⟩ := slots
  have hcells : (cells.set i b).set i a = cells := by
    rw [List.set_set]
    obtain ⟨hlt, heq⟩ := List.getElem?_eq_some_iff.mp h
    rw [← heq]
    exact List.set_getElem_self hlt
  show SlotArray.mk ((cells.set i b).set i a) _ = _
  congr 1

theorem mem_inUse {free a : α} {slots : SlotArray α cap} :
    a ∈ slots.inUse free ↔ a ∈ slots.cells ∧ a ≠ free := by
  simp [inUse]

theorem inUse_filled (free : α) : (filled free : SlotArray α cap).inUse free = [] := by
  simp [inUse, filled]

/-- Every other value stays in its cell. -/
theorem mem_replaceFirst_of_ne {slots : SlotArray α cap} {a b c : α} (hc : c ∈ slots.cells)
    (hne : c ≠ a) : c ∈ (slots.replaceFirst a b).cells := by
  obtain ⟨i, hi⟩ := List.getElem?_of_mem hc
  have hkeep : slots.cells[i]? ≠ some a := by
    rw [hi]
    exact fun heq => hne (Option.some.inj heq)
  apply List.mem_of_getElem? (i := i)
  show (slots.cells.replace a b)[i]? = some c
  rw [List.getElem?_replace_of_ne hkeep, hi]

/-- The new value is in a cell, if there was one to overwrite. -/
theorem mem_replaceFirst {slots : SlotArray α cap} {a : α} (ha : a ∈ slots.cells) (b : α) :
    b ∈ (slots.replaceFirst a b).cells := by
  obtain ⟨front, back, heq, hout⟩ := List.eq_append_cons_of_mem ha
  show b ∈ slots.cells.replace a b
  rw [heq, List.replace_append_right hout, List.replace_cons_self]
  simp

/-- A table with fewer names than cells has a free cell. -/
theorem free_mem_of_lt {free : α} {slots : SlotArray α cap} (h : (slots.inUse free).length < cap) :
    free ∈ slots.cells := by
  by_contra hout
  have hall : slots.inUse free = slots.cells := by
    apply List.filter_eq_self.mpr
    intro a ha
    simpa using ne_of_mem_of_not_mem ha hout
  rw [hall, slots.size_eq] at h
  exact Nat.lt_irrefl cap h

/-- A table with as many names as cells has none. -/
theorem free_notMem_of_eq {free : α} {slots : SlotArray α cap} (h : (slots.inUse free).length = cap) :
    free ∉ slots.cells := by
  intro hmem
  have hall : slots.cells.filter (· ≠ free) = slots.cells := by
    apply List.filter_sublist.eq_of_length
    rw [slots.size_eq]
    exact h
  have hne := List.filter_eq_self.mp hall free hmem
  simp at hne

/-- **Storing a name in the first free cell.** -/
theorem inUse_store {free a : α} (ha : a ≠ free) {slots : SlotArray α cap}
    (hroom : free ∈ slots.cells) :
    ((slots.replaceFirst free a).inUse free).Perm (a :: slots.inUse free) :=
  filter_replace_free ha hroom

/-- **Clearing the first cell with a name.** -/
theorem inUse_clear {free a : α} (ha : a ≠ free) (slots : SlotArray α cap) :
    (slots.replaceFirst a free).inUse free = (slots.inUse free).erase a :=
  filter_replace_name ha slots.cells

/-- Where the names are distinct, clearing one leaves the others. -/
theorem mem_inUse_clear {free a b : α} (ha : a ≠ free) {slots : SlotArray α cap}
    (hnodup : (slots.inUse free).Nodup) :
    b ∈ (slots.replaceFirst a free).inUse free ↔ b ≠ a ∧ b ∈ slots.inUse free := by
  rw [inUse_clear ha, hnodup.mem_erase_iff]

/-! ## Cells that hold a value or none -/

section Values

variable {β : Type*}

/-- The values in the cells. -/
def values (slots : SlotArray (Option β) cap) : List β := slots.cells.filterMap id

theorem mem_values {slots : SlotArray (Option β) cap} {b : β} :
    b ∈ slots.values ↔ ∃ i, slots.get? i = some (some b) := by
  rw [values, List.mem_filterMap]
  constructor
  · rintro ⟨_, hmem, rfl⟩
    exact List.getElem?_of_mem hmem
  · rintro ⟨i, hi⟩
    exact ⟨some b, List.mem_of_getElem? hi, rfl⟩

theorem nodup_filterMap_id {l : List (Option β)}
    (h : ∀ (i j : ℕ) b, l[i]? = some (some b) → l[j]? = some (some b) → i = j) :
    (l.filterMap id).Nodup := by
  induction l with
  | nil => exact List.nodup_nil
  | cons o l ih =>
      have htail : (l.filterMap id).Nodup := ih fun i j b hi hj =>
        Nat.succ.inj (h (i + 1) (j + 1) b hi hj)
      rcases o with _ | b
      · exact htail
      · refine List.nodup_cons.mpr ⟨?_, htail⟩
        intro hmem
        obtain ⟨_, hmem, rfl⟩ := List.mem_filterMap.mp hmem
        obtain ⟨j, hj⟩ := List.getElem?_of_mem hmem
        exact Nat.succ_ne_zero j (h (j + 1) 0 b hj rfl)

/-- A value that is in one cell only is listed once. -/
theorem nodup_values {slots : SlotArray (Option β) cap}
    (h : ∀ i j b, slots.get? i = some (some b) → slots.get? j = some (some b) → i = j) :
    slots.values.Nodup := nodup_filterMap_id h

end Values

end SlotArray

end LinuxNet.Lib
