/-
# LinuxNet.Lib.LowestFirst — names that are handed out lowest first

An allocator that always hands out the lowest name not in use fills every gap before it goes higher. A
program that keeps at most `cap` of the names it is given, and never gives back the others, nevertheless
keeps low names only: as long as it has room, a gap below `a + cap` is filled by a name it keeps; when it
has none, there is no gap (`Window`). Here `a` is the highest of the names that were in use at the start.
-/
import Mathlib

namespace LinuxNet.Lib

/-- `d` is not in use, and all names from 0 to `d` are. -/
def IsLowest (used : Finset ℤ) (d : ℤ) : Prop := d ∉ used ∧ ∀ e, 0 ≤ e → e < d → e ∈ used

instance (used : Finset ℤ) (d : ℤ) : Decidable (IsLowest used d) :=
  inferInstanceAs (Decidable (_ ∧ ∀ e, 0 ≤ e → e < d → e ∈ used))

/-- There is always a lowest name that is not in use. -/
theorem exists_isLowest (used : Finset ℤ) : ∃ d, 0 ≤ d ∧ IsLowest used d := by
  have hfree : ∃ n : ℕ, (n : ℤ) ∉ used := by
    obtain ⟨bound, hbound⟩ := used.exists_le
    refine ⟨(bound + 1).toNat, fun hmem => ?_⟩
    have hle := hbound _ hmem
    omega
  refine ⟨Nat.find hfree, Int.natCast_nonneg _, Nat.find_spec hfree, fun e hnonneg hlt => ?_⟩
  by_contra hout
  lift e to ℕ using hnonneg
  exact Nat.find_min hfree (Int.ofNat_lt.mp hlt) hout

/-- **`Window a cap used kept`** — of the names in use, those in the window of `cap` names above `a` are
the ones that are kept. -/
structure Window (a : ℤ) (cap : ℕ) (used kept : Finset ℤ) : Prop where
  nonneg : 0 ≤ a
  below : ∀ d, 0 ≤ d → d ≤ a → d ∈ used
  subset : kept ⊆ Finset.Ioc a (a + cap)
  kept_of_used : ∀ d ∈ used, d ∈ Finset.Ioc a (a + cap) → d ∈ kept

namespace Window

variable {a d : ℤ} {cap : ℕ} {used kept : Finset ℤ}

theorem card_window (a : ℤ) (cap : ℕ) : (Finset.Ioc a (a + cap)).card = cap := by
  rw [Int.card_Ioc, add_sub_cancel_left, Int.toNat_natCast]

/-- At the start the names from 0 to `a` are in use. -/
theorem start (ha : 0 ≤ a) (cap : ℕ) : Window a cap (Finset.Icc 0 a) ∅ := by
  refine ⟨ha, fun d hd hle => Finset.mem_Icc.mpr ⟨hd, hle⟩, Finset.empty_subset _, ?_⟩
  intro d hused hwindow
  have hle := (Finset.mem_Icc.mp hused).2
  have hlt := (Finset.mem_Ioc.mp hwindow).1
  omega

/-- What is handed out is above `a`. -/
theorem lt_of_notMem (h : Window a cap used kept) (hd : 0 ≤ d) (hout : d ∉ used) : a < d := by
  by_contra hle
  exact hout (h.below d hd (Int.not_lt.mp hle))

/-- **With room for one more name**, the lowest one is in the window: otherwise all names of the window
would be in use, hence kept, and there would be no room. -/
theorem mem_of_room (h : Window a cap used kept) (hroom : kept.card < cap) (hd : 0 ≤ d)
    (hlow : IsLowest used d) : d ∈ Finset.Ioc a (a + cap) := by
  have hlt := h.lt_of_notMem hd hlow.1
  refine Finset.mem_Ioc.mpr ⟨hlt, ?_⟩
  by_contra hhigh
  -- every name of the window lies below `d`, so it is in use
  have hall : Finset.Ioc a (a + cap) ⊆ kept := by
    intro e he
    obtain ⟨hae, hec⟩ := Finset.mem_Ioc.mp he
    have hnonneg := h.nonneg
    exact h.kept_of_used e (hlow.2 e (by omega) (by omega)) he
  have hcard := Finset.card_le_card hall
  rw [card_window] at hcard
  omega

/-- **Without room** the whole window is kept, so what is handed out lies above it. -/
theorem lt_of_full (h : Window a cap used kept) (hkept : kept ⊆ used) (hfull : cap ≤ kept.card)
    (hd : 0 ≤ d) (hout : d ∉ used) : a + cap < d := by
  have hlt := h.lt_of_notMem hd hout
  have hall : kept = Finset.Ioc a (a + cap) := by
    apply Finset.eq_of_subset_of_card_le h.subset
    rw [card_window]
    exact hfull
  by_contra hle
  apply hout
  apply hkept
  rw [hall]
  exact Finset.mem_Ioc.mpr ⟨hlt, Int.not_lt.mp hle⟩

/-! ## Steps -/

/-- A name is handed out and kept. -/
theorem keep (h : Window a cap used kept) (hd : d ∈ Finset.Ioc a (a + cap)) :
    Window a cap (insert d used) (insert d kept) := by
  refine ⟨h.nonneg, ?_, ?_, ?_⟩
  · intro e he hle
    exact Finset.mem_insert_of_mem (h.below e he hle)
  · exact Finset.insert_subset hd h.subset
  · intro e he hwindow
    rcases Finset.mem_insert.mp he with rfl | he
    · exact Finset.mem_insert_self _ _
    · exact Finset.mem_insert_of_mem (h.kept_of_used e he hwindow)

/-- A name above the window is handed out and not kept. -/
theorem lose (h : Window a cap used kept) (hd : a + cap < d) : Window a cap (insert d used) kept := by
  refine ⟨h.nonneg, ?_, h.subset, ?_⟩
  · intro e he hle
    exact Finset.mem_insert_of_mem (h.below e he hle)
  · intro e he hwindow
    rcases Finset.mem_insert.mp he with rfl | he
    · exact absurd (Finset.mem_Ioc.mp hwindow).2 (Int.not_le.mpr hd)
    · exact h.kept_of_used e he hwindow

/-- A name that is kept is given back. -/
theorem giveBack (h : Window a cap used kept) (hd : d ∈ kept) :
    Window a cap (used.erase d) (kept.erase d) := by
  refine ⟨h.nonneg, ?_, (Finset.erase_subset _ _).trans h.subset, ?_⟩
  · intro e he hle
    have hlt := (Finset.mem_Ioc.mp (h.subset hd)).1
    exact Finset.mem_erase.mpr ⟨by omega, h.below e he hle⟩
  · intro e he hwindow
    obtain ⟨hne, he⟩ := Finset.mem_erase.mp he
    exact Finset.mem_erase.mpr ⟨hne, h.kept_of_used e he hwindow⟩

end Window

end LinuxNet.Lib
