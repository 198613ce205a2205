/-
# LinuxNet.Lib.View — a system as one of its parties sees it

A party of a larger system sees a part of the state, its *view*, and most steps of the system do not change what
it sees. When each step of the system leaves the view alone or is a step of a smaller relation on views, then an
invariant of that relation holds of the view in every state the system reaches (`Reach.invariant_view`): the
other parties need not be looked at again.

The messages of a party among all messages under way are a `filterMap` of these. `filterMap_erase_of_some` and
`filterMap_erase_of_none` say what taking one message away does to such a view; the projection has to tell the
messages it keeps apart.
-/
import LinuxNet.Lib.Machine
import Mathlib.Data.List.Basic

namespace LinuxNet.Lib

/-! ## Invariants of a view -/

section Invariant

variable {σ τ ε : Type*} {step : σ → ε → Option σ} {ok : σ → ε → Prop} {I : σ → Prop} {J : τ → Prop}
  {view : σ → τ} {next : τ → ε → τ → Prop}

/-- **The invariant rule for a view.** `I` is an invariant of the system and `next` what its steps do to the
view; then what `next` preserves holds of the view. -/
theorem Reach.invariant_view (hI : ∀ s e t, I s → ok s e → step s e = some t → I t)
    (hview : ∀ s e t, I s → step s e = some t → view t = view s ∨ next (view s) e (view t))
    (hJ : ∀ s e t, ok s e → J (view s) → next (view s) e (view t) → J (view t))
    {s t : σ} (h : Reach step ok s t) (hs : I s) (hJs : J (view s)) : I t ∧ J (view t) := by
  refine h.invariant (I := fun s => I s ∧ J (view s)) ?_ ⟨hs, hJs⟩
  rintro s e t ⟨hs, hJs⟩ hok hstep
  refine ⟨hI s e t hs hok hstep, ?_⟩
  rcases hview s e t hs hstep with heq | hnext
  · rw [heq]
    exact hJs
  · exact hJ s e t hok hJs hnext

end Invariant

/-! ## The messages of one party -/

section Messages

variable {α β : Type*} [BEq α] [LawfulBEq α] {f : α → Option β}

/-- A message of another party is taken away. -/
theorem filterMap_erase_of_none {a : α} (ha : f a = none) (l : List α) :
    (l.erase a).filterMap f = l.filterMap f := by
  induction l with
  | nil => rfl
  | cons b l ih =>
      rw [List.erase_cons]
      split
      next heq =>
        obtain rfl : b = a := beq_iff_eq.mp heq
        exact (List.filterMap_cons_none ha).symm
      next => rw [List.filterMap_cons, List.filterMap_cons, ih]

/-- A message of this party is taken away. -/
theorem filterMap_erase_of_some [BEq β] [LawfulBEq β] {a : α} {m : β} (hf : ∀ b, f b = some m → b = a)
    (ha : f a = some m) (l : List α) : (l.erase a).filterMap f = (l.filterMap f).erase m := by
  induction l with
  | nil => rfl
  | cons b l ih =>
      rw [List.erase_cons]
      split
      next heq =>
        obtain rfl : b = a := beq_iff_eq.mp heq
        rw [List.filterMap_cons_some ha, List.erase_cons_head]
      next hne =>
        rcases hb : f b with _ | m'
        · rw [List.filterMap_cons_none hb, List.filterMap_cons_none hb, ih]
        · have hother : m' ≠ m := by
            rintro rfl
            exact hne (beq_iff_eq.mpr (hf b hb))
          rw [List.filterMap_cons_some hb, List.filterMap_cons_some hb, ih,
            List.erase_cons_tail (by simpa using hother)]

end Messages

end LinuxNet.Lib
