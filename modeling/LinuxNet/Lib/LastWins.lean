/-
# LinuxNet.Lib.LastWins — maps filled by assignments, and the orders in which they are read out

A map built by one assignment after another holds, for each key, the value of the last assignment
(`lookup_assign`). `lastValue k l` says this of the list of assignments itself, without a map.

Reading a hash map out gives its entries once each in an order of the implementation's choice:
`IterationOrder m` is such a listing. Assigning the listed entries again gives the map back
(`IterationOrder.assign_eq`).
-/
import Mathlib.Data.Finmap

namespace LinuxNet.Lib

variable {α β : Type*} [DecidableEq α]

/-- The value the last pair with the key `k` has. -/
def lastValue (k : α) : List (α × β) → Option β
  | [] => none
  | (a, b) :: l => (lastValue k l).or (if a = k then some b else none)

/-- Assign the pairs one after another. -/
def assign (m : Finmap fun _ : α => β) (l : List (α × β)) : Finmap fun _ : α => β :=
  l.foldl (fun m p => m.insert p.1 p.2) m

theorem lastValue_eq_none {k : α} {l : List (α × β)} (h : k ∉ l.map Prod.fst) :
    lastValue k l = none := by
  induction l with
  | nil => rfl
  | cons p l ih =>
      simp only [List.map_cons, List.mem_cons, not_or] at h
      rw [lastValue, ih h.2, if_neg (Ne.symm h.1), Option.or_none]

/-- A key that occurs has a last value. -/
theorem exists_lastValue {k : α} {l : List (α × β)} (h : k ∈ l.map Prod.fst) :
    ∃ b, lastValue k l = some b := by
  induction l with
  | nil => cases h
  | cons p l ih =>
      rw [lastValue]
      by_cases hl : k ∈ l.map Prod.fst
      · obtain ⟨b, hb⟩ := ih hl
        exact ⟨b, by rw [hb, Option.some_or]⟩
      · rw [List.map_cons, List.mem_cons] at h
        rw [lastValue_eq_none hl, Option.none_or, if_pos (h.resolve_right hl).symm]
        exact ⟨p.2, rfl⟩

/-- Values that are changed afterwards. -/
theorem lastValue_map {γ : Type*} (f : β → γ) (k : α) (l : List (α × β)) :
    lastValue k (l.map fun p => (p.1, f p.2)) = (lastValue k l).map f := by
  induction l with
  | nil => rfl
  | cons p l ih =>
      rw [List.map_cons, lastValue, lastValue, ih, Option.map_or]
      split
      · rfl
      · rfl

/-- **Where the last value comes from**: the position of an item that has the key, behind which no item
has it. -/
theorem exists_source {γ : Type*} {f : γ → Option (α × β)} {ls : List γ} {k : α} {b : β}
    (h : lastValue k (ls.filterMap f) = some b) :
    ∃ i : ℕ, ls[i]?.bind f = some (k, b) ∧ ∀ j, i < j → ∀ b', ls[j]?.bind f ≠ some (k, b') := by
  induction ls with
  | nil => cases h
  | cons x ls ih =>
      cases hrest : lastValue k (ls.filterMap f) with
      | some b' =>
          have heq : b' = b := by
            rw [List.filterMap_cons] at h
            split at h
            next => exact Option.some.inj (hrest.symm.trans h)
            next p _ =>
              rw [lastValue, hrest, Option.some_or] at h
              exact Option.some.inj h
          obtain ⟨i, hi, hlast⟩ := ih (by rw [hrest, heq])
          refine ⟨i + 1, hi, fun j hj => ?_⟩
          obtain ⟨j, rfl⟩ : ∃ m, j = m + 1 := ⟨j - 1, by omega⟩
          exact hlast j (by omega)
      | none =>
          have hx : f x = some (k, b) := by
            rw [List.filterMap_cons] at h
            split at h
            next =>
              rw [hrest] at h
              cases h
            next p hp =>
              rw [lastValue, hrest, Option.none_or] at h
              split at h
              next hk => rw [hp, ← hk, ← Option.some.inj h]
              next => cases h
          refine ⟨0, hx, fun j hj b' hb' => ?_⟩
          -- an item behind it with the key would have given the rest a last value
          obtain ⟨j, rfl⟩ : ∃ m, j = m + 1 := ⟨j - 1, by omega⟩
          obtain ⟨y, hy, hfy⟩ := Option.bind_eq_some_iff.mp hb'
          have hkey : k ∈ (ls.filterMap f).map Prod.fst :=
            List.mem_map.mpr ⟨(k, b'), List.mem_filterMap.mpr ⟨y, List.mem_of_getElem? hy, hfy⟩, rfl⟩
          obtain ⟨c, hc⟩ := exists_lastValue hkey
          rw [hrest] at hc
          cases hc

/-- **The last assignment wins.** -/
theorem lookup_assign (m : Finmap fun _ : α => β) (l : List (α × β)) (k : α) :
    (assign m l).lookup k = (lastValue k l).or (m.lookup k) := by
  induction l generalizing m with
  | nil => rfl
  | cons p l ih =>
      have hstep : assign m (p :: l) = assign (m.insert p.1 p.2) l := rfl
      rw [hstep, ih, lastValue, Option.or_assoc]
      congr 1
      split
      next h => rw [← h, Finmap.lookup_insert, Option.some_or]
      next h => rw [Finmap.lookup_insert_of_ne _ (Ne.symm h), Option.none_or]

/-- With distinct keys every pair is the last of its key. -/
theorem lastValue_eq_some_iff {l : List (α × β)} (h : (l.map Prod.fst).Nodup) {k : α} {b : β} :
    lastValue k l = some b ↔ (k, b) ∈ l := by
  induction l with
  | nil => simp [lastValue]
  | cons p l ih =>
      rw [List.map_cons, List.nodup_cons] at h
      rw [lastValue, List.mem_cons]
      by_cases hk : p.1 = k
      · subst hk
        have hout : (p.1, b) ∉ l := fun hmem => h.1 (List.mem_map.mpr ⟨_, hmem, rfl⟩)
        rw [lastValue_eq_none h.1, if_pos rfl, Option.none_or, Option.some.injEq]
        constructor
        · rintro rfl
          exact .inl rfl
        · rintro (heq | hmem)
          · rw [← heq]
          · exact absurd hmem hout
      · rw [if_neg hk, Option.or_none, ih h.2]
        constructor
        · exact .inr
        · rintro (heq | hmem)
          · exact absurd (by rw [← heq]) hk
          · exact hmem

/-- **`IterationOrder m`** — the entries of `m`, each once, in some order. -/
structure IterationOrder (m : Finmap fun _ : α => β) where
  entries : List (α × β)
  perm : (entries.map Prod.toSigma : Multiset (Σ _ : α, β)) = m.entries

namespace IterationOrder

variable {m : Finmap fun _ : α => β}

omit [DecidableEq α] in
theorem nodup_keys (order : IterationOrder m) : (order.entries.map Prod.fst).Nodup := by
  have h := m.nodupKeys
  rw [← order.perm, Multiset.coe_nodupKeys, List.NodupKeys, List.keys, List.map_map] at h
  exact h

theorem mem_entries (order : IterationOrder m) {k : α} {b : β} :
    (k, b) ∈ order.entries ↔ m.lookup k = some b := by
  rw [← Option.mem_def, Finmap.mem_lookup_iff, ← order.perm, Multiset.mem_coe, List.mem_map]
  constructor
  · intro h
    exact ⟨(k, b), h, rfl⟩
  · rintro ⟨⟨k', b'⟩, h, heq⟩
    cases heq
    exact h

theorem lastValue_entries (order : IterationOrder m) (k : α) :
    lastValue k order.entries = m.lookup k := by
  apply Option.ext
  intro b
  rw [lastValue_eq_some_iff order.nodup_keys, order.mem_entries]

omit [DecidableEq α] in
/-- There is an order in which a map can be read out. -/
theorem nonempty (m : Finmap fun _ : α => β) : Nonempty (IterationOrder m) := by
  refine ⟨⟨m.entries.toList.map fun s => (s.1, s.2), ?_⟩⟩
  have hid : (Prod.toSigma ∘ fun s : Σ _ : α, β => (s.1, s.2)) = id := rfl
  rw [List.map_map, hid, List.map_id, Multiset.coe_toList]

omit [DecidableEq α] in
/-- There is a way to read out every map. -/
theorem nonempty_forall : Nonempty (∀ m : Finmap fun _ : α => β, IterationOrder m) :=
  ⟨fun m => (nonempty m).some⟩

/-- **Assigning the entries in any order gives the map back.** -/
theorem assign_eq (order : IterationOrder m) : assign ∅ order.entries = m := by
  apply Finmap.ext_lookup
  intro k
  rw [lookup_assign, order.lastValue_entries, Finmap.lookup_empty, Option.or_none]

end IterationOrder

end LinuxNet.Lib
