/-
# LinuxNet.Lib.PathWalk — directory trees, walking a path in one, and what a walk depends on

A directory tree maps positions to entries. A position is the list of the names that lead to it,
innermost first, so that going up is `List.tail` and the root is `[]`. `Tree.walk` follows the
components of a path from a position, as a kernel does in a tree without symbolic links.

A walk looks at the entries on its way. `lex known` follows the same components without a tree, as long
as they stay within the positions in `known`, and says so when they leave it (`Lexed.escape`):

* `walk_congr` — two trees that look alike on the known positions give the same walk, when the path does
  not escape;
* `walk_of_escape` — in a tree with nothing outside the known positions a path that escapes leads nowhere;
* `walk_full` — in a tree that has every directory the path mentions it leads somewhere.

Together they say that not escaping is exactly what makes a walk independent of the rest of the tree.
-/
import Mathlib.Data.Set.Finite.Basic
import Mathlib.Data.Set.Finite.List

namespace LinuxNet.Lib

/-! ## Trees and walks -/

/-- What stands at a position. -/
inductive Entry (δ φ : Type*) where
  | dir (info : δ)
  | file (content : φ)
  deriving DecidableEq

/-- A component of a path: nothing or a dot, two dots, a name, or something longer than a name can be. -/
inductive Seg (ν : Type*) where
  | here
  | up
  | name (n : ν)
  | tooLong
  deriving DecidableEq

/-- Where a walk ends. -/
inductive Walked (ν : Type*) where
  | missing
  | tooLong
  | found (p : List ν)
  deriving DecidableEq

/-- **`FileTree`** — finitely many entries, a directory at the root and above every entry. -/
structure FileTree (ν δ φ : Type*) where
  entry : List ν → Option (Entry δ φ)
  root : ∃ info, entry [] = some (.dir info)
  parent : ∀ n p, entry (n :: p) ≠ none → ∃ info, entry p = some (.dir info)
  finite : {p | entry p ≠ none}.Finite

variable {ν δ φ : Type*}

namespace FileTree

variable (t : FileTree ν δ φ)

def isDir (p : List ν) : Bool :=
  match t.entry p with
  | some (.dir _) => true
  | some (.file _) | none => false

/-- **Following the components of a path** from a position. Only a directory has somewhere to go. -/
def walk : List (Seg ν) → List ν → Walked ν
  | [], p => .found p
  | seg :: segs, p =>
    if t.isDir p then
      match seg with
      | .here => walk segs p
      | .up => walk segs p.tail
      | .name n => if (t.entry (n :: p)).isSome then walk segs (n :: p) else .missing
      | .tooLong => .tooLong
    else .missing

theorem isDir_iff {p : List ν} : t.isDir p = true ↔ ∃ info, t.entry p = some (.dir info) := by
  unfold isDir
  split
  next info h => simp [h]
  next content h => simp [h]
  next h => simp [h]

theorem isDir_tail {p : List ν} (h : t.isDir p = true) : t.isDir p.tail = true := by
  cases p with
  | nil => exact h
  | cons n p =>
      obtain ⟨info, hinfo⟩ := t.isDir_iff.mp h
      exact t.isDir_iff.mpr (t.parent n p (by simp [hinfo]))

/-- Every position above a directory is a directory. -/
theorem isDir_of_suffix {p q : List ν} (hpq : p <:+ q) (h : t.isDir q = true) : t.isDir p = true := by
  obtain ⟨r, rfl⟩ := hpq
  induction r with
  | nil => exact h
  | cons n r ih => exact ih (t.isDir_tail h)

end FileTree

namespace FileTree

/-! ## Trees from other trees, and trees with everything -/

/-- The part of a tree at positions that are closed under going up. -/
def restrict (t : FileTree ν δ φ) (known : List ν → Prop) [DecidablePred known] (hnil : known [])
    (htail : ∀ p, known p → known p.tail) : FileTree ν δ φ where
  entry p := if known p then t.entry p else none
  root := by rw [if_pos hnil]; exact t.root
  parent n p h := by
    by_cases hknown : known (n :: p)
    · rw [if_pos hknown] at h
      have hp : known p := htail _ hknown
      rw [if_pos hp]
      exact t.parent n p h
    · rw [if_neg hknown] at h
      exact absurd rfl h
  finite := by
    apply t.finite.subset
    intro p hp
    by_cases hknown : known p
    · simpa [hknown] using hp
    · simp [hknown] at hp

variable [DecidableEq ν]

/-- There is a directory at `p` in this list of entries. -/
def HasDir (l : List (List ν × Entry δ φ)) (p : List ν) : Bool :=
  match l.lookup p with
  | some (.dir _) => true
  | some (.file _) | none => false

theorem exists_of_hasDir {l : List (List ν × Entry δ φ)} {p : List ν} (h : HasDir l p = true) :
    ∃ info, l.lookup p = some (.dir info) := by
  unfold HasDir at h
  split at h
  next info hinfo => exact ⟨info, hinfo⟩
  next => cases h
  next => cases h

/-- The tree of a list of entries. -/
def ofEntries (l : List (List ν × Entry δ φ)) (hroot : HasDir l [] = true)
    (hparent : ∀ x ∈ l, HasDir l x.1.tail = true) : FileTree ν δ φ where
  entry p := l.lookup p
  root := exists_of_hasDir hroot
  parent n p h := by
    obtain ⟨x, hx, heq⟩ : ∃ x ∈ l, x.1 = n :: p := by
      by_contra hno
      apply h
      apply List.lookup_eq_none_iff.mpr
      intro x hx
      simp only [bne_iff_ne, ne_eq]
      exact fun heq => hno ⟨x, hx, heq.symm⟩
    have hdir := hparent x hx
    rw [heq] at hdir
    exact exists_of_hasDir hdir
  finite := by
    apply (List.finite_toSet (l.map Prod.fst)).subset
    intro p hp
    by_contra hout
    apply hp
    apply List.lookup_eq_none_iff.mpr
    intro x hx
    simp only [bne_iff_ne, ne_eq]
    exact fun heq => hout (List.mem_map.mpr ⟨x, hx, heq.symm⟩)

/-- One more entry changes the tree at its own position only. -/
theorem entry_ofEntries_concat {l : List (List ν × Entry δ φ)} {x : List ν × Entry δ φ} {p : List ν}
    (hne : p ≠ x.1) (hroot : HasDir l [] = true) (hparent : ∀ x ∈ l, HasDir l x.1.tail = true)
    (hroot' : HasDir (l ++ [x]) [] = true)
    (hparent' : ∀ y ∈ l ++ [x], HasDir (l ++ [x]) y.1.tail = true) :
    (ofEntries (l ++ [x]) hroot' hparent').entry p = (ofEntries l hroot hparent).entry p := by
  have hbeq : (p == x.1) = false := beq_eq_false_iff_ne.mpr hne
  show (l ++ [x]).lookup p = l.lookup p
  rw [List.lookup_append, List.lookup_cons, hbeq, List.lookup_nil, Option.or_none]

/-- The positions of bounded depth with names from a list. -/
def InReach (names : List ν) (depth : ℕ) (p : List ν) : Prop := p.length ≤ depth ∧ ∀ n ∈ p, n ∈ names

instance (names : List ν) (depth : ℕ) : DecidablePred (InReach names depth) := fun _ =>
  inferInstanceAs (Decidable (_ ∧ _))

theorem finite_inReach (names : List ν) (depth : ℕ) : {p | InReach names depth p}.Finite := by
  -- such a position is a short list of elements of the subtype, mapped back
  apply ((List.finite_length_le {n // n ∈ names} depth).image (List.map Subtype.val)).subset
  rintro p ⟨hlen, hp⟩
  refine ⟨p.attach.map fun n => ⟨n.1, hp n.1 n.2⟩, by simpa using hlen, ?_⟩
  rw [List.map_map]
  exact List.attach_map_subtype_val p

/-- The tree with a directory at every position in reach. -/
def full (names : List ν) (depth : ℕ) (info : List ν → δ) : FileTree ν δ φ where
  entry p := if InReach names depth p then some (.dir (info p)) else none
  root := ⟨info [], if_pos ⟨Nat.zero_le _, by simp⟩⟩
  parent n p h := by
    by_cases hin : InReach names depth (n :: p)
    · refine ⟨info p, if_pos ⟨?_, fun m hm => hin.2 m (List.mem_cons_of_mem n hm)⟩⟩
      exact (Nat.le_succ _).trans hin.1
    · rw [if_neg hin] at h
      exact absurd rfl h
  finite := by
    apply (finite_inReach names depth).subset
    intro p hp
    by_contra hin
    exact hp (if_neg hin)

theorem entry_full {names : List ν} {depth : ℕ} {info : List ν → δ} {p : List ν}
    (hp : InReach names depth p) :
    (full names depth info : FileTree ν δ φ).entry p = some (.dir (info p)) := if_pos hp

theorem isDir_full {names : List ν} {depth : ℕ} {info : List ν → δ} {p : List ν}
    (hp : InReach names depth p) : (full names depth info : FileTree ν δ φ).isDir p = true :=
  (isDir_iff _).mpr ⟨_, entry_full hp⟩

/-- Everything in a full tree is a directory. -/
theorem entry_full_of_isSome {names : List ν} {depth : ℕ} {info : List ν → δ} {p : List ν}
    (hp : ((full names depth info : FileTree ν δ φ).entry p).isSome = true) :
    (full names depth info : FileTree ν δ φ).entry p = some (.dir (info p)) := by
  by_cases hin : InReach names depth p
  · exact entry_full hin
  · simp [full, hin] at hp

end FileTree

/-! ## Following a path without a tree -/

/-- Where the components lead when nothing but the known positions is looked at. -/
inductive Lexed (ν : Type*) where
  | escape
  | tooLong
  | ends (p : List ν)
  deriving DecidableEq

section Lex

variable (known : List ν → Prop) [DecidablePred known]

def lex : List (Seg ν) → List ν → Lexed ν
  | [], p => .ends p
  | .here :: segs, p => lex segs p
  | .up :: segs, p => lex segs p.tail
  | .name n :: segs, p => if known (n :: p) then lex segs (n :: p) else .escape
  | .tooLong :: _, _ => .tooLong

/-- What follows a path is read where the path ends, if it does. -/
theorem lex_append_eq (segs more : List (Seg ν)) (p : List ν) :
    lex known (segs ++ more) p = match lex known segs p with
      | .ends q => lex known more q
      | .escape => .escape
      | .tooLong => .tooLong := by
  induction segs generalizing p with
  | nil => rfl
  | cons seg segs ih =>
      cases seg with
      | here => exact ih p
      | up => exact ih p.tail
      | name n =>
          simp only [List.cons_append, lex]
          split
          next => exact ih (n :: p)
          next => rfl
      | tooLong => rfl

theorem lex_append {segs : List (Seg ν)} {p q : List ν} (h : lex known segs p = .ends q)
    (more : List (Seg ν)) : lex known (segs ++ more) p = lex known more q := by
  rw [lex_append_eq, h]

/-- A path that is too long stays so. -/
theorem lex_append_tooLong {segs : List (Seg ν)} {p : List ν} (h : lex known segs p = .tooLong)
    (more : List (Seg ν)) : lex known (segs ++ more) p = .tooLong := by
  rw [lex_append_eq, h]

/-- When only the last name makes a path escape, it stands behind a position it is not known under. -/
theorem ends_of_append_escape {segs : List (Seg ν)} {n : ν} {p : List ν}
    (h : lex known (segs ++ [.name n]) p = .escape) (hsegs : lex known segs p ≠ .escape) :
    ∃ q, lex known segs p = .ends q ∧ ¬ known (n :: q) := by
  cases hlex : lex known segs p with
  | escape => exact absurd hlex hsegs
  | tooLong =>
      rw [lex_append_tooLong known hlex] at h
      cases h
  | ends q =>
      refine ⟨q, rfl, fun hknown => ?_⟩
      rw [lex_append known hlex, lex, if_pos hknown] at h
      cases h

/-- A list of names leads down. -/
theorem lex_names {l p : List ν} (h : ∀ q, q <:+ l.reverse ++ p → known q) :
    lex known (l.map .name) p = .ends (l.reverse ++ p) := by
  induction l generalizing p with
  | nil => rfl
  | cons n l ih =>
      rw [List.reverse_cons, List.append_assoc, List.singleton_append] at h ⊢
      have hknown : known (n :: p) := h _ (List.suffix_append _ _)
      rw [List.map_cons, lex, if_pos hknown, ih h]

end Lex

/-! ## What a walk depends on -/

section Walks

variable {known : List ν → Prop} [DecidablePred known] (htail : ∀ p, known p → known p.tail)

include htail

/-- **Trees that look alike where the path goes give the same walk.** -/
theorem walk_congr {t₁ t₂ : FileTree ν δ φ} (hdir : ∀ p, known p → t₁.isDir p = t₂.isDir p)
    (hsome : ∀ p, known p → (t₁.entry p).isSome = (t₂.entry p).isSome) {segs : List (Seg ν)}
    {p : List ν} (hp : known p) (h : lex known segs p ≠ .escape) : t₁.walk segs p = t₂.walk segs p := by
  induction segs generalizing p with
  | nil => rfl
  | cons seg segs ih =>
      simp only [FileTree.walk, hdir p hp]
      split
      next =>
        cases seg with
        | here => exact ih hp h
        | up => exact ih (htail p hp) h
        | name n =>
            simp only [lex] at h
            split at h
            next hknown =>
              simp only [hsome _ hknown]
              split
              next => exact ih hknown h
              next => rfl
            next => exact absurd rfl h
        | tooLong => rfl
      next => rfl

omit htail in
/-- **A walk that arrives, arrives where the components say.** -/
theorem lex_of_found {t : FileTree ν δ φ} {segs : List (Seg ν)} {p q : List ν}
    (h : t.walk segs p = .found q) (hlex : lex known segs p ≠ .escape) :
    lex known segs p = .ends q := by
  induction segs generalizing p with
  | nil =>
      cases h
      rfl
  | cons seg segs ih =>
      simp only [FileTree.walk] at h
      split at h
      next =>
        cases seg with
        | here => exact ih h hlex
        | up => exact ih h hlex
        | name n =>
            simp only [lex] at hlex ⊢
            split at hlex
            next hknown =>
              rw [if_pos hknown]
              simp only at h
              split at h
              next => exact ih h hlex
              next => cases h
            next => exact absurd rfl hlex
        | tooLong => cases h
      next => cases h

/-- The positions a path goes through and ends at are known. -/
theorem known_of_ends {segs : List (Seg ν)} {p q : List ν} (hp : known p)
    (h : lex known segs p = .ends q) : known q := by
  induction segs generalizing p with
  | nil =>
      cases h
      exact hp
  | cons seg segs ih =>
      cases seg with
      | here => exact ih hp h
      | up => exact ih (htail p hp) h
      | name n =>
          simp only [lex] at h
          split at h
          next hknown => exact ih hknown h
          next => cases h
      | tooLong => cases h

omit htail in
/-- **A path that escapes leads nowhere** in a tree with nothing but known positions. -/
theorem walk_of_escape {t : FileTree ν δ φ} (hnone : ∀ p, ¬ known p → t.entry p = none)
    {segs : List (Seg ν)} {p : List ν} (h : lex known segs p = .escape) :
    t.walk segs p = .missing := by
  induction segs generalizing p with
  | nil => cases h
  | cons seg segs ih =>
      simp only [FileTree.walk]
      split
      next =>
        cases seg with
        | here => exact ih h
        | up => exact ih h
        | name n =>
            simp only [lex] at h
            split at h
            next hknown =>
              simp only
              split
              next => exact ih h
              next => rfl
            next hunknown =>
              simp [hnone _ hunknown]
        | tooLong => cases h
      next => rfl

end Walks

section Parts

variable {t : FileTree ν δ φ}

/-- Following a path and then another. -/
theorem walk_append {segs : List (Seg ν)} {p q : List ν} (h : t.walk segs p = .found q)
    (more : List (Seg ν)) : t.walk (segs ++ more) p = t.walk more q := by
  induction segs generalizing p with
  | nil =>
      cases h
      rfl
  | cons seg segs ih =>
      simp only [FileTree.walk, List.cons_append] at h ⊢
      split at h
      next hdir =>
        rw [if_pos hdir]
        cases seg with
        | here => exact ih h
        | up => exact ih h
        | name n =>
            simp only at h ⊢
            split at h
            next hsome =>
              rw [if_pos hsome]
              exact ih h
            next => cases h
        | tooLong => cases h
      next => cases h

/-- One name leads to the entry of that name, or nowhere. -/
theorem walk_name {n : ν} {p : List ν} (h : t.walk [.name n] p ≠ .missing) :
    t.walk [.name n] p = .found (n :: p) := by
  simp only [FileTree.walk] at h ⊢
  split at h
  next hdir =>
    split at h
    next hsome => simp [hdir, hsome]
    next => exact absurd rfl h
  next => exact absurd rfl h

/-- A walk arrives at an entry. -/
theorem isSome_of_found {segs : List (Seg ν)} {p q : List ν} (hp : (t.entry p).isSome = true)
    (h : t.walk segs p = .found q) : (t.entry q).isSome = true := by
  induction segs generalizing p with
  | nil =>
      cases h
      exact hp
  | cons seg segs ih =>
      simp only [FileTree.walk] at h
      split at h
      next hdir =>
        cases seg with
        | here => exact ih hp h
        | up =>
            obtain ⟨info, hinfo⟩ := t.isDir_iff.mp (t.isDir_tail hdir)
            exact ih (by rw [hinfo]; rfl) h
        | name n =>
            simp only at h
            split at h
            next hsome => exact ih hsome h
            next => cases h
        | tooLong => cases h
      next => cases h

/-- A path whose components end at `q` arrives there or nowhere. -/
theorem found_of_ends {known : List ν → Prop} [DecidablePred known] {segs : List (Seg ν)}
    {p q : List ν} (h : lex known segs p = .ends q) (hwalk : t.walk segs p ≠ .missing) :
    t.walk segs p = .found q := by
  induction segs generalizing p with
  | nil =>
      cases h
      rfl
  | cons seg segs ih =>
      simp only [FileTree.walk] at hwalk ⊢
      split at hwalk
      next hdir =>
        rw [if_pos hdir]
        cases seg with
        | here => exact ih h hwalk
        | up => exact ih h hwalk
        | name n =>
            simp only [lex] at h
            simp only at hwalk ⊢
            split at h
            next =>
              split at hwalk
              next hsome =>
                rw [if_pos hsome]
                exact ih h hwalk
              next => exact absurd rfl hwalk
            next => cases h
        | tooLong => cases h
      next => exact absurd rfl hwalk

end Parts

/-- **A path leads somewhere** in a tree with every directory it can mention. -/
theorem walk_full {t : FileTree ν δ φ} {segs : List (Seg ν)} {p : List ν}
    (hfull : ∀ q, q.length ≤ p.length + segs.length → (∀ n ∈ q, n ∈ p ∨ Seg.name n ∈ segs) →
      t.isDir q = true) : t.walk segs p ≠ .missing := by
  induction segs generalizing p with
  | nil => simp [FileTree.walk]
  | cons seg segs ih =>
      have hp : t.isDir p = true := hfull p (by simp) fun n hn => .inl hn
      simp only [FileTree.walk, hp, if_true]
      cases seg with
      | here =>
          apply ih
          intro q hlen hq
          apply hfull q
          · simp only [List.length_cons]
            omega
          · intro n hn
            exact (hq n hn).imp id (List.mem_cons_of_mem _)
      | up =>
          apply ih
          intro q hlen hq
          apply hfull q
          · rw [List.length_tail] at hlen
            simp only [List.length_cons]
            omega
          · intro n hn
            exact (hq n hn).imp List.mem_of_mem_tail (List.mem_cons_of_mem _)
      | name n =>
          have hchild : t.isDir (n :: p) = true := by
            apply hfull (n :: p)
            · simp only [List.length_cons]
              omega
            · intro m hm
              rcases List.mem_cons.mp hm with rfl | hm
              · exact .inr (by simp)
              · exact .inl hm
          obtain ⟨info, hinfo⟩ := t.isDir_iff.mp hchild
          simp only [hinfo, Option.isSome_some, if_true]
          apply ih
          intro q hlen hq
          apply hfull q
          · simp only [List.length_cons] at hlen ⊢
            omega
          · intro m hm
            rcases hq m hm with hm | hm
            · rcases List.mem_cons.mp hm with rfl | hm
              · exact .inr (by simp)
              · exact .inl hm
            · exact .inr (List.mem_cons_of_mem _ hm)
      | tooLong => simp

end LinuxNet.Lib
