/-
# LinuxNet.Lib.FdLedger — who is open, and how often each lifetime of a name was closed

Names (file descriptors, handles) are handed out by an allocator that reuses them once they are
closed. A *history* is the list of what happened to them, newest first: a name was `opened`, it was
`stored` in some table of the program, it was `closed`. Nothing here knows what the names name.

* `openFds base h` — the names open after `h`, when those of `base` were open before it;
* `storedFds h` — the stored names not closed since;
* `ClosesOpen` — every close hits an open name; `OpensFresh` — every opened name was not open;
* `lifetimes d h` — for each time `d` was opened, newest first, the number of closes of `d` before it
  was opened again. This is how "closed exactly once" is said of a name that is reused.

The result the clients use is `lifetimes_of_disciplined`: under both disciplines a lifetime is either
the current one of an open name, not closed yet, or it was closed exactly once. `closedOnce_closes_iff`
says what has to be closed at the end of a history so that every lifetime was closed exactly once.

A program that is responsible for some of the open names (`held`) is `Balanced` if it is for all of them, and
has `Leaked` one otherwise; then not everything is ever closed (`Leaked.not_closedOnce`).
-/
import Mathlib.Data.Finset.Basic
import Mathlib.Data.Finset.Order

namespace LinuxNet.Lib

/-- What happened to a name. -/
inductive FdOp (ι : Type*) where
  | opened (d : ι)
  | stored (d : ι)
  | closed (d : ι)
  deriving DecidableEq, Repr

namespace FdLedger

variable {ι : Type*} [DecidableEq ι]

/-! ## The names open and the names stored -/

/-- The names open after the history, newest event first. -/
def openFds (base : Finset ι) : List (FdOp ι) → Finset ι
  | [] => base
  | .opened d :: h => insert d (openFds base h)
  | .stored _ :: h => openFds base h
  | .closed d :: h => (openFds base h).erase d

/-- The names stored and not closed since. -/
def storedFds : List (FdOp ι) → Finset ι
  | [] => ∅
  | .opened _ :: h => storedFds h
  | .stored d :: h => insert d (storedFds h)
  | .closed d :: h => (storedFds h).erase d

section SimpSet

variable (base : Finset ι) (d : ι) (h : List (FdOp ι))

@[simp] theorem openFds_opened : openFds base (.opened d :: h) = insert d (openFds base h) := rfl
@[simp] theorem openFds_stored : openFds base (.stored d :: h) = openFds base h := rfl
@[simp] theorem openFds_closed : openFds base (.closed d :: h) = (openFds base h).erase d := rfl

@[simp] theorem storedFds_opened : storedFds (.opened d :: h) = storedFds h := rfl
@[simp] theorem storedFds_stored : storedFds (.stored d :: h) = insert d (storedFds h) := rfl
@[simp] theorem storedFds_closed : storedFds (.closed d :: h) = (storedFds h).erase d := rfl

end SimpSet

omit [DecidableEq ι] in
/-- There is always a name above a given one that is not among finitely many. -/
theorem exists_fresh [LinearOrder ι] [NoMaxOrder ι] (a : ι) (ds : Finset ι) : ∃ d, a < d ∧ d ∉ ds := by
  have hnonempty : Nonempty ι := ⟨a⟩
  obtain ⟨bound, hbound⟩ := (insert a ds).exists_le
  obtain ⟨d, hd⟩ := exists_gt bound
  refine ⟨d, (hbound a (Finset.mem_insert_self a ds)).trans_lt hd, ?_⟩
  intro hmem
  exact (hbound d (Finset.mem_insert_of_mem hmem)).not_gt hd

/-- A name that is never closed is open if it was ever handed out. -/
theorem mem_openFds_iff_of_notMem_closed {d : ι} {h : List (FdOp ι)} (hclosed : .closed d ∉ h) :
    d ∈ openFds ∅ h ↔ .opened d ∈ h := by
  induction h with
  | nil => simp [openFds]
  | cons op h ih =>
      obtain ⟨hne, hrest⟩ := not_or.mp (mt List.mem_cons.mpr hclosed)
      specialize ih hrest
      cases op with
      | opened e => rw [openFds_opened, Finset.mem_insert, ih, List.mem_cons, FdOp.opened.injEq]
      | stored e => rw [openFds_stored, ih, List.mem_cons, or_iff_right nofun]
      | closed e =>
          have hde : d ≠ e := fun heq => hne (congrArg FdOp.closed heq)
          rw [openFds_closed, Finset.mem_erase, ih, List.mem_cons, and_iff_right hde, or_iff_right nofun]

/-! ## The two disciplines -/

/-- Every close hits a name that is open when it happens. -/
def ClosesOpen (base : Finset ι) : List (FdOp ι) → Prop
  | [] => True
  | .closed d :: h => d ∈ openFds base h ∧ ClosesOpen base h
  | _ :: h => ClosesOpen base h

/-- The allocator hands out names that are not open. -/
def OpensFresh (base : Finset ι) : List (FdOp ι) → Prop
  | [] => True
  | .opened d :: h => d ∉ openFds base h ∧ OpensFresh base h
  | _ :: h => OpensFresh base h

section SimpSet

variable (base : Finset ι) (d : ι) (h : List (FdOp ι))

@[simp] theorem closesOpen_nil : ClosesOpen base [] := trivial
@[simp] theorem closesOpen_opened : ClosesOpen base (.opened d :: h) ↔ ClosesOpen base h := .rfl
@[simp] theorem closesOpen_stored : ClosesOpen base (.stored d :: h) ↔ ClosesOpen base h := .rfl
@[simp] theorem closesOpen_closed :
    ClosesOpen base (.closed d :: h) ↔ d ∈ openFds base h ∧ ClosesOpen base h := .rfl

@[simp] theorem opensFresh_nil : OpensFresh base [] := trivial
@[simp] theorem opensFresh_opened :
    OpensFresh base (.opened d :: h) ↔ d ∉ openFds base h ∧ OpensFresh base h := .rfl
@[simp] theorem opensFresh_stored : OpensFresh base (.stored d :: h) ↔ OpensFresh base h := .rfl
@[simp] theorem opensFresh_closed : OpensFresh base (.closed d :: h) ↔ OpensFresh base h := .rfl

end SimpSet

/-! ## Lifetimes -/

/-- For each time `d` was opened, newest first: how often `d` was closed before it was opened again. -/
def lifetimes (d : ι) : List (FdOp ι) → List ℕ
  | [] => []
  | .opened e :: h => if e = d then 0 :: lifetimes d h else lifetimes d h
  | .stored _ :: h => lifetimes d h
  | .closed e :: h => if e = d then (lifetimes d h).modifyHead (· + 1) else lifetimes d h

/-- Where the lifetimes of `d` stand after a disciplined history: the newest one is open and unclosed,
or closed once and over; all earlier ones were closed once. -/
def Settled (isOpen : Prop) : List ℕ → Prop
  | [] => True
  | k :: ks => (k = 0 ∧ isOpen ∨ k = 1 ∧ ¬ isOpen) ∧ ∀ k' ∈ ks, k' = 1

theorem Settled.congr {p q : Prop} (hpq : p ↔ q) {ks : List ℕ} (h : Settled p ks) : Settled q ks := by
  rwa [← propext hpq]

theorem settled_of_disciplined (base : Finset ι) (d : ι) {h : List (FdOp ι)}
    (hopen : OpensFresh base h) (hclose : ClosesOpen base h) :
    Settled (d ∈ openFds base h) (lifetimes d h) := by
  induction h with
  | nil => trivial
  | cons op h ih =>
      cases op with
      | opened e =>
          simp only [opensFresh_opened, closesOpen_opened] at hopen hclose
          specialize ih hopen.2 hclose
          by_cases he : e = d
          · subst he
            -- `e` was not open, so its newest lifetime, if there is one, is over
            simp only [lifetimes, if_true, Settled, openFds_opened, Finset.mem_insert_self, and_true,
              true_or, true_and]
            cases hl : lifetimes e h with
            | nil => simp
            | cons k ks =>
                rw [hl] at ih
                obtain ⟨⟨rfl, hin⟩ | ⟨rfl, -⟩, hks⟩ := ih
                · exact absurd hin hopen.1
                · simpa using hks
          · simp only [lifetimes, if_neg he]
            exact ih.congr (by simp [Ne.symm he])
      | stored e => exact ih hopen hclose
      | closed e =>
          simp only [opensFresh_closed, closesOpen_closed] at hopen hclose
          specialize ih hopen hclose.2
          by_cases he : e = d
          · subst he
            simp only [lifetimes, if_true]
            cases hl : lifetimes e h with
            | nil => trivial
            | cons k ks =>
                rw [hl] at ih
                obtain ⟨⟨rfl, -⟩ | ⟨-, hout⟩, hks⟩ := ih
                · exact ⟨.inr ⟨rfl, by simp⟩, hks⟩
                · exact absurd hclose.1 hout
          · simp only [lifetimes, if_neg he]
            exact ih.congr (by simp [Ne.symm he])

/-- **Every lifetime is either the running one of an open name, or was closed exactly once.** -/
theorem lifetimes_of_disciplined {base : Finset ι} {d : ι} {h : List (FdOp ι)}
    (hopen : OpensFresh base h) (hclose : ClosesOpen base h) {k : ℕ} (hk : k ∈ lifetimes d h) :
    (k = 0 ∧ d ∈ openFds base h ∧ (lifetimes d h).head? = some 0) ∨ k = 1 := by
  have hs := settled_of_disciplined base d hopen hclose
  cases hl : lifetimes d h with
  | nil => simp [hl] at hk
  | cons k₀ ks =>
      rw [hl] at hs hk
      obtain ⟨hhead, htail⟩ := hs
      rcases List.mem_cons.mp hk with rfl | hmem
      · rcases hhead with ⟨rfl, hin⟩ | ⟨rfl, -⟩
        · exact .inl ⟨rfl, hin, rfl⟩
        · exact .inr rfl
      · exact .inr (htail k hmem)

/-! ## Histories in two parts, and histories that are over -/

section Append

variable (base : Finset ι) (h h' : List (FdOp ι))

theorem openFds_append : openFds base (h ++ h') = openFds (openFds base h') h := by
  induction h with
  | nil => rfl
  | cons op h ih => cases op <;> simp [ih]

theorem closesOpen_append :
    ClosesOpen base (h ++ h') ↔ ClosesOpen (openFds base h') h ∧ ClosesOpen base h' := by
  induction h with
  | nil => simp
  | cons op h ih => cases op <;> simp [ih, openFds_append, and_assoc]

theorem opensFresh_append :
    OpensFresh base (h ++ h') ↔ OpensFresh (openFds base h') h ∧ OpensFresh base h' := by
  induction h with
  | nil => simp
  | cons op h ih => cases op <;> simp [ih, openFds_append, and_assoc]

end Append

theorem openFds_mono {base base' : Finset ι} (hsub : base ⊆ base') (h : List (FdOp ι)) :
    openFds base h ⊆ openFds base' h := by
  induction h with
  | nil => exact hsub
  | cons op h ih =>
      cases op with
      | opened d => exact Finset.insert_subset_insert d ih
      | stored d => exact ih
      | closed d => exact Finset.erase_subset_erase d ih

/-- A name that was open at the start only matters for itself. -/
theorem mem_openFds_insert {base : Finset ι} {a d : ι} {h : List (FdOp ι)}
    (hd : d ∈ openFds (insert a base) h) : d = a ∨ d ∈ openFds base h := by
  induction h with
  | nil => exact Finset.mem_insert.mp hd
  | cons op h ih =>
      cases op with
      | opened e =>
          rcases Finset.mem_insert.mp hd with rfl | hd
          · exact .inr (Finset.mem_insert_self _ _)
          · exact (ih hd).imp_right (Finset.mem_insert_of_mem ·)
      | stored e => exact ih hd
      | closed e =>
          obtain ⟨hne, hd⟩ := Finset.mem_erase.mp hd
          exact (ih hd).imp_right fun h => Finset.mem_erase.mpr ⟨hne, h⟩

/-- A name that is open although none was at the start has been opened. -/
theorem lifetimes_ne_nil {d : ι} {h : List (FdOp ι)} (hd : d ∈ openFds ∅ h) : lifetimes d h ≠ [] := by
  induction h with
  | nil => cases hd
  | cons op h ih =>
      cases op with
      | opened e =>
          rw [lifetimes]
          split
          next => exact List.cons_ne_nil _ _
          next hne => exact ih ((Finset.mem_insert.mp hd).resolve_left (Ne.symm hne))
      | stored e => exact ih hd
      | closed e =>
          obtain ⟨hne, hd⟩ := Finset.mem_erase.mp hd
          rw [lifetimes, if_neg (Ne.symm hne)]
          exact ih hd

/-- Closing some names adds to their newest lifetimes. -/
theorem lifetimes_closes (d : ι) (ds : List ι) (h : List (FdOp ι)) :
    lifetimes d (ds.map FdOp.closed ++ h) = (lifetimes d h).modifyHead (· + ds.count d) := by
  induction ds with
  | nil => cases hl : lifetimes d h <;> simp [hl]
  | cons e ds ih =>
      rw [List.map_cons, List.cons_append, lifetimes, ih]
      by_cases he : e = d
      · rw [if_pos he, he, List.count_cons_self, List.modifyHead_modifyHead]
        rfl
      · rw [if_neg he, List.count_cons_of_ne he]

/-- **`ClosedOnce h`** — every name was closed exactly once each time it was opened. -/
def ClosedOnce (h : List (FdOp ι)) : Prop := ∀ d, ∀ k ∈ lifetimes d h, k = 1

/-- **Closing down.** A disciplined history ends with everything closed once exactly when the names closed
at its end are those still open, each once. -/
theorem closedOnce_closes_iff {ds : List ι} {h : List (FdOp ι)} (hopen : OpensFresh ∅ h)
    (hclose : ClosesOpen ∅ h) :
    ClosedOnce (ds.map FdOp.closed ++ h) ↔
      ∀ d, lifetimes d h ≠ [] → ds.count d = if d ∈ openFds ∅ h then 1 else 0 := by
  refine forall_congr' fun d => ?_
  have hs := settled_of_disciplined ∅ d hopen hclose
  rw [lifetimes_closes]
  rcases hl : lifetimes d h with _ | ⟨k, ks⟩
  · simp
  · rw [hl] at hs
    obtain ⟨hhead, htail⟩ := hs
    -- the newest lifetime is the only one that the names closed at the end can add to
    have hnewest : k + ds.count d = 1 ↔ ds.count d = if d ∈ openFds ∅ h then 1 else 0 := by
      rcases hhead with ⟨rfl, hin⟩ | ⟨rfl, hout⟩
      · rw [if_pos hin]
        omega
      · rw [if_neg hout]
        omega
    rw [List.modifyHead_cons, List.forall_mem_cons, hnewest, and_iff_left htail]
    exact ⟨fun hcount _ => hcount, fun hcount => hcount (List.cons_ne_nil _ _)⟩

/-- Everything was closed once exactly when nothing is open. -/
theorem closedOnce_iff_openFds_eq_empty {h : List (FdOp ι)} (hopen : OpensFresh ∅ h)
    (hclose : ClosesOpen ∅ h) : ClosedOnce h ↔ openFds ∅ h = ∅ := by
  have hiff : ClosedOnce (([] : List ι).map FdOp.closed ++ h) ↔ _ := closedOnce_closes_iff hopen hclose
  rw [List.map_nil, List.nil_append] at hiff
  rw [hiff, Finset.eq_empty_iff_forall_notMem]
  refine forall_congr' fun d => ⟨fun hd hin => ?_, fun hd _ => ?_⟩
  · have hone := hd (lifetimes_ne_nil hin)
    rw [if_pos hin] at hone
    cases hone
  · rw [if_neg hd]
    rfl

/-! ## Holders -/

/-- **`Account held h`** — after the history `h`, in which nothing was open at the start, someone is
responsible for the names in `held`, all of them open. -/
structure Account (held : Finset ι) (h : List (FdOp ι)) : Prop where
  opensFresh : OpensFresh ∅ h
  closesOpen : ClosesOpen ∅ h
  isOpen : held ⊆ openFds ∅ h

/-- **`Balanced held h`** — someone is responsible for every open name. -/
structure Balanced (held : Finset ι) (h : List (FdOp ι)) : Prop extends Account held h where
  isHeld : openFds ∅ h ⊆ held

/-- **`Leaked held h`** — a name is open that nobody is responsible for. -/
structure Leaked (held : Finset ι) (h : List (FdOp ι)) : Prop extends Account held h where
  leaked : ∃ d ∈ openFds ∅ h, d ∉ held

section Holders

variable {held : Finset ι} {d : ι} {h : List (FdOp ι)}

theorem balanced_nil : Balanced (∅ : Finset ι) [] :=
  ⟨⟨trivial, trivial, Finset.Subset.refl ∅⟩, Finset.Subset.refl ∅⟩

/-- **`Kept P`** — `P` is true of an account, and stays true when a fresh name is opened, which is then held,
and when a name that is held is closed. -/
structure Kept (P : Finset ι → List (FdOp ι) → Prop) : Prop where
  account : ∀ {held h}, P held h → Account held h
  opened : ∀ {held h d}, P held h → d ∉ openFds ∅ h → P (insert d held) (.opened d :: h)
  closed : ∀ {held h d}, P held h → d ∈ held → P (held.erase d) (.closed d :: h)

/-- A name that is closed as soon as it was opened. -/
theorem Kept.used {P : Finset ι → List (FdOp ι) → Prop} (hP : Kept P) (hs : P held h)
    (hd : d ∉ openFds ∅ h) : P held (.closed d :: .opened d :: h) := by
  have hclosed := hP.closed (hP.opened hs hd) (Finset.mem_insert_self d held)
  rwa [Finset.erase_insert fun hin => hd ((hP.account hs).isOpen hin)] at hclosed

/-- The only name that is held is opened, or closed. -/
theorem Kept.opened_only {P : Finset ι → List (FdOp ι) → Prop} (hP : Kept P) (hs : P ∅ h)
    (hd : d ∉ openFds ∅ h) : P {d} (.opened d :: h) := by
  have hopened := hP.opened hs hd
  rwa [insert_empty_eq] at hopened

theorem Kept.closed_only {P : Finset ι → List (FdOp ι) → Prop} (hP : Kept P) (hs : P {d} h) :
    P ∅ (.closed d :: h) := by
  have hclosed := hP.closed hs (Finset.mem_singleton_self d)
  rwa [Finset.erase_singleton] at hclosed

theorem kept_account : Kept (@Account ι _) where
  account hs := hs
  opened hs hd := ⟨⟨hd, hs.opensFresh⟩, hs.closesOpen, Finset.insert_subset_insert _ hs.isOpen⟩
  closed hs hd := ⟨hs.opensFresh, ⟨hs.isOpen hd, hs.closesOpen⟩, Finset.erase_subset_erase _ hs.isOpen⟩

theorem kept_balanced : Kept (@Balanced ι _) where
  account hs := hs.toAccount
  opened hs hd := ⟨kept_account.opened hs.toAccount hd, Finset.insert_subset_insert _ hs.isHeld⟩
  closed hs hd := ⟨kept_account.closed hs.toAccount hd, Finset.erase_subset_erase _ hs.isHeld⟩

/-- A name that nobody holds is not closed either. -/
theorem kept_leaked : Kept (@Leaked ι _) where
  account hs := hs.toAccount
  opened := by
    intro held h d hs hd
    obtain ⟨d', hopen, hout⟩ := hs.leaked
    refine ⟨kept_account.opened hs.toAccount hd, d', Finset.mem_insert_of_mem hopen, ?_⟩
    rw [Finset.mem_insert, not_or]
    exact ⟨ne_of_mem_of_not_mem hopen hd, hout⟩
  closed := by
    intro held h d hs hd
    obtain ⟨d', hopen, hout⟩ := hs.leaked
    have hne : d' ≠ d := (ne_of_mem_of_not_mem hd hout).symm
    exact ⟨kept_account.closed hs.toAccount hd, d', Finset.mem_erase.mpr ⟨hne, hopen⟩,
      fun hin => hout (Finset.mem_of_mem_erase hin)⟩

/-- Someone gives up a name without closing it. -/
theorem Account.abandon (hs : Account held h) (hd : d ∈ held) : Leaked (held.erase d) h :=
  ⟨⟨hs.opensFresh, hs.closesOpen, (Finset.erase_subset d held).trans hs.isOpen⟩, d, hs.isOpen hd,
    Finset.notMem_erase d held⟩

/-- The only name that is held is given up. -/
theorem Account.abandon_only (hs : Account {d} h) : Leaked ∅ h := by
  have hleaked := hs.abandon (Finset.mem_singleton_self d)
  rwa [Finset.erase_singleton] at hleaked

/-- A fresh name is opened, and nobody takes it. -/
theorem Account.opened_unheld (hs : Account held h) (hd : d ∉ openFds ∅ h) : Leaked held (.opened d :: h) := by
  have hopen : openFds ∅ (.opened d :: h) = insert d (openFds ∅ h) := rfl
  refine ⟨⟨⟨hd, hs.opensFresh⟩, hs.closesOpen, ?_⟩, d, ?_, fun hin => hd (hs.isOpen hin)⟩
  · rw [hopen]
    exact hs.isOpen.trans (Finset.subset_insert _ _)
  · rw [hopen]
    exact Finset.mem_insert_self _ _

/-- What is not held was closed once each time it was opened. -/
theorem Balanced.lifetimes_of_notMem (hs : Balanced held h) (hd : d ∉ held) : ∀ k ∈ lifetimes d h, k = 1 := by
  intro k hk
  rcases lifetimes_of_disciplined hs.opensFresh hs.closesOpen hk with ⟨-, hopen, -⟩ | hone
  · exact absurd (hs.isHeld hopen) hd
  · exact hone

/-- All lifetimes of a name but the newest one are over. -/
theorem Account.lifetimes_tail (hs : Account held h) (d : ι) : ∀ k ∈ (lifetimes d h).tail, k = 1 := by
  have hsettled := settled_of_disciplined ∅ d hs.opensFresh hs.closesOpen
  rcases hl : lifetimes d h with _ | ⟨k, ks⟩
  · exact List.forall_mem_nil _
  · rw [hl] at hsettled
    exact hsettled.2

/-- A name that was given up has not been closed. -/
theorem Leaked.exists_lifetime (hs : Leaked held h) : ∃ d, d ∉ held ∧ 0 ∈ lifetimes d h := by
  obtain ⟨d, hopen, hout⟩ := hs.leaked
  have hsettled := settled_of_disciplined ∅ d hs.opensFresh hs.closesOpen
  refine ⟨d, hout, ?_⟩
  rcases hl : lifetimes d h with _ | ⟨k, ks⟩
  · exact absurd hl (lifetimes_ne_nil hopen)
  · rw [hl] at hsettled
    obtain ⟨⟨rfl, -⟩ | ⟨-, hclosed⟩, -⟩ := hsettled
    · exact List.mem_cons_self
    · exact absurd hopen hclosed

/-- When nobody holds anything, everything was closed once … -/
theorem Balanced.closedOnce (hs : Balanced (∅ : Finset ι) h) : ClosedOnce h :=
  (closedOnce_iff_openFds_eq_empty hs.opensFresh hs.closesOpen).mpr (Finset.subset_empty.mp hs.isHeld)

/-- … unless a name has been given up. -/
theorem Leaked.not_closedOnce (hs : Leaked held h) : ¬ ClosedOnce h := by
  intro hclosed
  obtain ⟨d, -, hzero⟩ := hs.exists_lifetime
  cases hclosed d 0 hzero

end Holders

end FdLedger

end LinuxNet.Lib
