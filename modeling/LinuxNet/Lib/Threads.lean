/-
# LinuxNet.Lib.Threads — programs that run side by side

The threads of a process are programs of `Lib.Calls`, one for each `i : θ`. At any time one of them makes its
next call; a schedule says which one, and nothing is assumed of it (`Threads.run`). A thread that has returned
does nothing more when it is its turn.

What one thread has proved of itself does not depend on the others as long as the names it uses are its own:
names are handed out to one thread at a time, and a thread closes only names it has (`Framed`). Then the names
that are open are those of the threads, each of one thread only (`Apart`), and so every call is in order for the
whole process, and a thread that has returned has left what it leaves when it runs alone (`run_spec`).
-/
import LinuxNet.Lib.Calls
import Mathlib.Logic.Function.Basic

namespace LinuxNet.Lib.Calls

open FdLedger

universe u v w

variable {θ : Type*} [DecidableEq θ] {κ : Type u} {ρ : κ → Type v} {α : Type w}

/-! ## Threads -/

/-- What is left of each program, and the calls so far with who made them, newest first. -/
structure Threads (θ : Type*) (κ : Type u) (ρ : κ → Type v) (α : Type w) where
  program : θ → Calls κ ρ α
  calls : List (θ × Done κ ρ)

namespace Threads

/-- The calls of the process. -/
def trace (s : Threads θ κ ρ α) : List (Done κ ρ) := s.calls.map Prod.snd

/-- The calls of one thread. -/
def callsOf (i : θ) (calls : List (θ × Done κ ρ)) : List (Done κ ρ) :=
  calls.filterMap fun call => if call.1 = i then some call.2 else none

/-- The next call of a thread, if there is one. -/
def step (env : List (θ × Done κ ρ) → θ → (c : κ) → ρ c) (s : Threads θ κ ρ α) (i : θ) : Threads θ κ ρ α :=
  match s.program i with
  | .ret _ => s
  | .call c next =>
    let r := env s.calls i c
    ⟨Function.update s.program i (next r), (i, ⟨c, r⟩) :: s.calls⟩

/-- The threads in the order of the schedule. -/
def run (env : List (θ × Done κ ρ) → θ → (c : κ) → ρ c) (s : Threads θ κ ρ α) (schedule : List θ) :
    Threads θ κ ρ α :=
  schedule.foldl (step env) s

variable {env : List (θ × Done κ ρ) → θ → (c : κ) → ρ c} {s : Threads θ κ ρ α} {i j : θ} {d : Done κ ρ}
  {calls : List (θ × Done κ ρ)}

@[simp] theorem callsOf_cons_self : callsOf i ((i, d) :: calls) = d :: callsOf i calls :=
  List.filterMap_cons_some (if_pos rfl)

theorem callsOf_cons_of_ne (hne : i ≠ j) : callsOf j ((i, d) :: calls) = callsOf j calls :=
  List.filterMap_cons_none (if_neg hne)

/-- A step adds to the trace. -/
theorem step_suffix : s.trace <:+ (step env s i).trace := by
  rw [step]
  split
  · exact List.suffix_rfl
  · exact List.suffix_cons _ _

theorem run_suffix (schedule : List θ) : s.trace <:+ (run env s schedule).trace := by
  induction schedule generalizing s with
  | nil => exact List.suffix_rfl
  | cons i schedule ih => exact step_suffix.trans ih

end Threads

/-! ## What holds already -/

/-- What a program makes sure of for the end, and what cannot become true by one more call, holds already: every
call can be answered. -/
theorem wp_now {ok : List (Done κ ρ) → Done κ ρ → Prop} {I : List (Done κ ρ) → Prop}
    (hanswered : ∀ t c, ∃ r, ok t ⟨c, r⟩) (hI : ∀ d t, I (d :: t) → I t) {p : Calls κ ρ α}
    {trace : List (Done κ ρ)} (h : wp ok p (fun _ t => I t) trace) : I trace := by
  induction p generalizing trace with
  | ret a => exact h
  | call c next ih =>
      obtain ⟨r, hr⟩ := hanswered trace c
      exact hI _ _ (ih r (h r hr))

/-! ## Names of several threads -/

section Names

variable {ι : Type*} [DecidableEq ι] (op : Done κ ρ → Option (FdOp ι)) (may : κ → Finset ι → Prop)

/-- **`Framed op may`** — a call that is in order with some names is so with more, and it closes one of them
only. -/
structure Framed : Prop where
  mono : ∀ {c : κ} {held opened : Finset ι}, held ⊆ opened → may c held → may c opened
  closes : ∀ {c : κ} {r : ρ c} {n : ι} {held : Finset ι}, op ⟨c, r⟩ = some (.closed n) → may c held → n ∈ held

/-- The names a thread has opened and not closed. -/
def ownedBy (i : θ) (calls : List (θ × Done κ ρ)) : Finset ι := openFds ∅ (history op (Threads.callsOf i calls))

/-- The names that are open. -/
def ownedByAll (calls : List (θ × Done κ ρ)) : Finset ι := openFds ∅ (history op (calls.map Prod.snd))

/-- **`Apart op calls`** — an open name is one of a thread, and of no other one. -/
structure Apart (calls : List (θ × Done κ ρ)) : Prop where
  mem_iff : ∀ n, n ∈ ownedByAll op calls ↔ ∃ i, n ∈ ownedBy op i calls
  unique : ∀ {n i j}, n ∈ ownedBy op i calls → n ∈ ownedBy op j calls → i = j

variable {op may} {calls : List (θ × Done κ ρ)} {i j : θ} {d : Done κ ρ} {n : ι}

theorem ownedBy_cons_of_ne (hne : i ≠ j) : ownedBy op j ((i, d) :: calls) = ownedBy op j calls := by
  rw [ownedBy, Threads.callsOf_cons_of_ne hne, ownedBy]

theorem ownedBy_cons_of_none (hop : op d = none) : ownedBy op j ((i, d) :: calls) = ownedBy op j calls := by
  by_cases hij : i = j
  · subst hij
    rw [ownedBy, Threads.callsOf_cons_self, history, List.filterMap_cons_none hop, ownedBy, history]
  · exact ownedBy_cons_of_ne hij

theorem ownedBy_cons_some {o : FdOp ι} (hop : op d = some o) :
    ownedBy op i ((i, d) :: calls) = openFds ∅ (o :: history op (Threads.callsOf i calls)) := by
  rw [ownedBy, Threads.callsOf_cons_self, history, List.filterMap_cons_some hop, history]

omit [DecidableEq θ] in
theorem ownedByAll_cons_some {o : FdOp ι} (hop : op d = some o) :
    ownedByAll op ((i, d) :: calls) = openFds ∅ (o :: history op (calls.map Prod.snd)) := by
  rw [ownedByAll, List.map_cons, history, List.filterMap_cons_some hop, history]

theorem apart_nil : Apart op ([] : List (θ × Done κ ρ)) :=
  ⟨fun _ => iff_of_false (Finset.notMem_empty _) fun ⟨_, hin⟩ => Finset.notMem_empty _ hin,
    fun hin => absurd hin (Finset.notMem_empty _)⟩

theorem Apart.subset (h : Apart op calls) (i : θ) : ownedBy op i calls ⊆ ownedByAll op calls :=
  fun n hin => (h.mem_iff n).mpr ⟨i, hin⟩

/-- A call that neither opens nor closes. -/
theorem Apart.plain (h : Apart op calls) (hall : ownedByAll op ((i, d) :: calls) = ownedByAll op calls)
    (hown : ∀ j, ownedBy op j ((i, d) :: calls) = ownedBy op j calls) : Apart op ((i, d) :: calls) := by
  refine ⟨fun n => ?_, fun {n j k} hj hk => ?_⟩
  · simp only [hall, hown]
    exact h.mem_iff n
  · rw [hown] at hj hk
    exact h.unique hj hk

/-- A name is handed out that nobody has. -/
theorem Apart.opened (h : Apart op calls) (hop : op d = some (.opened n)) (hnew : n ∉ ownedByAll op calls) :
    Apart op ((i, d) :: calls) := by
  have hself : ownedBy op i ((i, d) :: calls) = insert n (ownedBy op i calls) := ownedBy_cons_some hop
  have hall : ownedByAll op ((i, d) :: calls) = insert n (ownedByAll op calls) := ownedByAll_cons_some hop
  have hother : ∀ {m j}, m ∈ ownedBy op j ((i, d) :: calls) ↔ m ∈ ownedBy op j calls ∨ m = n ∧ j = i := by
    intro m j
    by_cases hij : i = j
    · subst hij
      rw [hself, Finset.mem_insert, or_comm, and_iff_left rfl]
    · rw [ownedBy_cons_of_ne hij, or_iff_left fun heq => hij heq.2.symm]
  have hnobody : ∀ j, n ∉ ownedBy op j calls := fun j hin => hnew (h.subset j hin)
  refine ⟨fun m => ?_, fun {m j k} hj hk => ?_⟩
  · simp only [hall, Finset.mem_insert, hother, h.mem_iff m]
    constructor
    · rintro (rfl | ⟨j, hin⟩)
      · exact ⟨i, .inr ⟨rfl, rfl⟩⟩
      · exact ⟨j, .inl hin⟩
    · rintro ⟨j, hin | ⟨rfl, -⟩⟩
      · exact .inr ⟨j, hin⟩
      · exact .inl rfl
  · rcases hother.mp hj with hjin | ⟨hmn, hji⟩
    · rcases hother.mp hk with hkin | ⟨hmn, -⟩
      · exact h.unique hjin hkin
      · rw [hmn] at hjin
        exact absurd hjin (hnobody j)
    · rcases hother.mp hk with hkin | ⟨-, hki⟩
      · rw [hmn] at hkin
        exact absurd hkin (hnobody k)
      · rw [hji, hki]

/-- A thread closes a name it has. -/
theorem Apart.closed (h : Apart op calls) (hop : op d = some (.closed n)) (hn : n ∈ ownedBy op i calls) :
    Apart op ((i, d) :: calls) := by
  have hself : ownedBy op i ((i, d) :: calls) = (ownedBy op i calls).erase n := ownedBy_cons_some hop
  have hall : ownedByAll op ((i, d) :: calls) = (ownedByAll op calls).erase n := ownedByAll_cons_some hop
  have hother : ∀ {m j}, m ∈ ownedBy op j ((i, d) :: calls) ↔ m ≠ n ∧ m ∈ ownedBy op j calls := by
    intro m j
    by_cases hij : i = j
    · subst hij
      rw [hself, Finset.mem_erase]
    · -- nobody else has the name that is closed
      rw [ownedBy_cons_of_ne hij]
      refine ⟨fun hin => ⟨?_, hin⟩, fun hin => hin.2⟩
      rintro rfl
      exact hij (h.unique hn hin)
  refine ⟨fun m => ?_, fun hj hk => h.unique (hother.mp hj).2 (hother.mp hk).2⟩
  rw [hall, Finset.mem_erase, h.mem_iff m, ← exists_and_left]
  exact exists_congr fun j => hother.symm

/-- **One call of one thread** keeps the threads apart. -/
theorem Apart.cons (hframed : Framed op may) (h : Apart op calls)
    (hfresh : HandsOutFresh op (calls.map Prod.snd) d) (hmay : may d.1 (ownedBy op i calls)) :
    Apart op ((i, d) :: calls) := by
  rcases hop : op d with _ | (n | n | n)
  · refine h.plain ?_ fun j => ownedBy_cons_of_none hop
    rw [ownedByAll, List.map_cons, history, List.filterMap_cons_none hop, ownedByAll, history]
  · rw [HandsOutFresh, hop] at hfresh
    exact h.opened hop hfresh
  · refine h.plain (ownedByAll_cons_some hop) fun j => ?_
    by_cases hij : i = j
    · subst hij
      exact ownedBy_cons_some hop
    · exact ownedBy_cons_of_ne hij
  · exact h.closed hop (hframed.closes hop hmay)

end Names

/-! ## Runs -/

section Runs

variable {ι : Type*} [DecidableEq ι] {op : Done κ ρ → Option (FdOp ι)} {may : κ → Finset ι → Prop}
  {Q : θ → α → List (Done κ ρ) → Prop} {s : Threads θ κ ρ α}
  {env : List (θ × Done κ ρ) → θ → (c : κ) → ρ c}

/-- **`Side op may Q s`** — the threads are apart, every call was in order for the whole process, and each
thread makes sure of `Q` as if it were alone. -/
structure Side (op : Done κ ρ → Option (FdOp ι)) (may : κ → Finset ι → Prop)
    (Q : θ → α → List (Done κ ρ) → Prop) (s : Threads θ κ ρ α) : Prop where
  apart : Apart op s.calls
  inOrder : InOrder op may s.trace
  alone : ∀ i, wp (HandsOutFresh op) (s.program i) (fun a t => Q i a t ∧ InOrder op may t)
    (Threads.callsOf i s.calls)

/-- What is new to the process is new to a thread. -/
theorem handsOutFresh_callsOf {calls : List (θ × Done κ ρ)} (h : Apart op calls) {d : Done κ ρ}
    (hfresh : HandsOutFresh op (calls.map Prod.snd) d) (i : θ) :
    HandsOutFresh op (Threads.callsOf i calls) d := by
  rw [HandsOutFresh] at hfresh ⊢
  rcases hop : op d with _ | (n | n | n)
  · trivial
  · rw [hop] at hfresh
    exact fun hin => hfresh (h.subset i hin)
  · trivial
  · trivial

/-- Every call of a thread was in order for itself. -/
theorem Side.inOrder_callsOf (hanswered : ∀ t c, ∃ r, HandsOutFresh op t ⟨c, r⟩) (h : Side op may Q s) (i : θ) :
    InOrder op may (Threads.callsOf i s.calls) :=
  wp_now hanswered (fun _ _ ht => ht.2) (wp_mono (h.alone i) fun _ _ hQ => hQ.2)

theorem Side.step (hframed : Framed op may) (hanswered : ∀ t c, ∃ r, HandsOutFresh op t ⟨c, r⟩)
    (h : Side op may Q s) {i : θ}
    (henv : EachCall (fun d earlier => HandsOutFresh op earlier d) (Threads.step env s i).trace) :
    Side op may Q (Threads.step env s i) := by
  rw [Threads.step] at henv ⊢
  rcases hp : s.program i with a | ⟨c, next⟩
  · exact h
  · simp only [hp] at henv
    have hfresh : HandsOutFresh op s.trace ⟨c, env s.calls i c⟩ := henv.1
    have hwp := h.alone i
    rw [hp] at hwp
    have hnext := hwp _ (handsOutFresh_callsOf h.apart hfresh i)
    -- the call was in order for the thread, since all calls of the thread will have been
    have hlocal := wp_now hanswered (fun d t ht => ht.2) (wp_mono hnext fun _ _ hQ => hQ.2)
    have hmay : may c (ownedBy op i s.calls) := hlocal.1
    refine ⟨h.apart.cons hframed hfresh hmay, ⟨hframed.mono (h.apart.subset i) hmay, h.inOrder⟩, fun j => ?_⟩
    by_cases hij : i = j
    · subst hij
      simp only [Function.update_self, Threads.callsOf_cons_self]
      exact hnext
    · simp only [Function.update_of_ne (Ne.symm hij), Threads.callsOf_cons_of_ne hij]
      exact h.alone j

/-- **Threads do not disturb each other.** Each thread makes sure of `Q` for itself. Then, whatever the
schedule, they are apart, every call is in order for the whole process, and `Q` holds of what a thread has
returned and of the calls it has made. -/
theorem run_spec (hframed : Framed op may) (hanswered : ∀ t c, ∃ r, HandsOutFresh op t ⟨c, r⟩)
    (h : Side op may Q s) (schedule : List θ)
    (henv : EachCall (fun d earlier => HandsOutFresh op earlier d) (Threads.run env s schedule).trace) :
    Side op may Q (Threads.run env s schedule) := by
  induction schedule generalizing s with
  | nil => exact h
  | cons i schedule ih =>
      have hstep := h.step hframed hanswered (henv.suffix (Threads.run_suffix schedule))
      exact ih hstep henv

/-- The threads at their start. -/
theorem side_start {p : θ → Calls κ ρ α}
    (h : ∀ i, wp (HandsOutFresh op) (p i) (fun a t => Q i a t ∧ InOrder op may t) []) :
    Side op may Q ⟨p, []⟩ :=
  ⟨apart_nil, trivial, h⟩

/-- A thread that has returned. -/
theorem Side.returned (h : Side op may Q s) {i : θ} {a : α} (ha : s.program i = .ret a) :
    Q i a (Threads.callsOf i s.calls) := by
  have hwp := h.alone i
  rw [ha] at hwp
  exact hwp.1

end Runs

end LinuxNet.Lib.Calls
