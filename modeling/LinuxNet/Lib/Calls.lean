/-
# LinuxNet.Lib.Calls — programs that call the system

A program (`Calls κ ρ α`) makes a call, goes on with what the system answers, and in the end returns a value.
Which calls there are (`κ`) and what each can be answered with (`ρ`) is left open. What the system answers may
depend on everything that happened before, so a system is a function of the trace (`exec`); the trace has the
newest call first.

What holds after a program, whatever it was answered, is computed along the program (`wp`): `wp_bind` is the
rule for one program after the other, and `wp_loop` the one for a loop that goes round until its body leaves
it (`loop`; it can be stopped after any number of rounds). `wp_exec` makes it a statement about runs.

Some calls hand out names and some take them back (`op`); which calls are in order depends on the names that
are open (`may`). `Holds op may held trace` is the invariant of a program that knows which names it has:
exactly those in `held` are open, and every call of the trace was in order when it was made. The rules for
single calls are `wp_plain`, `wp_takesBack` and `wp_makes`; a program that has at its end what it had before
`Retains` it.
-/
import LinuxNet.Lib.FdLedger
import LinuxNet.Lib.Machine

namespace LinuxNet.Lib

universe u v w

/-- **`Calls κ ρ α`** — a program that makes calls `c : κ`, is answered with an `r : ρ c`, and returns an
`α`. -/
inductive Calls (κ : Type u) (ρ : κ → Type v) (α : Type w) where
  | ret (a : α)
  | call (c : κ) (next : ρ c → Calls κ ρ α)

namespace Calls

variable {κ : Type u} {ρ : κ → Type v} {α β σ : Type w}

/-! ## Putting programs together -/

/-- One program after the other. -/
def andThen (p : Calls κ ρ α) (f : α → Calls κ ρ β) : Calls κ ρ β :=
  match p with
  | ret a => f a
  | call c next => call c fun r => andThen (next r) f

instance : Monad (Calls κ ρ) where
  pure := ret
  bind := andThen

/-- One call. -/
def perform (c : κ) : Calls κ ρ (ρ c) := call c ret

/-- Go round with `body` until it leaves with a result; `none` if it has not after `n` rounds. -/
def loop (body : σ → Calls κ ρ (σ ⊕ α)) : ℕ → σ → Calls κ ρ (Option α)
  | 0, _ => pure none
  | n + 1, s => do
    match ← body s with
    | .inl s => loop body n s
    | .inr a => pure (some a)

/-! ## Runs -/

/-- A call and its answer. -/
abbrev Done (κ : Type u) (ρ : κ → Type v) : Type (max u v) := (c : κ) × ρ c

/-- What the program returns, and the trace then. -/
def exec (env : List (Done κ ρ) → (c : κ) → ρ c) : Calls κ ρ α → List (Done κ ρ) → α × List (Done κ ρ)
  | ret a, trace => (a, trace)
  | call c next, trace => exec env (next (env trace c)) (⟨c, env trace c⟩ :: trace)

/-- A run adds to the trace. -/
theorem exec_suffix (env : List (Done κ ρ) → (c : κ) → ρ c) (p : Calls κ ρ α) (trace : List (Done κ ρ)) :
    trace <:+ (exec env p trace).2 := by
  induction p generalizing trace with
  | ret a => exact List.suffix_rfl
  | call c next ih => exact (List.suffix_cons _ _).trans (ih (env trace c) _)

/-! ## What holds after a program -/

/-- **`wp ok p Q trace`** — whatever `ok` lets the system answer to the program `p`, which starts after `trace`:
`Q` holds of what it returns and of the trace then. -/
def wp (ok : List (Done κ ρ) → Done κ ρ → Prop) :
    Calls κ ρ α → (α → List (Done κ ρ) → Prop) → List (Done κ ρ) → Prop
  | ret a, Q, trace => Q a trace
  | call c next, Q, trace => ∀ r, ok trace ⟨c, r⟩ → wp ok (next r) Q (⟨c, r⟩ :: trace)

section Rules

variable {ok : List (Done κ ρ) → Done κ ρ → Prop} {Q Q' : α → List (Done κ ρ) → Prop}
  {trace : List (Done κ ρ)}

theorem wp_bind {p : Calls κ ρ α} {f : α → Calls κ ρ β} {Q : β → List (Done κ ρ) → Prop} :
    wp ok (p >>= f) Q trace ↔ wp ok p (fun a => wp ok (f a) Q) trace := by
  induction p generalizing trace with
  | ret a => exact .rfl
  | call c next ih => exact forall₂_congr fun r _ => ih r

/-- A weaker statement holds after the program as well. -/
theorem wp_mono {p : Calls κ ρ α} (h : wp ok p Q trace) (hQ : ∀ a t, Q a t → Q' a t) : wp ok p Q' trace := by
  induction p generalizing trace with
  | ret a => exact hQ a trace h
  | call c next ih => exact fun r hr => ih r (h r hr)

/-- The trace only grows. -/
theorem wp_suffix {p : Calls κ ρ α} (h : wp ok p Q trace) : wp ok p (fun a t => Q a t ∧ trace <:+ t) trace := by
  induction p generalizing trace with
  | ret a => exact ⟨h, List.suffix_rfl⟩
  | call c next ih =>
      intro r hr
      exact wp_mono (ih r (h r hr)) fun a t ht => ⟨ht.1, (List.suffix_cons _ _).trans ht.2⟩

/-- **The rule for loops**: what holds before each round, and after a round that goes on, holds when the loop
is stopped. -/
theorem wp_loop {body : σ → Calls κ ρ (σ ⊕ α)} {I : σ → List (Done κ ρ) → Prop}
    {Q : Option α → List (Done κ ρ) → Prop} (hstop : ∀ s t, I s t → Q none t)
    (hbody : ∀ s t, I s t → wp ok (body s) (fun x => Sum.elim I (fun a => Q (some a)) x) t) (n : ℕ) {s : σ}
    (hs : I s trace) : wp ok (loop body n s) Q trace := by
  induction n generalizing s trace with
  | zero => exact hstop s trace hs
  | succ n ih =>
      rw [loop, wp_bind]
      refine wp_mono (hbody s trace hs) fun x t hx => ?_
      rcases x with s' | a
      · exact ih hx
      · exact hx

/-- **The rule is sound**: in a run in which every answer is one that `ok` allows, `Q` holds at the end. -/
theorem wp_exec {env : List (Done κ ρ) → (c : κ) → ρ c} {p : Calls κ ρ α} (h : wp ok p Q trace)
    (henv : EachCall (fun d earlier => ok earlier d) (exec env p trace).2) :
    Q (exec env p trace).1 (exec env p trace).2 := by
  induction p generalizing trace with
  | ret a => exact h
  | call c next ih =>
      have hlast := EachCall.suffix henv (exec_suffix env (next (env trace c)) _)
      exact ih _ (h _ hlast.1) henv

end Rules

/-! ## Names that are held -/

open FdLedger

section Names

variable {ι : Type*} [DecidableEq ι] (op : Done κ ρ → Option (FdOp ι)) (may : κ → Finset ι → Prop)

/-- What happened to the names. -/
def history (trace : List (Done κ ρ)) : List (FdOp ι) := trace.filterMap op

/-- The assumption on the system: a name that is handed out is not open. -/
def HandsOutFresh (trace : List (Done κ ρ)) (d : Done κ ρ) : Prop :=
  (op d).elim True fun
    | .opened n => n ∉ openFds ∅ (history op trace)
    | .stored _ | .closed _ => True

instance (trace : List (Done κ ρ)) (d : Done κ ρ) : Decidable (HandsOutFresh op trace d) := by
  unfold HandsOutFresh
  rcases op d with _ | n | n | n
  · exact instDecidableTrue
  · exact inferInstanceAs (Decidable (n ∉ openFds ∅ (history op trace)))
  · exact instDecidableTrue
  · exact instDecidableTrue

/-- **Every call was in order**, with the names that were open then. -/
def InOrder (trace : List (Done κ ρ)) : Prop :=
  EachCall (fun d earlier => may d.1 (openFds ∅ (history op earlier))) trace

/-- **`Holds op may held trace`** — the names in `held` are those that are open, and every call was in order. -/
structure Holds (held : Finset ι) (trace : List (Done κ ρ)) : Prop where
  balanced : Balanced held (history op trace)
  inOrder : InOrder op may trace

variable {op may} {held : Finset ι} {trace : List (Done κ ρ)} {d : Done κ ρ} {n : ι}

theorem holds_nil : Holds op may ∅ [] := ⟨balanced_nil, trivial⟩

theorem Holds.openFds_eq (h : Holds op may held trace) : openFds ∅ (history op trace) = held :=
  h.balanced.isHeld.antisymm h.balanced.isOpen

/-- One more call that is in order. -/
theorem Holds.inOrder_cons (h : Holds op may held trace) (hmay : may d.1 held) : InOrder op may (d :: trace) :=
  eachCall_cons.mpr ⟨h.openFds_eq.symm ▸ hmay, h.inOrder⟩

/-- A call that neither hands out a name nor takes one back. -/
theorem Holds.plain (h : Holds op may held trace) (hop : op d = none) (hmay : may d.1 held) :
    Holds op may held (d :: trace) := by
  refine ⟨?_, h.inOrder_cons hmay⟩
  rw [history, List.filterMap_cons_none hop]
  exact h.balanced

/-- A call that hands out a name. -/
theorem Holds.acquire (h : Holds op may held trace) (hop : op d = some (.opened n))
    (hfresh : HandsOutFresh op trace d) (hmay : may d.1 held) :
    n ∉ held ∧ Holds op may (insert n held) (d :: trace) := by
  rw [HandsOutFresh, hop] at hfresh
  have hnew : n ∉ openFds ∅ (history op trace) := hfresh
  refine ⟨h.openFds_eq ▸ hnew, ?_, h.inOrder_cons hmay⟩
  rw [history, List.filterMap_cons_some hop]
  exact kept_balanced.opened h.balanced hnew

/-- A call that takes a name back. -/
theorem Holds.release (h : Holds op may (insert n held) trace) (hn : n ∉ held) (hop : op d = some (.closed n))
    (hmay : may d.1 (insert n held)) : Holds op may held (d :: trace) := by
  refine ⟨?_, h.inOrder_cons hmay⟩
  rw [history, List.filterMap_cons_some hop]
  have hclosed := kept_balanced.closed h.balanced (Finset.mem_insert_self n held)
  rwa [Finset.erase_insert hn] at hclosed

/-- A call that takes back one of the names held. -/
theorem Holds.release_mem (h : Holds op may held trace) (hn : n ∈ held) (hop : op d = some (.closed n))
    (hmay : may d.1 held) : Holds op may (held.erase n) (d :: trace) := by
  rw [← Finset.insert_erase hn] at h hmay
  exact h.release (Finset.notMem_erase n held) hop hmay

/-- **Everything was given back once exactly when nothing is held.** -/
theorem Holds.closedOnce_iff (h : Holds op may held trace) : ClosedOnce (history op trace) ↔ held = ∅ := by
  rw [closedOnce_iff_openFds_eq_empty h.balanced.opensFresh h.balanced.closesOpen, h.openFds_eq]

/-! ## The rules for names -/

section Rules

variable {ok : List (Done κ ρ) → Done κ ρ → Prop} {c : κ}

/-- A call that hands nothing out and takes nothing back. -/
theorem wp_plain {Q : ρ c → List (Done κ ρ) → Prop} (h : Holds op may held trace)
    (hop : ∀ r, op ⟨c, r⟩ = none) (hmay : may c held)
    (hQ : ∀ r, Holds op may held (⟨c, r⟩ :: trace) → Q r (⟨c, r⟩ :: trace)) : wp ok (perform c) Q trace :=
  fun r _ => hQ r (h.plain (hop r) hmay)

/-- A call that takes back a name. -/
theorem wp_takesBack {Q : ρ c → List (Done κ ρ) → Prop} (h : Holds op may (insert n held) trace)
    (hn : n ∉ held) (hop : ∀ r, op ⟨c, r⟩ = some (.closed n)) (hmay : may c (insert n held))
    (hQ : ∀ r, Holds op may held (⟨c, r⟩ :: trace) → Q r (⟨c, r⟩ :: trace)) : wp ok (perform c) Q trace :=
  fun r _ => hQ r (h.release hn (hop r) hmay)

/-- A call that makes something or fails; `answered` is the call with its answer, `name` what is made. -/
theorem wp_makes {M : Type w} {program : Calls κ ρ (Option M)} (name : M → ι)
    (answered : Option M → Done κ ρ) {Q : Option M → List (Done κ ρ) → Prop}
    (hprogram : wp ok program Q trace ↔ ∀ r, ok trace (answered r) → Q r (answered r :: trace))
    (hfresh : ∀ d, ok trace d → HandsOutFresh op trace d)
    (hop : ∀ r, op (answered r) = r.map fun m => .opened (name m)) (h : Holds op may held trace)
    (hmay : ∀ r, may (answered r).1 held)
    (hnone : Holds op may held (answered none :: trace) → Q none (answered none :: trace))
    (hsome : ∀ m, name m ∉ held → Holds op may (insert (name m) held) (answered (some m) :: trace) →
      Q (some m) (answered (some m) :: trace)) : wp ok program Q trace := by
  refine hprogram.mpr fun r hok => ?_
  rcases r with _ | m
  · exact hnone (h.plain (hop none) (hmay none))
  · obtain ⟨hnew, hholds⟩ := h.acquire (hop (some m)) (hfresh _ hok) (hmay (some m))
    exact hsome m hnew hholds

/-- **`Retains ok op may held p`** — with the names in `held` the program `p` is in order, and it has them still
when it returns. -/
def Retains (ok : List (Done κ ρ) → Done κ ρ → Prop) (op : Done κ ρ → Option (FdOp ι))
    (may : κ → Finset ι → Prop) (held : Finset ι) (p : Calls κ ρ α) : Prop :=
  ∀ trace, Holds op may held trace → wp ok p (fun _ t => Holds op may held t) trace

theorem retains_pure (a : α) : Retains ok op may held (pure a : Calls κ ρ α) := fun _ h => h

theorem retains_plain {ρ : κ → Type w} {ok : List (Done κ ρ) → Done κ ρ → Prop}
    {op : Done κ ρ → Option (FdOp ι)} (hop : ∀ r, op ⟨c, r⟩ = none) (hmay : may c held) :
    Retains ok op may held (perform c : Calls κ ρ (ρ c)) :=
  fun _ h => wp_plain h hop hmay fun _ h' => h'

theorem Retains.bind {p : Calls κ ρ α} {f : α → Calls κ ρ β} (hp : Retains ok op may held p)
    (hf : ∀ a, Retains ok op may held (f a)) : Retains ok op may held (p >>= f) :=
  fun trace h => wp_bind.mpr (wp_mono (hp trace h) fun a t ht => hf a t ht)

/-- A program that retains what is held, and what is done next. -/
theorem Retains.wp_bind {p : Calls κ ρ α} {f : α → Calls κ ρ β} {Q : β → List (Done κ ρ) → Prop}
    (hp : Retains ok op may held p) (h : Holds op may held trace)
    (hf : ∀ a t, Holds op may held t → wp ok (f a) Q t) : wp ok (p >>= f) Q trace :=
  Calls.wp_bind.mpr (wp_mono (hp trace h) hf)

theorem Retains.ite {cond : Prop} [Decidable cond] {p q : Calls κ ρ α} (hp : Retains ok op may held p)
    (hq : Retains ok op may held q) : Retains ok op may held (if cond then p else q) := by
  split
  · exact hp
  · exact hq

theorem retains_loop {body : σ → Calls κ ρ (σ ⊕ α)} (hbody : ∀ s, Retains ok op may held (body s)) (n : ℕ)
    (s : σ) : Retains ok op may held (loop body n s) := by
  intro trace h
  refine wp_loop (I := fun _ t => Holds op may held t) (fun _ _ ht => ht) (fun s t ht => ?_) n h
  refine wp_mono (hbody s t ht) fun x t' ht' => ?_
  rcases x with s' | a
  · exact ht'
  · exact ht'

end Rules

end Names

end Calls

end LinuxNet.Lib
