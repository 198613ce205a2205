/-
# LinuxNet.Lib.Machine — runs of an event-driven machine under a guard on its environment

A program that waits for its environment is a partial step function `step : σ → ε → Option σ`: an
event is one answer of the environment, and `none` says that the program does not ask for that answer
in that state. What the environment may answer is a *guard* `ok : σ → ε → Prop`, kept apart from the
step function, so that one machine can be run under several assumptions.

The module has the runs (`Run`), the states they reach (`Reach`), the one induction every safety
result is an instance of (`Reach.invariant`), the one that fills a table up (`Reach.exists_of_grow`), and
an executable run (`execOk`) whose result is a run. A machine that goes its own way only where an invariant does
not hold has the runs of the other one (`Run.transfer`). What the steps of a run show one after the other is
`observations`; when a step shows only what it should is a matter of that step
(`Run.forall_observations_iff`). `Run.verdict` is the induction for a defect that, once it has happened, is
there for good.

A loop that starts each round with a call of its own (a wait for readiness, say) leaves a trace, newest
call first, that falls into rounds. `currentRound mark` is the calls made since the last call that
`mark` recognises, `lastMark mark` is what that call answered. `EachCall P` says of a trace that every
call in it met `P` when it was made.
-/
import Mathlib.Data.Nat.Notation
import Mathlib.Logic.Basic

namespace LinuxNet.Lib

variable {σ ε : Type*} {step : σ → ε → Option σ} {ok ok' : σ → ε → Prop}

/-! ## Runs and reachable states -/

/-- **`Run step ok s es t`** — the events `es`, each allowed by `ok` where it happens, take `s` to `t`. -/
inductive Run (step : σ → ε → Option σ) (ok : σ → ε → Prop) : σ → List ε → σ → Prop
  | nil (s : σ) : Run step ok s [] s
  | cons {s u t : σ} {e : ε} {es : List ε} :
      ok s e → step s e = some u → Run step ok u es t → Run step ok s (e :: es) t

/-- **`Reach step ok s t`** — some allowed run leads from `s` to `t`. -/
def Reach (step : σ → ε → Option σ) (ok : σ → ε → Prop) (s t : σ) : Prop :=
  ∃ es, Run step ok s es t

theorem Reach.refl (s : σ) : Reach step ok s s := ⟨[], .nil s⟩

theorem Run.append {s u t : σ} {es fs : List ε} (h : Run step ok s es u) (h' : Run step ok u fs t) :
    Run step ok s (es ++ fs) t := by
  induction h with
  | nil => exact h'
  | cons hok hstep _ ih => exact .cons hok hstep (ih h')

/-- Between two parts of a run there is a state. -/
theorem Run.exists_of_append {s t : σ} {es fs : List ε} (h : Run step ok s (es ++ fs) t) :
    ∃ u, Run step ok s es u ∧ Run step ok u fs t := by
  induction es generalizing s with
  | nil => exact ⟨s, .nil s, h⟩
  | cons e es ih =>
      rcases h with _ | ⟨hok, hst, hrest⟩
      obtain ⟨u, hes, hfs⟩ := ih hrest
      exact ⟨u, .cons hok hst hes, hfs⟩

theorem Reach.trans {s u t : σ} (h : Reach step ok s u) (h' : Reach step ok u t) :
    Reach step ok s t := by
  obtain ⟨es, hes⟩ := h
  obtain ⟨fs, hfs⟩ := h'
  exact ⟨es ++ fs, hes.append hfs⟩

/-- One allowed step in front of a run. -/
theorem Reach.head {s u t : σ} {e : ε} (hok : ok s e) (hstep : step s e = some u)
    (h : Reach step ok u t) : Reach step ok s t := by
  obtain ⟨es, hes⟩ := h
  exact ⟨e :: es, .cons hok hstep hes⟩

theorem Reach.single {s t : σ} {e : ε} (hok : ok s e) (hstep : step s e = some t) :
    Reach step ok s t :=
  .head hok hstep (.refl t)

/-- A stronger guard allows fewer runs. -/
theorem Run.mono (hmono : ∀ s e, ok s e → ok' s e) {s t : σ} {es : List ε}
    (h : Run step ok s es t) : Run step ok' s es t := by
  induction h with
  | nil s => exact .nil s
  | cons hok hstep _ ih => exact .cons (hmono _ _ hok) hstep ih

/-! ## The invariant rule -/

/-- **The run lemma**: what every allowed step preserves, every allowed run preserves. -/
theorem Run.invariant {I : σ → Prop}
    (hstep : ∀ s e t, I s → ok s e → step s e = some t → I t)
    {s t : σ} {es : List ε} (h : Run step ok s es t) (hs : I s) : I t := by
  induction h with
  | nil => exact hs
  | cons hok hst _ ih => exact ih (hstep _ _ _ hs hok hst)

theorem Reach.invariant {I : σ → Prop}
    (hstep : ∀ s e t, I s → ok s e → step s e = some t → I t)
    {s t : σ} (h : Reach step ok s t) (hs : I s) : I t := by
  obtain ⟨es, hes⟩ := h
  exact hes.invariant hstep hs

/-- **Two machines with the same runs**: where the invariant holds, a step that is allowed in the one is a step
that is allowed in the other. -/
theorem Run.transfer {step' : σ → ε → Option σ} {I : σ → Prop}
    (hstep : ∀ s e t, I s → ok s e → step s e = some t → ok' s e ∧ step' s e = some t ∧ I t)
    {s t : σ} {es : List ε} (h : Run step ok s es t) (hs : I s) : Run step' ok' s es t := by
  induction h with
  | nil s => exact .nil s
  | cons hok hst _ ih =>
      obtain ⟨hok', hst', hu⟩ := hstep _ _ _ hs hok hst
      exact .cons hok' hst' (ih hu)

theorem Reach.transfer {step' : σ → ε → Option σ} {I : σ → Prop}
    (hstep : ∀ s e t, I s → ok s e → step s e = some t → ok' s e ∧ step' s e = some t ∧ I t)
    {s t : σ} (h : Reach step ok s t) (hs : I s) : Reach step' ok' s t := by
  obtain ⟨es, hes⟩ := h
  exact ⟨es, hes.transfer hstep hs⟩

/-- **A run ends**: when every allowed step makes `μ` smaller, no run is longer than `μ` is at its start. -/
theorem Run.length_add_le {I : σ → Prop} {μ : σ → ℕ}
    (hstep : ∀ s e t, I s → ok s e → step s e = some t → I t ∧ μ t < μ s)
    {s t : σ} {es : List ε} (h : Run step ok s es t) (hs : I s) : es.length + μ t ≤ μ s := by
  induction h with
  | nil s => exact Nat.le_of_eq (Nat.zero_add _)
  | cons hok hst _ ih =>
      obtain ⟨hu, hlt⟩ := hstep _ _ _ hs hok hst
      have hle := ih hu
      rw [List.length_cons]
      omega

/-- Every event of a run was allowed in some state. -/
theorem Run.exists_ok {s t : σ} {es : List ε} (h : Run step ok s es t) {e : ε} (he : e ∈ es) :
    ∃ u, ok u e := by
  induction h with
  | nil => cases he
  | cons hok _ _ ih =>
      rcases List.mem_cons.mp he with rfl | he
      · exact ⟨_, hok⟩
      · exact ih he

/-- The first step of a run: it was allowed, and the run goes on from where it leads. -/
theorem Run.of_cons {s u t : σ} {e : ε} {es : List ε} (hst : step s e = some u)
    (h : Run step ok s (e :: es) t) : ok s e ∧ Run step ok u es t := by
  rcases h with _ | ⟨hok, hst', hrun⟩
  rw [hst] at hst'
  cases hst'
  exact ⟨hok, hrun⟩

/-- The events decide where a run is, whatever allows them. -/
theorem Run.ok_of_append {s t u : σ} {es fs : List ε} {e : ε} (h : Run step ok s es u)
    (h' : Run step ok' s (es ++ e :: fs) t) : ok' u e := by
  induction h with
  | nil =>
      rcases h' with _ | ⟨hok, -, -⟩
      exact hok
  | cons _ hst _ ih => exact ih (h'.of_cons hst).2

/-- **The run lemma with a verdict.** As long as `ok'` allows the steps the state stays good; a step that it
does not allow makes the state bad, and bad it stays. -/
theorem Run.verdict {Good Bad : σ → Prop}
    (hgood : ∀ s e t, Good s → ok s e → step s e = some t → ok' s e ∧ Good t ∨ ¬ ok' s e ∧ Bad t)
    (hbad : ∀ s e t, Bad s → ok s e → step s e = some t → Bad t)
    {s t : σ} {es : List ε} (h : Run step ok s es t) (hs : Good s) :
    Run step ok' s es t ∧ Good t ∨ ¬ Run step ok' s es t ∧ Bad t := by
  induction h with
  | nil s => exact .inl ⟨.nil s, hs⟩
  | cons hok hst hrest ih =>
      rcases hgood _ _ _ hs hok hst with ⟨hok', hu⟩ | ⟨hno, hu⟩
      · rcases ih hu with ⟨hrun, ht⟩ | ⟨hno, ht⟩
        · exact .inl ⟨.cons hok' hst hrun, ht⟩
        · exact .inr ⟨fun hrun => hno (hrun.of_cons hst).2, ht⟩
      · exact .inr ⟨fun hrun => hno (hrun.of_cons hst).1, hrest.invariant hbad hu⟩

/-! ## What a run shows -/

section Observations

variable {ω : Type*} {observe : σ → ε → σ → List ω}

/-- What the steps of a run show, first step first; `observe` says what a step shows. -/
def observations (step : σ → ε → Option σ) (observe : σ → ε → σ → List ω) : σ → List ε → List ω
  | _, [] => []
  | s, e :: es => (step s e).elim [] fun t => observe s e t ++ observations step observe t es

theorem observations_cons {s u : σ} {e : ε} (hst : step s e = some u) (es : List ε) :
    observations step observe s (e :: es) = observe s e u ++ observations step observe u es := by
  rw [observations, hst]
  rfl

/-- Two machines that agree along a run show the same there. -/
theorem Run.observations_eq {step' : σ → ε → Option σ} (heq : ∀ s e, ok s e → step' s e = step s e) {s t : σ}
    {es : List ε} (h : Run step ok s es t) :
    observations step' observe s es = observations step observe s es := by
  induction h with
  | nil => rfl
  | cons hok hst _ ih => rw [observations_cons hst, observations_cons ((heq _ _ hok).trans hst), ih]

/-- What was shown before a run comes before what the run shows. -/
theorem Run.invariant_append_observations {I : List ω → σ → Prop}
    (hstep : ∀ os s e t, I os s → ok s e → step s e = some t → I (os ++ observe s e t) t)
    {s t : σ} {es : List ε} (h : Run step ok s es t) {os : List ω} (hs : I os s) :
    I (os ++ observations step observe s es) t := by
  induction h generalizing os with
  | nil s =>
      rw [observations, List.append_nil]
      exact hs
  | cons hok hst _ ih =>
      rw [observations_cons hst, ← List.append_assoc]
      exact ih (hstep _ _ _ _ hs hok hst)

/-- **The invariant rule with a history**: the invariant may speak of everything that was shown so far. -/
theorem Run.invariant_observations {I : List ω → σ → Prop}
    (hstep : ∀ os s e t, I os s → ok s e → step s e = some t → I (os ++ observe s e t) t)
    {s t : σ} {es : List ε} (h : Run step ok s es t) (hs : I [] s) : I (observations step observe s es) t :=
  h.invariant_append_observations hstep hs

/-- If each step shows its event, a run shows its events. -/
theorem Run.observations_events {s t : σ} {es : List ε} (h : Run step ok s es t) :
    observations step (fun _ e _ => [e]) s es = es := by
  induction h with
  | nil => rfl
  | cons _ hst _ ih =>
      rw [observations_cons hst, ih]
      rfl

/-- The invariant may speak of the events so far. -/
theorem Run.invariant_events {I : List ε → σ → Prop}
    (hstep : ∀ es s e t, I es s → ok s e → step s e = some t → I (es ++ [e]) t)
    {s t : σ} {es : List ε} (h : Run step ok s es t) (hs : I [] s) : I es t := by
  have ht : I (observations step (fun _ e _ => [e]) s es) t := h.invariant_observations hstep hs
  rwa [h.observations_events] at ht

/-- **The run lemma for what is shown**: if a step shows good things only exactly when `ok'` allows it, then a
run does so exactly when `ok'` allows each of its steps. The invariant has to survive the steps that `ok'`
allows only. -/
theorem Run.forall_observations_iff {I : σ → Prop} {P : ω → Prop}
    (hstep : ∀ s e t, I s → ok s e → step s e = some t →
      ((∀ o ∈ observe s e t, P o) ↔ ok' s e) ∧ (ok' s e → I t))
    {s t : σ} {es : List ε} (h : Run step ok s es t) (hs : I s) :
    (∀ o ∈ observations step observe s es, P o) ↔ Run step ok' s es t := by
  induction h with
  | nil s =>
      refine ⟨fun _ => .nil s, fun _ o ho => ?_⟩
      cases ho
  | @cons s u t e es hok hst _ ih =>
      obtain ⟨hiff, hu⟩ := hstep _ _ _ hs hok hst
      rw [observations_cons hst, List.forall_mem_append, hiff]
      constructor
      · rintro ⟨hok', hrest⟩
        exact .cons hok' hst ((ih (hu hok')).mp hrest)
      · intro hrun
        obtain ⟨hok', hrun⟩ := hrun.of_cons hst
        exact ⟨hok', (ih (hu hok')).mpr hrun⟩

/-- **What a run shows, event by event**: if, with what has happened so far, a step shows good things only
exactly when its event is good, then a run does so exactly when all its events are. -/
theorem Run.forall_observations_iff_events {I : List ε → σ → Prop} {P : ω → Prop} {Q : ε → Prop}
    (hstep : ∀ es s e t, I es s → ok s e → step s e = some t →
      ((∀ o ∈ observe s e t, P o) ↔ Q e) ∧ I (es ++ [e]) t)
    {s t : σ} {es past : List ε} (h : Run step ok s es t) (hs : I past s) :
    (∀ o ∈ observations step observe s es, P o) ↔ ∀ e ∈ es, Q e := by
  induction h generalizing past with
  | nil s => exact iff_of_true (fun o ho => by cases ho) fun e he => by cases he
  | cons hok hst _ ih =>
      obtain ⟨hiff, hu⟩ := hstep _ _ _ _ hs hok hst
      rw [observations_cons hst, List.forall_mem_append, List.forall_mem_cons, hiff, ih hu]

end Observations

/-! ## Growing a state -/

/-- What an allowed run can make larger by one, it can make as large as wanted. -/
theorem Reach.exists_of_grow {P : ℕ → σ → Prop} {s : σ} (hs : P 0 s) (n : ℕ)
    (hgrow : ∀ k t, k < n → Reach step ok s t → P k t → ∃ u, Reach step ok t u ∧ P (k + 1) u) :
    ∃ t, Reach step ok s t ∧ P n t := by
  induction n with
  | zero => exact ⟨s, .refl s, hs⟩
  | succ n ih =>
      obtain ⟨t, ht, hn⟩ := ih fun k t hk => hgrow k t (Nat.lt_succ_of_lt hk)
      obtain ⟨u, hu, hsucc⟩ := hgrow n t (Nat.lt_succ_self n) ht hn
      exact ⟨u, ht.trans hu, hsucc⟩

/-! ## Executing a list of events -/

section Exec

variable [∀ s e, Decidable (ok s e)]

/-- Run the events one by one; `none` as soon as one is not allowed or not asked for. -/
def execOk (step : σ → ε → Option σ) (ok : σ → ε → Prop) [∀ s e, Decidable (ok s e)] :
    σ → List ε → Option σ
  | s, [] => some s
  | s, e :: es => if ok s e then (step s e).bind fun t => execOk step ok t es else none

theorem run_of_execOk {s t : σ} {es : List ε} (h : execOk step ok s es = some t) :
    Run step ok s es t := by
  induction es generalizing s with
  | nil =>
      obtain rfl : s = t := by simpa [execOk] using h
      exact .nil s
  | cons e es ih =>
      simp only [execOk] at h
      split at h
      next hok =>
        obtain ⟨u, hu, ht⟩ := Option.bind_eq_some_iff.mp h
        exact .cons hok hu (ih ht)
      next => cases h

/-- What can be executed is a run. -/
theorem exists_run_of_exec {s : σ} {es : List ε} (h : (execOk step ok s es).isSome = true) :
    ∃ t, Run step ok s es t := by
  obtain ⟨t, ht⟩ := Option.isSome_iff_exists.mp h
  exact ⟨t, run_of_execOk ht⟩

/-- An executed run whose final state satisfies a test is a run to such a state. -/
theorem exists_run_of_exec_any {s : σ} {es : List ε} {p : σ → Bool}
    (h : (execOk step ok s es).any p = true) : ∃ t, Run step ok s es t ∧ p t = true := by
  cases ht : execOk step ok s es with
  | none => simp [ht] at h
  | some t => exact ⟨t, run_of_execOk ht, by simpa [ht] using h⟩

theorem exists_reach_of_exec {s : σ} {es : List ε} {p : σ → Bool}
    (h : (execOk step ok s es).any p = true) : ∃ t, Reach step ok s t ∧ p t = true := by
  obtain ⟨t, hrun, hp⟩ := exists_run_of_exec_any h
  exact ⟨t, ⟨es, hrun⟩, hp⟩

end Exec

/-! ## Rounds of a trace -/

section Rounds

variable {κ ρ : Type*} (mark : κ → Option ρ)

/-- The calls made since the round began, newest first. -/
def currentRound (trace : List κ) : List κ := trace.takeWhile fun c => (mark c).isNone

/-- What the call that began the round answered. -/
def lastMark (trace : List κ) : Option ρ := trace.findSome? mark

variable {mark}

theorem currentRound_append {calls : List κ} (hcalls : ∀ c ∈ calls, mark c = none) (trace : List κ) :
    currentRound mark (calls ++ trace) = calls ++ currentRound mark trace :=
  List.takeWhile_append_of_pos fun c hc => by simp [hcalls c hc]

theorem currentRound_cons_some {c : κ} {r : ρ} (hc : mark c = some r) (trace : List κ) :
    currentRound mark (c :: trace) = [] := by
  simp [currentRound, hc]

theorem lastMark_append {calls : List κ} (hcalls : ∀ c ∈ calls, mark c = none) (trace : List κ) :
    lastMark mark (calls ++ trace) = lastMark mark trace := by
  have hnone : calls.findSome? mark = none := List.findSome?_eq_none_iff.mpr hcalls
  simp [lastMark, List.findSome?_append, hnone]

theorem lastMark_cons_some {c : κ} {r : ρ} (hc : mark c = some r) (trace : List κ) :
    lastMark mark (c :: trace) = some r := by
  simp [lastMark, hc]

end Rounds

/-! ## What every call of a trace met -/

section EachCall

variable {κ : Type*} {P : κ → List κ → Prop}

/-- **`EachCall P trace`** — every call of the trace met `P` when it was made, with the calls before it. -/
def EachCall (P : κ → List κ → Prop) : List κ → Prop
  | [] => True
  | c :: trace => P c trace ∧ EachCall P trace

@[simp] theorem eachCall_nil : EachCall P [] := trivial

@[simp] theorem eachCall_cons {c : κ} {trace : List κ} :
    EachCall P (c :: trace) ↔ P c trace ∧ EachCall P trace := .rfl

instance EachCall.decidable [∀ c trace, Decidable (P c trace)] : (trace : List κ) → Decidable (EachCall P trace)
  | [] => instDecidableTrue
  | _ :: trace => @instDecidableAnd _ _ _ (EachCall.decidable trace)

/-- What every call met, every call up to some point met. -/
theorem EachCall.suffix {trace earlier : List κ} (h : EachCall P trace) (hsuffix : earlier <:+ trace) :
    EachCall P earlier := by
  obtain ⟨later, rfl⟩ := hsuffix
  induction later with
  | nil => exact h
  | cons c later ih => exact ih h.2

/-- What every call met, a call met with some calls before it. -/
theorem EachCall.exists_of_mem {c : κ} {trace : List κ} (h : EachCall P trace) (hc : c ∈ trace) :
    ∃ earlier, P c earlier := by
  obtain ⟨later, earlier, rfl⟩ := List.append_of_mem hc
  exact ⟨earlier, (h.suffix (List.suffix_append later (c :: earlier))).1⟩

/-- What is weaker, every call met as well. -/
theorem EachCall.mono {P' : κ → List κ → Prop} {trace : List κ} (h : EachCall P trace)
    (hP : ∀ c earlier, P c earlier → P' c earlier) : EachCall P' trace := by
  induction trace with
  | nil => trivial
  | cons c trace ih => exact ⟨hP c trace h.1, ih h.2⟩

end EachCall

end LinuxNet.Lib
