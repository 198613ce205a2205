/-
# LinuxNet.Lib.Clients — a server together with all its clients

A server that works on its connections one at a time: in one step it accepts a connection, or does one
iteration for one of them, and keeps or gives up connections; or it quits, which ends all of them (`Turn`,
`Obeys`). What an iteration is, is a parameter `τ`; so are the clients and what there is between one of them
and the server (`Session`).

The system is the server with any number of clients. Which connection belongs to which client is decided when
the client is accepted (`owner`), and a descriptor that was given up may belong to another client later.

A client need not know that there are others (`alone_of_reach`): in every state the system can reach, the
session of a client is one that it reaches with the server for itself. What is shown of one session holds with
any number of clients.
-/
import LinuxNet.Lib.Machine
import Mathlib.Data.Finset.Basic
import Mathlib.Logic.Function.Basic

namespace LinuxNet.Lib.Clients

variable {σ ε δ τ γ κ ι : Type}

/-! ## Servers -/

/-- What a server does with its connections in one step. -/
inductive Turn (δ τ : Type) where
  | accepts (d : δ)
  | iterates (d : δ) (i : τ)
  /-- it gives up all of them -/
  | quits
  deriving DecidableEq

/-- **`Obeys may ends before turn after`** — a server with the connections `before` may take this turn, and
have the connections `after` then: a connection that is accepted is a new one, an iteration is for a
connection the server has and is one that it may do, and `ends` says of an iteration whether the connection is
given up then. A server that quits has none left. -/
inductive Obeys [DecidableEq δ] (may : τ → Prop) (ends : τ → Bool) (before : Finset δ) :
    Option (Turn δ τ) → Finset δ → Prop
  | quiet {after : Finset δ} (hafter : after ⊆ before) : Obeys may ends before none after
  | accepts {d : δ} {after : Finset δ} (hnew : d ∉ before) (hafter : after ⊆ insert d before) :
      Obeys may ends before (some (.accepts d)) after
  | iterates {d : δ} {i : τ} {after : Finset δ} (hin : d ∈ before) (hmay : may i)
      (hafter : after ⊆ if ends i then before.erase d else before) :
      Obeys may ends before (some (.iterates d i)) after
  | quits : Obeys may ends before (some .quits) ∅

/-- **`Server σ ε δ τ may ends`** — a server, with what it assumes of its environment, and the proof that its
turns obey the rules in every state it can be in. -/
structure Server (σ ε δ τ : Type) [DecidableEq δ] (may : τ → Prop) (ends : τ → Bool) where
  step : σ → ε → Option σ
  /-- what is assumed of the answers of the environment -/
  ok : σ → ε → Prop
  start : σ
  /-- what a step does with the connections -/
  turn : σ → ε → Option (Turn δ τ)
  /-- the connections it has -/
  held : σ → Finset δ
  Inv : σ → Prop
  inv_start : Inv start
  held_start : held start = ∅
  inv_step : ∀ {s e t}, Inv s → ok s e → step s e = some t → Inv t
  obeys : ∀ {s e t}, Inv s → ok s e → step s e = some t → Obeys may ends (held s) (turn s e) (held t)

/-! ## One session -/

/-- **`Session γ κ τ`** — a client with what there is between it and the server: what the client does, what an
iteration of the server does to it, if it is possible, and what the end of the server does to it. -/
structure Session (γ κ τ : Type) where
  start : γ
  client : γ → κ → Option γ
  iterate : γ → τ → Option γ
  quit : γ → γ

/-- What happens in a session. -/
inductive Move (κ τ : Type) where
  | client (e : κ)
  | iterate (i : τ)
  | quit

/-- One step of a session for itself. The flag says whether the server has not given it up. -/
def Session.step (S : Session γ κ τ) (ends : τ → Bool) (s : γ × Bool) : Move κ τ → Option (γ × Bool)
  | .client e => (S.client s.1 e).map fun c => (c, s.2)
  | .iterate i => if s.2 then (S.iterate s.1 i).map fun c => (c, !ends i) else none
  | .quit => if s.2 then some (S.quit s.1, false) else none

/-- Everything that happens in a session meets `P`, and an iteration is one the server may do. -/
def Session.Guard (may : τ → Prop) (P : γ → Move κ τ → Prop) (s : γ × Bool) (m : Move κ τ) : Prop :=
  P s.1 m ∧ ∀ i, m = .iterate i → may i

/-- **`Alone may ends S P s`** — this is a state of a session for itself. -/
def Alone (may : τ → Prop) (ends : τ → Bool) (S : Session γ κ τ) (P : γ → Move κ τ → Prop)
    (s : γ × Bool) : Prop :=
  Reach (S.step ends) (Session.Guard may P) (S.start, true) s

/-! ## The system -/

/-- The server, the client each connection belongs to, the clients that were accepted, and the sessions. -/
structure State (σ δ ι γ : Type) where
  server : σ
  owner : δ → Option ι
  accepted : List ι
  session : ι → γ

/-- What happens next. -/
inductive Event (ε κ ι : Type) where
  /-- a client takes a step -/
  | client (i : ι) (e : κ)
  /-- the server takes a step; if it accepts a client, then this one -/
  | server (e : ε) (i : ι)

section System

variable [DecidableEq δ] [DecidableEq ι] {may : τ → Prop} {ends : τ → Bool} (L : Server σ ε δ τ may ends)
  (S : Session γ κ τ)

/-- Nobody has connected yet. -/
def init : State σ δ ι γ where
  server := L.start
  owner _ := none
  accepted := []
  session _ := S.start

/-- The client has a connection that the server has not given up. -/
def HasConnection (s : State σ δ ι γ) (i : ι) : Prop := ∃ d ∈ L.held s.server, s.owner d = some i

instance (s : State σ δ ι γ) (i : ι) : Decidable (HasConnection L s i) :=
  inferInstanceAs (Decidable (∃ d ∈ L.held s.server, s.owner d = some i))

/-- What the turn of the server does to the clients. -/
def turnDone (s : State σ δ ι γ) (server : σ) (i : ι) : Option (Turn δ τ) → Option (State σ δ ι γ)
  | none => some { s with server := server }
  | some (.accepts d) =>
    if i ∈ s.accepted then none
    else
      some { s with
        server := server
        owner := Function.update s.owner d (some i)
        accepted := i :: s.accepted }
  | some (.iterates d iteration) =>
    -- a connection that nobody has: `owner_of_reach` says that there is no iteration for it
    (s.owner d).bind fun j => (S.iterate (s.session j) iteration).map fun c =>
      { s with server := server, session := Function.update s.session j c }
  | some .quits =>
    some { s with
      server := server
      session := fun j => if HasConnection L s j then S.quit (s.session j) else s.session j }

/-- **One step of the system.** -/
def step (s : State σ δ ι γ) : Event ε κ ι → Option (State σ δ ι γ)
  | .client i e =>
    (S.client (s.session i) e).map fun c => { s with session := Function.update s.session i c }
  | .server e i => (L.step s.server e).bind fun server => turnDone L S s server i (L.turn s.server e)

/-- What `G` says about a turn: an iteration happens in the session of the client with that connection, and the
end of the server in those of all that have one. -/
def TurnGuard (G : ι → γ → Move κ τ → Prop) (s : State σ δ ι γ) : Option (Turn δ τ) → Prop
  | some (.iterates d iteration) => ∀ i ∈ s.owner d, G i (s.session i) (.iterate iteration)
  | some .quits => ∀ d ∈ L.held s.server, ∀ i ∈ s.owner d, G i (s.session i) .quit
  | some (.accepts _) | none => True

/-- **`Guard L G`** — the environment answers what the server assumes of it, and everything that happens in the
session of client `i` meets `G i` there. -/
def Guard (G : ι → γ → Move κ τ → Prop) (s : State σ δ ι γ) : Event ε κ ι → Prop
  | .client i e => G i (s.session i) (.client e)
  | .server e _ => L.ok s.server e ∧ TurnGuard L G s (L.turn s.server e)

variable {G : ι → γ → Move κ τ → Prop}

instance [∀ i c m, Decidable (G i c m)] (s : State σ δ ι γ) :
    (turn : Option (Turn δ τ)) → Decidable (TurnGuard L G s turn)
  | some (.iterates d iteration) =>
    inferInstanceAs (Decidable (∀ i ∈ s.owner d, G i (s.session i) (.iterate iteration)))
  | some .quits =>
    inferInstanceAs (Decidable (∀ d ∈ L.held s.server, ∀ i ∈ s.owner d, G i (s.session i) .quit))
  | some (.accepts _) | none => isTrue trivial

instance [∀ s e, Decidable (L.ok s e)] [∀ i c m, Decidable (G i c m)] (s : State σ δ ι γ) :
    (e : Event ε κ ι) → Decidable (Guard L G s e)
  | .client i e => inferInstanceAs (Decidable (G i (s.session i) (.client e)))
  | .server e _ => inferInstanceAs (Decidable (L.ok s.server e ∧ TurnGuard L G s (L.turn s.server e)))

/-! ## The invariant -/

/-- **The invariant.** Each client of the server has one connection, and the server has not given it up. -/
structure Inv (G : ι → γ → Move κ τ → Prop) (s : State σ δ ι γ) : Prop where
  loop : L.Inv s.server
  accepted : ∀ d i, s.owner d = some i → i ∈ s.accepted
  backlog : ∀ i, i ∉ s.accepted → Alone may ends S (G i) (s.session i, true)
  owned : ∀ d ∈ L.held s.server, ∃ i, s.owner d = some i ∧ Alone may ends S (G i) (s.session i, true)
  distinct : ∀ d ∈ L.held s.server, ∀ d' ∈ L.held s.server, s.owner d = s.owner d' → d = d'
  alone : ∀ i, ∃ given, Alone may ends S (G i) (s.session i, given)

variable {L S} {s t : State σ δ ι γ}

omit [DecidableEq ι] in
theorem inv_init (L : Server σ ε δ τ may ends) (S : Session γ κ τ) (G : ι → γ → Move κ τ → Prop) :
    Inv L S G (init L S) := by
  have hnone : ∀ d, d ∉ L.held (init (ι := ι) L S).server := by
    intro d hd
    rw [show (init (ι := ι) L S).server = L.start from rfl, L.held_start] at hd
    exact absurd hd (Finset.notMem_empty d)
  have halone (i : ι) : Alone may ends S (G i) ((init L S).session i, true) := .refl _
  exact {
    loop := L.inv_start
    accepted := fun _ _ h => by cases h
    backlog := fun i _ => halone i
    owned := fun d hd => absurd hd (hnone d)
    distinct := fun d hd => absurd hd (hnone d)
    alone := fun i => ⟨true, halone i⟩ }

/-! ## The steps of the clients -/

theorem Alone.client {P : γ → Move κ τ → Prop} {c c' : γ} {given : Bool} {e : κ}
    (hc : Alone may ends S P (c, given))
    (hP : P c (.client e)) (h : S.client c e = some c') : Alone may ends S P (c', given) := by
  refine hc.trans (.single (e := .client e) ⟨hP, fun _ hno => by cases hno⟩ ?_)
  simp only [Session.step, h, Option.map_some]

theorem Inv.client (hs : Inv L S G s) {i : ι} {e : κ} {c : γ} (hG : G i (s.session i) (.client e))
    (h : S.client (s.session i) e = some c) :
    Inv L S G { s with session := Function.update s.session i c } := by
  have halone (j : ι) {given : Bool} (hj : Alone may ends S (G j) (s.session j, given)) :
      Alone may ends S (G j) (Function.update s.session i c j, given) := by
    by_cases hij : j = i
    · subst hij
      rw [Function.update_self]
      exact hj.client hG h
    · rw [Function.update_of_ne hij]
      exact hj
  refine ⟨hs.loop, hs.accepted, fun j hj => halone j (hs.backlog j hj), fun d hd => ?_, hs.distinct,
    fun j => ?_⟩
  · obtain ⟨j, howner, hj⟩ := hs.owned d hd
    exact ⟨j, howner, halone j hj⟩
  · obtain ⟨given, hj⟩ := hs.alone j
    exact ⟨given, halone j hj⟩

/-! ## The turns of the server -/

/-- **`Done L S s server i turn t`** — everything a turn can do to the clients. -/
inductive Done (L : Server σ ε δ τ may ends) (S : Session γ κ τ) (s : State σ δ ι γ) (server : σ) (i : ι) :
    Option (Turn δ τ) → State σ δ ι γ → Prop
  | quiet : Done L S s server i none { s with server := server }
  | accepts {d : δ} (hnew : i ∉ s.accepted) :
      Done L S s server i (some (.accepts d))
        { s with
          server := server
          owner := Function.update s.owner d (some i)
          accepted := i :: s.accepted }
  | iterates {d : δ} {iteration : τ} {j : ι} {c : γ} (howner : s.owner d = some j)
      (hc : S.iterate (s.session j) iteration = some c) :
      Done L S s server i (some (.iterates d iteration))
        { s with server := server, session := Function.update s.session j c }
  | quits :
      Done L S s server i (some .quits)
        { s with
          server := server
          session := fun j => if HasConnection L s j then S.quit (s.session j) else s.session j }

/-- **The inversion lemma**: a turn is one of these. -/
theorem Done.of_turnDone {server : σ} {i : ι} {turn : Option (Turn δ τ)}
    (h : turnDone L S s server i turn = some t) : Done L S s server i turn t := by
  rcases turn with _ | d | ⟨d, iteration⟩ | _
  · cases h
    exact .quiet
  · simp only [turnDone] at h
    split at h
    next => cases h
    next hnew =>
      cases h
      exact .accepts hnew
  · obtain ⟨j, howner, h⟩ := Option.bind_eq_some_iff.mp h
    obtain ⟨c, hc, rfl⟩ := Option.map_eq_some_iff.mp h
    exact .iterates howner hc
  · cases h
    exact .quits

theorem Done.server_eq {server : σ} {i : ι} {turn : Option (Turn δ τ)} (h : Done L S s server i turn t) :
    t.server = server := by
  cases h with
  | quiet | accepts | iterates | quits => rfl

omit [DecidableEq ι] in
/-- The server has fewer connections, and nothing else has changed. -/
theorem Inv.quiet (hs : Inv L S G s) {server : σ} (hloop : L.Inv server)
    (hafter : L.held server ⊆ L.held s.server) : Inv L S G { s with server := server } :=
  ⟨hloop, hs.accepted, hs.backlog, fun d hd => hs.owned d (hafter hd),
    fun d hd d' hd' => hs.distinct d (hafter hd) d' (hafter hd'), hs.alone⟩

omit [DecidableEq ι] in
/-- A client is accepted: the connection is new, and so is the client. -/
theorem Inv.accepts (hs : Inv L S G s) {server : σ} {d : δ} {i : ι} (hloop : L.Inv server)
    (hi : i ∉ s.accepted) (hafter : L.held server ⊆ insert d (L.held s.server)) :
    Inv L S G
      { s with
        server := server
        owner := Function.update s.owner d (some i)
        accepted := i :: s.accepted } := by
  have howner {d' : δ} (hd' : d' ≠ d) : Function.update s.owner d (some i) d' = s.owner d' :=
    Function.update_of_ne hd' _ _
  have hfresh {d' : δ} : s.owner d' ≠ some i := fun h => hi (hs.accepted d' i h)
  have hbefore {d' : δ} (hd' : d' ∈ L.held server) (hne : d' ≠ d) : d' ∈ L.held s.server :=
    (Finset.mem_insert.mp (hafter hd')).resolve_left hne
  refine ⟨hloop, fun d₁ j h => ?_, fun j hj => hs.backlog j fun h => hj (List.mem_cons_of_mem _ h),
    fun d₁ hd₁ => ?_, fun d₁ hd₁ d₂ hd₂ h => ?_, hs.alone⟩
  · change Function.update s.owner d (some i) d₁ = some j at h
    by_cases hne : d₁ = d
    · subst hne
      rw [Function.update_self] at h
      cases h
      exact List.mem_cons_self
    · rw [howner hne] at h
      exact List.mem_cons_of_mem _ (hs.accepted d₁ j h)
  · show ∃ j, Function.update s.owner d (some i) d₁ = some j ∧ _
    by_cases hne : d₁ = d
    · subst hne
      exact ⟨i, Function.update_self .., hs.backlog i hi⟩
    · rw [howner hne]
      exact hs.owned d₁ (hbefore hd₁ hne)
  · simp only at h
    by_cases hne₁ : d₁ = d
    · by_cases hne₂ : d₂ = d
      · rw [hne₁, hne₂]
      · subst hne₁
        rw [Function.update_self, howner hne₂] at h
        exact absurd h.symm hfresh
    · by_cases hne₂ : d₂ = d
      · subst hne₂
        rw [Function.update_self, howner hne₁] at h
        exact absurd h hfresh
      · rw [howner hne₁, howner hne₂] at h
        exact hs.distinct d₁ (hbefore hd₁ hne₁) d₂ (hbefore hd₂ hne₂) h

/-- An iteration for one client: the others do not notice. -/
theorem Inv.iterates (hs : Inv L S G s) {server : σ} {d : δ} {i : ι} {c : γ} {given : Bool}
    (hloop : L.Inv server) (hin : d ∈ L.held s.server) (howner : s.owner d = some i)
    (hafter : L.held server ⊆ L.held s.server) (halone : Alone may ends S (G i) (c, given))
    (hgiven : d ∈ L.held server → given = true) :
    Inv L S G { s with server := server, session := Function.update s.session i c } := by
  have hother {j : ι} (hj : j ≠ i) : Function.update s.session i c j = s.session j :=
    Function.update_of_ne hj _ _
  refine ⟨hloop, hs.accepted, fun j hj => ?_, fun d' hd' => ?_,
    fun d₁ hd₁ d₂ hd₂ => hs.distinct d₁ (hafter hd₁) d₂ (hafter hd₂), fun j => ?_⟩
  · have hne : j ≠ i := by
      rintro rfl
      exact hj (hs.accepted _ _ howner)
    show Alone may ends S (G j) (Function.update s.session i c j, true)
    rw [hother hne]
    exact hs.backlog j hj
  · obtain ⟨j, hj, hjalone⟩ := hs.owned d' (hafter hd')
    refine ⟨j, hj, ?_⟩
    show Alone may ends S (G j) (Function.update s.session i c j, true)
    by_cases hne : j = i
    · subst hne
      -- the client has one connection
      obtain rfl := hs.distinct d' (hafter hd') _ hin (hj.trans howner.symm)
      rw [Function.update_self, ← hgiven hd']
      exact halone
    · rw [hother hne]
      exact hjalone
  · show ∃ given, Alone may ends S (G j) (Function.update s.session i c j, given)
    by_cases hne : j = i
    · subst hne
      rw [Function.update_self]
      exact ⟨given, halone⟩
    · rw [hother hne]
      exact hs.alone j

/-- The server quits: it has no connection left. -/
theorem Inv.quits (hs : Inv L S G s) {server : σ} (hloop : L.Inv server) (hnone : L.held server = ∅)
    (hG : ∀ d ∈ L.held s.server, ∀ i ∈ s.owner d, G i (s.session i) .quit) :
    Inv L S G
      { s with
        server := server
        session := fun j => if HasConnection L s j then S.quit (s.session j) else s.session j } := by
  have hempty (d : δ) : d ∉ L.held server := by
    rw [hnone]
    exact Finset.notMem_empty d
  refine ⟨hloop, hs.accepted, fun j hj => ?_, fun d hd => absurd hd (hempty d),
    fun d hd => absurd hd (hempty d), fun j => ?_⟩
  · have hnot : ¬ HasConnection L s j := fun ⟨d, _, howner⟩ => hj (hs.accepted d j howner)
    show Alone may ends S (G j) (if HasConnection L s j then S.quit (s.session j) else s.session j, true)
    rw [if_neg hnot]
    exact hs.backlog j hj
  · show ∃ given,
      Alone may ends S (G j) (if HasConnection L s j then S.quit (s.session j) else s.session j, given)
    split
    next hhas =>
      obtain ⟨d, hd, howner⟩ := hhas
      obtain ⟨j', howner', halone⟩ := hs.owned d hd
      obtain rfl := Option.some.inj (howner'.symm.trans howner)
      refine ⟨false, halone.trans (.single (e := .quit) ⟨hG d hd j' howner, fun _ hno => by cases hno⟩ rfl)⟩
    next => exact hs.alone j

/-- **The step lemma.** -/
theorem Inv.of_step {e : Event ε κ ι} (hs : Inv L S G s) (hok : Guard L G s e) (h : step L S s e = some t) :
    Inv L S G t := by
  rcases e with ⟨i, e⟩ | ⟨e, i⟩
  · obtain ⟨c, hc, rfl⟩ := Option.map_eq_some_iff.mp h
    exact hs.client hok hc
  · obtain ⟨server, hstep, hdone⟩ := Option.bind_eq_some_iff.mp h
    obtain ⟨hanswers, hG⟩ := hok
    have hloop := L.inv_step hs.loop hanswers hstep
    have hobeys := L.obeys hs.loop hanswers hstep
    generalize L.turn s.server e = turn at hobeys hdone hG
    generalize hheld : L.held server = after at hobeys
    cases Done.of_turnDone hdone with
    | quiet =>
        cases hobeys with
        | quiet hafter =>
            subst hheld
            exact hs.quiet hloop hafter
    | accepts hnew =>
        cases hobeys with
        | accepts hfresh hafter =>
            subst hheld
            exact hs.accepts hloop hnew hafter
    | @iterates d iteration j c howner hc =>
        cases hobeys with
        | iterates hin hmay hafter =>
            subst hheld
            obtain ⟨j', howner', halone⟩ := hs.owned d hin
            obtain rfl := Option.some.inj (howner.symm.trans howner')
            have hnext : Alone may ends S (G j) (c, !ends iteration) := by
              refine halone.trans (.single (e := .iterate iteration) ⟨hG j howner, ?_⟩ ?_)
              · intro i' heq
                cases heq
                exact hmay
              · simp only [Session.step, hc, if_true, Option.map_some]
            refine hs.iterates hloop hin howner ?_ hnext fun h => ?_
            · refine hafter.trans ?_
              split
              · exact Finset.erase_subset _ _
              · exact Finset.Subset.refl _
            · -- a connection the server still has was not given up
              rcases hends : ends iteration with _ | _
              · rfl
              · rw [hends, if_pos rfl] at hafter
                exact absurd (hafter h) (Finset.notMem_erase _ _)
    | quits =>
        cases hobeys with
        | quits => exact hs.quits hloop hheld hG

theorem Inv.of_reach (h : Reach (step L S) (Guard L G) (init L S) s) : Inv L S G s :=
  h.invariant (I := Inv L S G) (fun _ _ _ hs hok hstep => hs.of_step hok hstep) (inv_init L S G)

/-! ## What holds with any number of clients -/

/-- **A server works for clients only**: an iteration is for a connection that belongs to a client. -/
theorem owner_of_reach (h : Reach (step L S) (Guard L G) (init L S) s) {e : ε} {server : σ}
    (hok : L.ok s.server e) (hstep : L.step s.server e = some server) {d : δ} {iteration : τ}
    (hturn : L.turn s.server e = some (.iterates d iteration)) : ∃ i, s.owner d = some i := by
  have hs := Inv.of_reach h
  have hobeys := L.obeys hs.loop hok hstep
  rw [hturn] at hobeys
  cases hobeys with
  | iterates hin =>
      obtain ⟨i, howner, -⟩ := hs.owned _ hin
      exact ⟨i, howner⟩

/-- **A client need not know that there are others**: in every state the system can reach, the session of a
client is one it reaches for itself. -/
theorem alone_of_reach (h : Reach (step L S) (Guard L G) (init L S) s) (i : ι) :
    ∃ given, Alone may ends S (G i) (s.session i, given) :=
  (Inv.of_reach h).alone i

/-- What one client meets, and nothing about the others. -/
def Only (i : ι) (P : γ → Move κ τ → Prop) (j : ι) (c : γ) (m : Move κ τ) : Prop := j = i → P c m

instance (i : ι) (P : γ → Move κ τ → Prop) [∀ c m, Decidable (P c m)] (j : ι) (c : γ) (m : Move κ τ) :
    Decidable (Only i P j c m) :=
  inferInstanceAs (Decidable (j = i → P c m))

/-- **The invariant rule for one client**: what its own steps and the iterations for it preserve holds with any
number of clients, whatever the others meet. -/
theorem session_invariant {i : ι} {P : γ → Move κ τ → Prop} {J : γ × Bool → Prop}
    (hJ : ∀ c m c', J c → Session.Guard may P c m → S.step ends c m = some c' → J c')
    (hstart : J (S.start, true))
    (h : Reach (step L S) (Guard L (Only i P)) (init L S) s) : ∃ given, J (s.session i, given) := by
  obtain ⟨given, halone⟩ := alone_of_reach h i
  refine ⟨given, halone.invariant (fun c m c' hc hok hstep => hJ c m c' hc ?_ hstep) hstart⟩
  exact ⟨hok.1 rfl, hok.2⟩

end System

end LinuxNet.Lib.Clients
