/-
# LinuxNet.Http.Server.Dispatch — whom does the HTTP server serve in a round?

`handle_client` blocks in `recv`, so it is meant for the clients `poll` has reported. The scan does the
opposite: its `else` belongs to `if (fds[i].revents & POLLIN)`, so the slots that were reported and are
not the listener are passed over, and the slots that were not reported are served. `handled_unreported`
says so of every reachable state: what the round has handled, its `poll` had not reported.

A round can therefore be exact only when nobody is to be served and nobody is served. `dispatch_exact_iff`
says when: the table is empty, or it holds the listener alone, which is reported, and the client it
brings is either none or lands in a slot with a left-over `POLLIN`.
-/
import LinuxNet.Http.Server.Table

namespace LinuxNet.Http.Server

open LinuxNet.Lib LinuxNet.Lib.FdLedger LinuxNet.Posix LinuxNet.Cpp

/-- **The round served exactly the clients its `poll` reported.** -/
def DispatchExact (s : State) : Prop :=
  (∀ d ∈ s.handled, d ∈ s.reported ∧ d ≠ s.sock_server) ∧
    ∀ d ∈ s.reported, d ≠ s.sock_server → d ∈ s.handled

instance (s : State) : Decidable (DispatchExact s) :=
  inferInstanceAs (Decidable (_ ∧ _))

def Event.isPoll : Event → Bool
  | .poll _ _ => true
  | .accept _ | .handled _ | .tau => false

/-- The events of one round after its `poll`. -/
def InRound (base : Finset Int) (s : State) (e : Event) : Prop :=
  FreshAccept base s e ∧ e.isPoll = false

instance (base : Finset Int) (s : State) (e : Event) : Decidable (InRound base s e) :=
  inferInstanceAs (Decidable (_ ∧ _))

/-- **The condition on a round**: the table is empty; or the listener is alone in it and reported, and
`accept` fails or slot 1 has a left-over `POLLIN`. `es` is what happens after the `poll`. -/
def NobodyToServe (s : State) (revents : ℕ → BitVec 16) (es : List Event) : Prop :=
  s.slots = [] ∨
    s.slots = [s.sock_server] ∧ hasPollIn (revents 0) = true ∧
      ((∃ sock_client < 0, es.head? = some (.accept sock_client)) ∨
        ∀ p ∈ s.fds.get? 1, p.readable = true)

/-! ## What a step adds to a round -/

/-- **After the `poll` of a round, a step at a readable slot handles nobody, and a step at an unreadable
slot handles its descriptor.** -/
theorem Step.handled_eq {s t : State} {e : Event} (h : Step s e t) (he : e.isPoll = false) :
    t.reported = s.reported ∧
      (t.handled = s.handled ∧
          (∀ i p, s.phase = .scan i → i < s.nfds → s.fds.get? i = some p → p.readable = true) ∨
        ∃ i p, s.phase = .scan i ∧ i < s.nfds ∧ s.fds.get? i = some p ∧ p.readable = false ∧
          t.handled = p.fd :: s.handled) := by
  have hone {t : State} {c : Call} (hc : c.ready? = none) (ht : t.trace = c :: s.trace) :
      t.reported = s.reported ∧ t.handled = [c].filterMap Call.handled? ++ s.handled := by
    have hcalls : ∀ c' ∈ [c], c'.ready? = none := by simpa using hc
    exact ⟨reported_append hcalls ht, handled_append hcalls ht⟩
  have hread {i : ℕ} {p : PollFd} (hphase : s.phase = .scan i) (hp : s.fds.get? i = some p)
      (hr : p.readable = true) : ∀ i p, s.phase = .scan i → i < s.nfds → s.fds.get? i = some p →
        p.readable = true := by
    intro j q hphase' _ hq
    obtain rfl := scan_inj hphase hphase'
    obtain rfl := Option.some.inj (hp.symm.trans hq)
    exact hr
  cases h with
  | pollFails _ _ | polls _ _ => cases he
  | acceptFails hphase _ hp hr _ _ | full hphase _ hp hr _ _ _ =>
      obtain ⟨hrep, hhan⟩ := hone (t := { s with phase := _, trace := .accept _ :: s.trace }) rfl rfl
      exact ⟨hrep, .inl ⟨hhan, hread hphase hp hr⟩⟩
  | ignores hphase _ hp hr _ => exact ⟨rfl, .inl ⟨rfl, hread hphase hp hr⟩⟩
  | endRound hphase hend =>
      refine ⟨rfl, .inl ⟨rfl, ?_⟩⟩
      intro j q hphase' hlt
      obtain rfl := scan_inj hphase hphase'
      omega
  | @stores i _ sock_client hphase _ hp hr _ _ _ =>
      have hcalls : ∀ c ∈ [Call.stored sock_client, .accept sock_client], c.ready? = none := by
        simp [Call.ready?]
      exact ⟨reported_append hcalls rfl, .inl ⟨handled_append hcalls rfl, hread hphase hp hr⟩⟩
  | @throws i p _ hphase hlt hp hr | @waits i p hphase hlt hp hr =>
      obtain ⟨hrep, hhan⟩ :=
        hone (t := { s with phase := _, trace := .handleClient p.fd :: s.trace }) rfl rfl
      exact ⟨hrep, .inr ⟨i, p, hphase, hlt, hp, hr, hhan⟩⟩
  | @drops i p q _ hphase hlt hp hr _ _ =>
      have hcalls : ∀ c ∈ [Call.close p.fd, .handleClient p.fd], c.ready? = none := by
        simp [Call.ready?]
      exact ⟨reported_append hcalls rfl, .inr ⟨i, p, hphase, hlt, hp, hr, handled_append hcalls rfl⟩⟩

/-! ## Whoever is handled was not reported -/

/-- The slots still ahead of the scan: a reported descriptor there is in a readable slot, and before
slot 0 has been looked at every reported descriptor is still in the table. -/
structure UnreportedInv (s : State) : Prop where
  ahead : ∀ i j p, s.phase = .scan i → i ≤ j → j < s.nfds → s.fds.get? j = some p →
    p.fd ∈ s.reported → p.readable = true
  known : s.phase = .scan 0 → ∀ d ∈ s.reported, d ∈ s.slots
  handled : ∀ d ∈ s.handled, d ∉ s.reported

namespace UnreportedInv

variable {base : Finset Int} {s t : State}

/-- A step within a round handles only what was not reported. -/
theorem handled_of_step {e : Event} (hs : UnreportedInv s) (h : Step s e t)
    (he : e.isPoll = false) : ∀ d ∈ t.handled, d ∉ t.reported := by
  obtain ⟨hrep, ⟨hhan, -⟩ | ⟨i, p, hphase, hlt, hp, hr, hhan⟩⟩ := h.handled_eq he
  · rw [hrep, hhan]
    exact hs.handled
  · intro d hd
    rw [hhan, List.mem_cons] at hd
    rw [hrep]
    rcases hd with rfl | hd
    · intro hmem
      -- slot `i` would be readable
      rw [hs.ahead i i p hphase le_rfl hlt hp hmem] at hr
      cases hr
    · exact hs.handled d hd

/-- The scan moves on and the table stays as it is. -/
theorem ahead_of_eq {i : ℕ} (hs : UnreportedInv s) (hphase : s.phase = .scan i)
    (hnext : ∀ k, t.phase = .scan k → i < k) (hfds : t.fds = s.fds) (hnfds : t.nfds = s.nfds)
    (hrep : t.reported = s.reported) :
    ∀ k j p, t.phase = .scan k → k ≤ j → j < t.nfds → t.fds.get? j = some p →
      p.fd ∈ t.reported → p.readable = true := by
  intro k j p hk hkj hlt hp hmem
  have hik := hnext k hk
  rw [hfds] at hp
  rw [hrep] at hmem
  exact hs.ahead i j p hphase (by omega) (hnfds ▸ hlt) hp hmem

/-- After `poll` a slot is readable exactly if its descriptor is reported, since no two slots have the
same descriptor. -/
theorem polls (htable : TableInv base s) (revents : ℕ → BitVec 16) {j : ℕ} {p : PollFd}
    (hlt : j < s.nfds) (hp : (s.fds.report s.nfds revents).get? j = some p)
    (hmem : p.fd ∈ (s.fds.report s.nfds revents).readyFds s.nfds) : p.readable = true := by
  obtain ⟨k, q, hklt, hq, hr, hfd⟩ := PollArray.mem_readyFds.mp hmem
  have hnodup : ((s.fds.report s.nfds revents).slots s.nfds).Nodup := by
    rw [PollArray.slots_report]
    exact htable.nodup
  have hj : ((s.fds.report s.nfds revents).slots s.nfds)[j]? = some p.fd := by
    rw [PollArray.getElem?_slots, if_pos hlt, hp, Option.map_some]
  have hk : ((s.fds.report s.nfds revents).slots s.nfds)[k]? = some p.fd := by
    rw [PollArray.getElem?_slots, if_pos hklt, hq, Option.map_some, hfd]
  have hlen : j < ((s.fds.report s.nfds revents).slots s.nfds).length :=
    (List.getElem?_eq_some_iff.mp hj).1
  obtain rfl : j = k := (List.getElem?_inj hlen hnodup).mp (hj.trans hk.symm)
  rw [hp] at hq
  cases hq
  exact hr

theorem of_step {e : Event} (hs : UnreportedInv s) (htable : TableInv base s)
    (hfresh : FreshAccept base s e) (h : step s e = some t) : UnreportedInv t := by
  have hstep := Step.of_step htable.le h
  have hrep : e.isPoll = false → t.reported = s.reported := fun he => (hstep.handled_eq he).1
  have hhan : e.isPoll = false → ∀ d ∈ t.handled, d ∉ t.reported := hs.handled_of_step hstep
  cases hstep with
  | pollFails _ _ => exact ⟨by simp, by simp, hs.handled⟩
  | @polls rc_poll revents hphase hrc =>
      refine ⟨?_, ?_, ?_⟩
      · intro i j p _ _ hlt hp hmem
        rw [reported_poll rfl] at hmem
        exact polls htable revents hlt hp hmem
      · intro _ d hd
        rw [reported_poll rfl] at hd
        obtain ⟨j, p, hlt, hp, -, rfl⟩ := PollArray.mem_readyFds.mp hd
        exact PollArray.mem_slots.mpr ⟨j, p, hlt, hp, rfl⟩
      · rw [handled_poll rfl]
        simp
  | acceptFails hphase _ _ _ _ _ | full hphase _ _ _ _ _ _ =>
      exact ⟨hs.ahead_of_eq hphase (by simp) rfl rfl (hrep rfl), by simp, hhan rfl⟩
  | @stores i p sock_client hphase hlt hp _ hsock hpos hroom =>
      have hi : i = 0 := htable.first i (by
        rw [← hsock, State.slots, PollArray.getElem?_slots, if_pos hlt, hp, Option.map_some])
      refine ⟨?_, by simp [State.store], hhan rfl⟩
      intro k j q hk hkj hjlt hq hmem
      obtain rfl : i + 1 = k := by simpa [State.store] using hk
      have hjlt' : j < s.nfds + 1 := hjlt
      rw [hrep rfl] at hmem
      rw [State.store, PollArray.get?_modify] at hq
      split at hq
      next =>
        -- the new client was not open when `poll` reported
        obtain ⟨c, -, rfl⟩ := Option.map_eq_some_iff.mp hq
        have hin : sock_client ∈ s.slots := hs.known (by rw [hphase, hi]) sock_client hmem
        exact absurd (htable.isOpen _ hin) (hfresh hpos)
      next => exact hs.ahead i j q hphase (by omega) (by omega) hq hmem
  | ignores hphase _ _ _ _ =>
      exact ⟨hs.ahead_of_eq hphase (by simp) rfl rfl rfl, by simp, hs.handled⟩
  | endRound _ _ => exact ⟨by simp, by simp, hs.handled⟩
  | throws _ _ _ _ => exact ⟨by simp, by simp, hhan rfl⟩
  | waits hphase _ _ _ =>
      exact ⟨hs.ahead_of_eq hphase (by simp) rfl rfl (hrep rfl), by simp, hhan rfl⟩
  | @drops i p q _ hphase hlt hp hr _ hq =>
      refine ⟨?_, by simp [State.refill], hhan rfl⟩
      intro k j r hk hkj hjlt hget hmem
      obtain rfl : i + 1 = k := by simpa [State.refill] using hk
      have hjlt' : j < s.nfds - 1 := hjlt
      rw [hrep rfl] at hmem
      rw [State.refill, PollArray.get?_modify_ne _ _ (by omega)] at hget
      exact hs.ahead i j r hphase (by omega) (by omega) hget hmem

theorem init (garbage : PollArray maxConnection) (sock_server : Int) :
    UnreportedInv (init garbage sock_server) := by
  refine ⟨by simp [Server.init], by simp [Server.init], ?_⟩
  intro d hd
  cases hd

end UnreportedInv

/-- **In every reachable state: what the round has handled was not reported.** -/
theorem handled_unreported {others : Finset Int} {garbage : PollArray maxConnection}
    {sock_server : Int} {s : State}
    (h : Reach step (FreshAccept (insert sock_server others)) (init garbage sock_server) s) :
    UnreportedInv s := by
  have hinv : TableInv (insert sock_server others) s ∧ UnreportedInv s := by
    refine h.invariant (I := fun s => TableInv _ s ∧ UnreportedInv s) ?_
      ⟨tableInv_init others garbage sock_server, UnreportedInv.init garbage sock_server⟩
    rintro s e t ⟨htable, hs⟩ hfresh hstep
    exact ⟨htable.of_step hfresh hstep, hs.of_step htable hfresh hstep⟩
  exact hinv.2

/-! ## A round that handles nobody -/

/-- `v` is a later state of a round that was at slot `k` in `u` and has handled nobody since: the slots
`u` had are as they were, and those the scan has passed were readable. -/
structure Untouched (k : ℕ) (u v : State) : Prop where
  le : u.nfds ≤ v.nfds
  cells : ∀ j, j < u.nfds → v.fds.get? j = u.fds.get? j
  passed : ∀ j p, k ≤ j → j < u.nfds → (∀ i, v.phase = .scan i → j < i) → u.fds.get? j = some p →
    p.readable = true

namespace Untouched

variable {base : Finset Int} {k : ℕ} {u s t : State}

theorem refl (hphase : u.phase = .scan k) : Untouched k u u := by
  refine ⟨le_rfl, fun _ _ => rfl, ?_⟩
  intro j p hkj _ hj _
  have := hj k hphase
  omega

/-- The scan moves on from slot `i`, or ends behind the last slot; `u`'s slots are not written. -/
theorem advance {i : ℕ} (hs : Untouched k u s) (hphase : s.phase = .scan i)
    (hread : ∀ p, i < s.nfds → s.fds.get? i = some p → p.readable = true)
    (hnext : ∀ i', t.phase = .scan i' → i' = i + 1) (hend : (∀ i', t.phase ≠ .scan i') → s.nfds ≤ i)
    (hle : s.nfds ≤ t.nfds) (hcells : ∀ j, j < u.nfds → t.fds.get? j = s.fds.get? j) :
    Untouched k u t := by
  have hle' := hs.le
  refine ⟨hle'.trans hle, fun j hj => (hcells j hj).trans (hs.cells j hj), ?_⟩
  intro j p hkj hj hpassed hp
  by_cases hji : j < i
  · refine hs.passed j p hkj hj ?_ hp
    intro i' hi'
    obtain rfl := scan_inj hphase hi'
    exact hji
  · -- slot `j` is not behind the scan, so it is the slot just looked at
    have hj' : j = i := by
      by_cases hscan : ∃ i', t.phase = .scan i'
      · obtain ⟨i', hi'⟩ := hscan
        have := hpassed i' hi'
        have := hnext i' hi'
        omega
      · have := hend fun i' hi' => hscan ⟨i', hi'⟩
        omega
    subst hj'
    exact hread p (by omega) (by rw [hs.cells j hj, hp])

theorem of_step {e : Event} (hs : Untouched k u s) (he : e.isPoll = false) (h : Step s e t)
    (hsame : t.handled = s.handled) : Untouched k u t := by
  obtain ⟨-, ⟨-, hread⟩ | ⟨i, p, -, -, -, -, hcons⟩⟩ := h.handled_eq he
  · cases h with
    | pollFails _ _ | polls _ _ => cases he
    | acceptFails hphase _ _ _ _ _ | full hphase _ _ _ _ _ _ | ignores hphase _ _ _ _ =>
        exact hs.advance hphase (hread _ · hphase) (by simp [eq_comm]) (by simp) le_rfl
          fun _ _ => rfl
    | stores hphase _ _ _ _ _ _ =>
        refine hs.advance hphase (hread _ · hphase) (by simp [State.store, eq_comm])
          (by simp [State.store]) (Nat.le_succ _) ?_
        intro j hj
        have hle := hs.le
        exact PollArray.get?_modify_ne _ _ (by omega)
    | endRound hphase hend =>
        exact hs.advance hphase (hread _ · hphase) (by simp) (fun _ => hend) le_rfl fun _ _ => rfl
    | throws hphase hlt hp hr | waits hphase hlt hp hr | drops hphase hlt hp hr _ _ =>
        rw [hread _ _ hphase hlt hp] at hr
        cases hr
  · rw [hsame] at hcons
    exact absurd hcons (by simp)

/-- **The run lemma**: at the end of a round that has handled nobody nothing was unreadable. -/
theorem of_run {es : List Event} (htable : TableInv base u) (hphase : u.phase = .scan k)
    (hrun : Run step (InRound base) u es t) (hnone : t.handled = []) : Untouched k u t := by
  have hinv : TableInv base t ∧ (t.handled = [] → Untouched k u t) := by
    refine hrun.invariant (I := fun v => TableInv base v ∧ (v.handled = [] → Untouched k u v)) ?_
      ⟨htable, fun _ => refl hphase⟩
    rintro v e w ⟨hv, hs⟩ ⟨hfresh, he⟩ hstep
    refine ⟨hv.of_step hfresh hstep, fun hw => ?_⟩
    have h := Step.of_step hv.le hstep
    obtain ⟨-, ⟨hsame, -⟩ | ⟨i, p, -, -, -, -, hcons⟩⟩ := h.handled_eq he
    · exact (hs (hsame ▸ hw)).of_step he h hsame
    · rw [hcons] at hw
      cases hw
  exact hinv.2 hnone

end Untouched

/-! ## A round in which nobody is to be served -/

/-- Nobody has been handled, nobody but the listener is reported, and every slot ahead of the scan is a
readable client's. -/
structure Quiet (s : State) : Prop where
  handled : s.handled = []
  reported : ∀ d ∈ s.reported, d = s.sock_server
  ahead : ∀ i j p, s.phase = .scan i → i ≤ j → j < s.nfds → s.fds.get? j = some p →
    p.readable = true ∧ p.fd ≠ s.sock_server

theorem Quiet.exact {s : State} (hs : Quiet s) : DispatchExact s := by
  refine ⟨?_, fun d hd hne => absurd (hs.reported d hd) hne⟩
  rw [hs.handled]
  simp

/-- In such a round every step passes over a slot. -/
theorem Quiet.of_step {s t : State} {e : Event} (hs : Quiet s) (he : e.isPoll = false)
    (h : Step s e t) : Quiet t := by
  cases h with
  | pollFails _ _ | polls _ _ => cases he
  | acceptFails hphase hlt hp _ hsock _ | stores hphase hlt hp _ hsock _ _
  | full hphase hlt hp _ hsock _ _ => exact absurd hsock (hs.ahead _ _ _ hphase le_rfl hlt hp).2
  | throws hphase hlt hp hr | waits hphase hlt hp hr | drops hphase hlt hp hr _ _ =>
      rw [(hs.ahead _ _ _ hphase le_rfl hlt hp).1] at hr
      cases hr
  | @ignores i _ hphase _ _ _ _ =>
      refine ⟨hs.handled, hs.reported, ?_⟩
      intro k j p hk hkj hlt hp
      obtain rfl : i + 1 = k := by simpa using hk
      exact hs.ahead i j p hphase (by omega) hlt hp
  | endRound _ _ => exact ⟨hs.handled, hs.reported, by simp⟩

theorem Quiet.of_run {base : Finset Int} {s t : State} {es : List Event} (hs : Quiet s)
    (htable : TableInv base s) (hrun : Run step (InRound base) s es t) : Quiet t := by
  have hinv : TableInv base t ∧ Quiet t := by
    refine hrun.invariant (I := fun v => TableInv base v ∧ Quiet v) ?_ ⟨htable, hs⟩
    rintro v e w ⟨hv, hq⟩ ⟨hfresh, he⟩ hstep
    exact ⟨hv.of_step hfresh hstep, hq.of_step he (Step.of_step hv.le hstep)⟩
  exact hinv.2

/-! ## When a round is exact -/

section Round

variable {base : Finset Int} {u t : State} {es : List Event}

theorem round_const (htable : TableInv base u) (hrun : Run step (InRound base) u es t) :
    t.reported = u.reported ∧ t.sock_server = u.sock_server := by
  have hinv : TableInv base t ∧ t.reported = u.reported ∧ t.sock_server = u.sock_server := by
    refine hrun.invariant
      (I := fun v => TableInv base v ∧ v.reported = u.reported ∧ v.sock_server = u.sock_server) ?_
      ⟨htable, rfl, rfl⟩
    rintro v e w ⟨hv, hrep, hsock⟩ ⟨hfresh, he⟩ hstep
    have h := Step.of_step hv.le hstep
    exact ⟨hv.of_step hfresh hstep, (h.handled_eq he).1.trans hrep, h.sock_server.trans hsock⟩
  exact hinv.2

/-- The round begins with the listener alone in the table, and reported. -/
structure Alone (base : Finset Int) (u : State) : Prop where
  table : TableInv base u
  phase : u.phase = .scan 0
  slots : u.slots = [u.sock_server]
  ready : ∀ p ∈ u.fds.get? 0, p.readable = true

namespace Alone

theorem nfds (hu : Alone base u) : u.nfds = 1 := by
  rw [← hu.table.length_slots, hu.slots, List.length_singleton]

theorem fd (hu : Alone base u) {p : PollFd} (hp : u.fds.get? 0 = some p) : p.fd = u.sock_server := by
  have hlt : 0 < u.nfds := by
    rw [hu.nfds]
    exact Nat.one_pos
  have hmem : p.fd ∈ u.slots := TableInv.mem_slots hlt hp
  rwa [hu.slots, List.mem_singleton] at hmem

/-- The first event is the answer of `accept`. -/
theorem accepts_first (hu : Alone base u) {v : State} {e : Event} (h : step u e = some v) :
    ∃ sock_client, e = .accept sock_client ∧
      (sock_client < 0 ∧ v.nfds = 1 ∧ v.phase = .scan 1 ∨
        0 ≤ sock_client ∧ v = u.store 0 sock_client) := by
  have hnfds := hu.nfds
  have hmax : 1 < maxConnection := by decide
  cases Step.of_step hu.table.le h with
  | pollFails hphase _ | polls hphase _ =>
      rw [hu.phase] at hphase
      cases hphase
  | @acceptFails i _ sock_client hphase _ _ _ _ hneg =>
      obtain rfl := scan_inj hu.phase hphase
      exact ⟨sock_client, rfl, .inl ⟨hneg, hnfds, rfl⟩⟩
  | @stores i _ sock_client hphase _ _ _ _ hpos _ =>
      obtain rfl := scan_inj hu.phase hphase
      exact ⟨sock_client, rfl, .inr ⟨hpos, rfl⟩⟩
  | full _ _ _ _ _ _ hfull => omega
  | ignores hphase _ hp _ hne =>
      obtain rfl := scan_inj hu.phase hphase
      exact absurd (hu.fd hp) hne
  | throws hphase _ hp hr | waits hphase _ hp hr | drops hphase _ hp hr _ _ =>
      obtain rfl := scan_inj hu.phase hphase
      rw [hu.ready _ hp] at hr
      cases hr
  | endRound hphase hend =>
      obtain rfl := scan_inj hu.phase hphase
      omega

/-- After it nobody is to be served, if `accept` failed or the new client's slot has a left-over
`POLLIN`. -/
theorem quiet (hu : Alone base u) (hhan : u.handled = []) (hreported : ∀ d ∈ u.reported, d ∈ u.slots)
    {v : State} {e : Event} (hok : InRound base u e) (h : step u e = some v)
    (hnew : (∃ sock_client < 0, e = .accept sock_client) ∨ ∀ p ∈ u.fds.get? 1, p.readable = true) :
    Quiet v := by
  have hstep := Step.of_step hu.table.le h
  obtain ⟨hrep, ⟨hsame, -⟩ | ⟨i, p, hi, -, hp, hr, -⟩⟩ := hstep.handled_eq hok.2
  · refine ⟨hsame.trans hhan, ?_, ?_⟩
    · intro d hd
      rw [hrep] at hd
      have hmem := hreported d hd
      rw [hu.slots, List.mem_singleton] at hmem
      rw [hmem, hstep.sock_server]
    · intro i j p hi hij hj hp
      have hnfds := hu.nfds
      obtain ⟨sock_client, rfl, ⟨-, hn, hph⟩ | ⟨hpos, rfl⟩⟩ := hu.accepts_first h
      · obtain rfl := scan_inj hph hi
        omega
      · -- the only slot ahead is the new client's
        obtain rfl : 0 + 1 = i := scan_inj rfl hi
        have hj' : j < u.nfds + 1 := hj
        obtain rfl : j = 1 := by omega
        rw [State.store, hnfds, PollArray.get?_modify_self] at hp
        obtain ⟨c, hc, rfl⟩ := Option.map_eq_some_iff.mp hp
        have hleft : c.readable = true := by
          rcases hnew with ⟨r, hneg, heq⟩ | hnew
          · cases heq
            omega
          · exact hnew c hc
        refine ⟨hleft, fun heq => ?_⟩
        -- the listener is open, so `accept` does not return it
        have hopen : u.sock_server ∈ openFds base u.history := hu.table.isOpen _ (by simp [hu.slots])
        have hback : sock_client = u.sock_server := heq
        rw [← hback] at hopen
        exact hok.1 hpos hopen
  · obtain rfl := scan_inj hu.phase hi
    rw [hu.ready p hp] at hr
    cases hr

end Alone

/-- **An exact round has nobody to serve.** -/
theorem nobody_of_exact (htable : TableInv base u) (hphase : u.phase = .scan 0)
    (hrep : u.reported = u.fds.readyFds u.nfds) (hrun : Run step (InRound base) u es t)
    (hend : t.phase = .polling ∨ t.phase = .stopped) (hinv : UnreportedInv t)
    (hexact : DispatchExact t) :
    u.slots = [] ∨ u.slots = [u.sock_server] ∧ (∀ p ∈ u.fds.get? 0, p.readable = true) ∧
      ((∃ sock_client < 0, es.head? = some (.accept sock_client)) ∨
        ∀ p ∈ u.fds.get? 1, p.readable = true) := by
  obtain ⟨hrep', hsock'⟩ := round_const htable hrun
  have hscan : ∀ i, t.phase ≠ .scan i := by
    intro i hi
    rcases hend with h | h <;> rw [h] at hi <;> cases hi
  -- whoever is handled was not reported, so nobody is handled
  have hnone : t.handled = [] := by
    apply List.eq_nil_iff_forall_not_mem.mpr
    intro d hd
    exact hinv.handled d hd (hexact.1 d hd).1
  -- so every slot was readable, and its descriptor reported
  have hall : ∀ j p, j < u.nfds → u.fds.get? j = some p → p.readable = true := by
    intro j p hj hp
    exact (Untouched.of_run htable hphase hrun hnone).passed j p (Nat.zero_le j) hj
      (fun i hi => absurd hi (hscan i)) hp
  -- so every slot holds the listener
  have hlistener : ∀ d ∈ u.slots, d = u.sock_server := by
    intro d hd
    by_contra hne
    obtain ⟨j, p, hj, hp, rfl⟩ := PollArray.mem_slots.mp hd
    have hmem : p.fd ∈ t.reported := by
      rw [hrep', hrep]
      exact PollArray.mem_readyFds.mpr ⟨j, p, hj, hp, hall j p hj hp, rfl⟩
    have hhandled := hexact.2 p.fd hmem (hsock' ▸ hne)
    rw [hnone] at hhandled
    cases hhandled
  rcases hslots : u.slots with _ | ⟨d, _ | ⟨d', ds⟩⟩
  · exact .inl rfl
  · right
    have hd : d = u.sock_server := hlistener d (by simp [hslots])
    subst hd
    have hnfds : u.nfds = 1 := by rw [← htable.length_slots, hslots, List.length_singleton]
    have hready : ∀ p ∈ u.fds.get? 0, p.readable = true := fun p hp => hall 0 p (by omega) hp
    have hu : Alone base u := ⟨htable, hphase, hslots, hready⟩
    refine ⟨rfl, hready, ?_⟩
    cases hrun with
    | nil => exact absurd hphase (hscan 0)
    | @cons _ v _ e es' hok hstep hrest =>
        obtain ⟨sock_client, rfl, ⟨hneg, -, -⟩ | ⟨hpos, rfl⟩⟩ := hu.accepts_first hstep
        · exact .inl ⟨sock_client, hneg, rfl⟩
        · -- the new client is in slot 1, which nobody has handled
          right
          intro p hp
          have htable' := htable.of_step hok.1 hstep
          have hslot : (u.store 0 sock_client).fds.get? 1 =
              some { p with fd := sock_client, events := pollIn } := by
            rw [State.store, hnfds, PollArray.get?_modify_self, hp]
            rfl
          have hlt : 1 < u.nfds + 1 := by omega
          show ({ p with fd := sock_client, events := pollIn } : PollFd).readable = true
          exact (Untouched.of_run htable' rfl hrest hnone).passed 1 _ le_rfl hlt
            (fun i hi => absurd hi (hscan i)) hslot
  · have hnodup := htable.nodup
    rw [hslots, hlistener d (by simp [hslots]), hlistener d' (by simp [hslots])] at hnodup
    simp at hnodup

/-- **A round with nobody to serve is exact.** -/
theorem exact_of_nobody (htable : TableInv base u) (hphase : u.phase = .scan 0)
    (hrep : u.reported = u.fds.readyFds u.nfds) (hhan : u.handled = [])
    (hrun : Run step (InRound base) u es t) (hend : t.phase = .polling ∨ t.phase = .stopped)
    (h : u.slots = [] ∨ u.slots = [u.sock_server] ∧ (∀ p ∈ u.fds.get? 0, p.readable = true) ∧
      ((∃ sock_client < 0, es.head? = some (.accept sock_client)) ∨
        ∀ p ∈ u.fds.get? 1, p.readable = true)) :
    DispatchExact t := by
  have hreported : ∀ d ∈ u.reported, d ∈ u.slots := by
    intro d hd
    rw [hrep] at hd
    obtain ⟨j, p, hj, hp, -, rfl⟩ := PollArray.mem_readyFds.mp hd
    exact TableInv.mem_slots hj hp
  rcases h with hnil | ⟨hslots, hready, hnew⟩
  · -- an empty table stays empty
    have hnfds : u.nfds = 0 := by rw [← htable.length_slots, hnil, List.length_nil]
    have hquiet : Quiet u := by
      refine ⟨hhan, ?_, ?_⟩
      · intro d hd
        have hmem := hreported d hd
        rw [hnil] at hmem
        cases hmem
      · intro i j p _ _ hj
        omega
    exact (hquiet.of_run htable hrun).exact
  · have hu : Alone base u := ⟨htable, hphase, hslots, hready⟩
    cases hrun with
    | nil =>
        rw [hphase] at hend
        rcases hend with h | h <;> cases h
    | @cons _ v _ e es' hok hstep hrest =>
        have hquiet : Quiet v := hu.quiet hhan hreported hok hstep (by simpa using hnew)
        exact (hquiet.of_run (htable.of_step hok.1 hstep) hrest).exact

end Round

/-- **When a round is exact**: if and only if nobody is to be served in it. -/
theorem dispatch_exact_iff (others : Finset Int) (garbage : PollArray maxConnection)
    (sock_server : Int) (s u t : State) (rc_poll : Int) (revents : ℕ → BitVec 16) (es : List Event)
    (h : Reach step (FreshAccept (insert sock_server others)) (init garbage sock_server) s)
    (hrc : 0 ≤ rc_poll) (hpoll : step s (.poll rc_poll revents) = some u)
    (hrun : Run step (InRound (insert sock_server others)) u es t)
    (hend : t.phase = .polling ∨ t.phase = .stopped) :
    DispatchExact t ↔ NobodyToServe s revents es := by
  have hs := tableInv_of_reach h
  have hok : FreshAccept (insert sock_server others) s (.poll rc_poll revents) := trivial
  have hu : TableInv (insert sock_server others) u := hs.of_step hok hpoll
  have hreach : Reach step (FreshAccept (insert sock_server others)) (init garbage sock_server) t := by
    refine h.trans (Reach.trans ⟨[_], .cons hok hpoll (.nil u)⟩ ⟨es, hrun.mono ?_⟩)
    exact fun _ _ hok => hok.1
  have ht := handled_unreported hreach
  cases Step.of_step hs.le hpoll with
  | pollFails _ hneg => omega
  | polls hphase _ =>
      have hslots : (s.fds.report s.nfds revents).slots s.nfds = s.slots := PollArray.slots_report _ _ _ _
      have hsame (hone : s.slots = [s.sock_server]) :
          ((∀ p ∈ (s.fds.report s.nfds revents).get? 0, p.readable = true) ↔
              hasPollIn (revents 0) = true) ∧
            ((∀ p ∈ (s.fds.report s.nfds revents).get? 1, p.readable = true) ↔
              ∀ p ∈ s.fds.get? 1, p.readable = true) := by
        have hnfds : s.nfds = 1 := by rw [← hs.length_slots, hone, List.length_singleton]
        obtain ⟨p, hp⟩ := s.fds.exists_get? (i := 0) (by decide)
        simp [PollArray.get?_report, hnfds, hp, PollFd.readable]
      constructor
      · intro hexact
        rcases nobody_of_exact hu rfl (reported_poll rfl) hrun hend ht hexact with hnil | ⟨hone, h0, h1⟩
        · exact .inl (hslots ▸ hnil)
        · have hone' : s.slots = [s.sock_server] := hslots ▸ hone
          exact .inr ⟨hone', (hsame hone').1.mp h0, h1.imp id (hsame hone').2.mp⟩
      · intro hnobody
        refine exact_of_nobody hu rfl (reported_poll rfl) (handled_poll rfl) hrun hend ?_
        rcases hnobody with hnil | ⟨hone, h0, h1⟩
        · exact .inl (hslots.trans hnil)
        · exact .inr ⟨hslots.trans hone, (hsame hone).1.mpr h0, h1.imp id (hsame hone).2.mpr⟩

/-- Listener 3 is reported and brings client 4, which is handled in the same round. -/
theorem dispatch_exact_iff_one_client :
    ∃ u t, step (init (.filled ⟨0, 0, 0⟩) 3) (.poll 1 fun _ => pollIn) = some u ∧ t.handled = [4] ∧
      (DispatchExact t ↔ NobodyToServe (init (.filled ⟨0, 0, 0⟩) 3) (fun _ => pollIn)
        [.accept 4, .handled (.ok .completed), .tau]) := by
  have hrun : (execOk step (InRound (insert 3 {0, 1, 2}))
      (pollReturns (init (.filled ⟨0, 0, 0⟩) 3) 1 fun _ => pollIn)
      [.accept 4, .handled (.ok .completed), .tau]).any
      (fun t => t.phase = .polling ∧ t.handled = [4]) = true := by decide
  cases ht : execOk step (InRound (insert 3 {0, 1, 2}))
      (pollReturns (init (.filled ⟨0, 0, 0⟩) 3) 1 fun _ => pollIn)
      [.accept 4, .handled (.ok .completed), .tau] with
  | none =>
      rw [ht] at hrun
      cases hrun
  | some t =>
      rw [ht] at hrun
      obtain ⟨hend, hhandled⟩ := of_decide_eq_true hrun
      exact ⟨_, t, rfl, hhandled, dispatch_exact_iff {0, 1, 2} _ 3 _ _ t 1 _ _ (.refl _) (by decide) rfl
        (run_of_execOk ht) (.inl hend)⟩

/-- Listener 3; client 4 is stored in slot 1, whose `revents` happens to have `POLLIN`. In the next round
only the client is reported: `handle_client` is called on the listener and not on the client. -/
def invertedRun : List Event :=
  [.poll 1 fun i => if i = 0 then pollIn else 0, .accept 4, .tau, .tau,
    .poll 1 fun i => if i = 1 then pollIn else 0, .handled (.ok .disconnect), .tau]

/-- **A round that serves whom `poll` has not reported, and not whom it has.** -/
theorem dispatch_inverted :
    ¬ ∀ (others : Finset Int) (garbage : PollArray maxConnection) (sock_server : Int) (s : State),
      Reach step (FreshAccept (insert sock_server others)) (init garbage sock_server) s →
        s.phase = .polling → DispatchExact s := by
  intro hall
  have hrun : (execOk step (FreshAccept (insert 3 {0, 1, 2})) (init (.filled ⟨0, 0, pollIn⟩) 3)
      invertedRun).any (fun s => s.phase = .polling ∧ ¬ DispatchExact s) = true := by decide
  obtain ⟨s, hreach, hs⟩ := exists_reach_of_exec hrun
  obtain ⟨hphase, hnot⟩ := of_decide_eq_true hs
  exact hnot (hall {0, 1, 2} _ 3 s hreach hphase)

end LinuxNet.Http.Server
