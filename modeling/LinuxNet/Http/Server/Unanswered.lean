/-
# LinuxNet.Http.Server.Unanswered — what becomes of a request that is there before `poll`?

`poll` is level-triggered: it reports a connection for as long as there is something to read on it. The scan
calls `handle_client` on the slots that were *not* reported. So a client whose request is there when `poll` is
called is reported, is passed over for that very reason, and is reported again in the next round, because
nobody has read from it: its request is never read, its connection is never closed, and its slot is never
given to another one (`never_read`). Only a client that has nothing to say when `poll` is called gets into
`handle_client`, and there `recv` waits for it.

`MAX_CONNECTION` counts the listening socket as well, so the table has room for one client. The client that is
passed over keeps that place, and with it the server: nobody is answered any more (`nobody_is_answered`).
-/
import LinuxNet.Http.Server.Table

namespace LinuxNet.Http.Server

open LinuxNet.Lib LinuxNet.Lib.FdLedger LinuxNet.Posix LinuxNet.Cpp

/-- The calls made since the trace was `before`. -/
def State.since (s : State) (before : List Call) : List Call := s.trace.take (s.trace.length - before.length)

/-- **`LevelTriggered d before`** — a client had sent something when the trace was `before`, and `poll`
reports it for as long as `handle_client` has not been called on it. -/
def LevelTriggered (d : Int) (before : List Call) (s : State) : Event → Prop
  | .poll rc_poll revents => 0 ≤ rc_poll → .handleClient d ∉ s.since before →
      ∀ j, j < s.nfds → s.slots[j]? = some d → hasPollIn (revents j) = true
  | _ => True

instance (d : Int) (before : List Call) (s : State) : (e : Event) → Decidable (LevelTriggered d before s e)
  | .poll rc_poll revents => inferInstanceAs (Decidable (0 ≤ rc_poll → .handleClient d ∉ s.since before →
      ∀ j, j < s.nfds → s.slots[j]? = some d → hasPollIn (revents j) = true))
  | .accept _ | .handled _ | .tau => isTrue trivial

/-- Nothing has been done with a client since: it is in the table, and the scan will pass it over. -/
structure PassedOver (d : Int) (before : List Call) (s : State) : Prop where
  mem : d ∈ s.slots
  untouched : ∃ calls, s.trace = calls ++ before ∧ .handleClient d ∉ calls ∧ .close d ∉ calls
  ahead : ∀ i, s.phase = .scan i → ∀ j p, i ≤ j → j < s.nfds → s.fds.get? j = some p → p.fd = d →
    p.readable = true

theorem since_append {s : State} {calls before : List Call} (h : s.trace = calls ++ before) :
    s.since before = calls := by
  rw [State.since, h, List.length_append, Nat.add_sub_cancel, List.take_left]

namespace PassedOver

variable {base : Finset Int} {d : Int} {before : List Call} {s t : State}

/-- More calls, none of them on this client. -/
theorem untouched_append (hs : PassedOver d before s) (calls : List Call) (htrace : t.trace = calls ++ s.trace)
    (hhandle : .handleClient d ∉ calls) (hclose : .close d ∉ calls) :
    ∃ calls, t.trace = calls ++ before ∧ .handleClient d ∉ calls ∧ .close d ∉ calls := by
  obtain ⟨past, hpast, hnotHandled, hnotClosed⟩ := hs.untouched
  refine ⟨calls ++ past, ?_, ?_, ?_⟩
  · rw [htrace, hpast, List.append_assoc]
  · rw [List.mem_append, not_or]
    exact ⟨hhandle, hnotHandled⟩
  · rw [List.mem_append, not_or]
    exact ⟨hclose, hnotClosed⟩

/-- The scan goes on with the same table. -/
theorem next (hs : PassedOver d before s) (calls : List Call) {i : ℕ} (hphase : s.phase = .scan i)
    (hhandle : .handleClient d ∉ calls) (hclose : .close d ∉ calls) :
    PassedOver d before { s with phase := .scan (i + 1), trace := calls ++ s.trace } := by
  refine ⟨hs.mem, hs.untouched_append calls rfl hhandle hclose, fun i' hi' j p hj => ?_⟩
  cases hi'
  exact hs.ahead i hphase j p (Nat.le_of_succ_le hj)

/-- A client that is handled is another one. -/
theorem other (hs : PassedOver d before s) {i : ℕ} {p : PollFd} (hphase : s.phase = .scan i) (hlt : i < s.nfds)
    (hp : s.fds.get? i = some p) (hr : p.readable = false) : d ≠ p.fd := by
  intro heq
  have hready := hs.ahead i hphase i p le_rfl hlt hp heq.symm
  rw [hr] at hready
  cases hready

/-- `poll` reports it. -/
theorem polls (hs : PassedOver d before s) {rc_poll : Int} (hrc : 0 ≤ rc_poll) {revents : ℕ → BitVec 16}
    (hlevel : LevelTriggered d before s (.poll rc_poll revents)) (ready : List Int) :
    PassedOver d before
      { s with fds := s.fds.report s.nfds revents, phase := .scan 0, trace := .poll ready :: s.trace } := by
  obtain ⟨calls, htrace, hhandle, -⟩ := hs.untouched
  have hreport := hlevel hrc (by rwa [since_append htrace])
  refine ⟨?_, hs.untouched_append [.poll ready] rfl (by simp) (by simp), fun i _ j p _ hlt hp hfd => ?_⟩
  · show d ∈ (s.fds.report s.nfds revents).slots s.nfds
    rw [PollArray.slots_report]
    exact hs.mem
  · have hlt : j < s.nfds := hlt
    rw [PollArray.get?_report] at hp
    obtain ⟨q, hq, rfl⟩ := Option.map_eq_some_iff.mp hp
    rw [if_pos hlt] at hfd ⊢
    refine hreport j hlt ?_
    rw [State.slots, PollArray.getElem?_slots, if_pos hlt, hq]
    exact congrArg some hfd

/-- A client that is accepted is another one. -/
theorem stores (hs : PassedOver d before s) {i : ℕ} (hphase : s.phase = .scan i) {sock_client : Int}
    (hroom : s.nfds < maxConnection) (hother : sock_client ≠ d) :
    PassedOver d before (s.store i sock_client) := by
  refine ⟨?_, hs.untouched_append [.stored sock_client, .accept sock_client] rfl (by simp) (by simp),
    fun i' hi' j p hj hlt hp hfd => ?_⟩
  · rw [slots_store s i sock_client hroom]
    exact List.mem_append_left _ hs.mem
  · cases hi'
    by_cases hjn : s.nfds = j
    · subst hjn
      obtain ⟨q, -, rfl⟩ := Option.map_eq_some_iff.mp ((PollArray.get?_modify_self _ _ _).symm.trans hp)
      exact absurd hfd hother
    · rw [State.store, PollArray.get?_modify_ne _ _ hjn] at hp
      have hlt : j < s.nfds + 1 := hlt
      exact hs.ahead i hphase j p (Nat.le_of_succ_le hj) (by omega) hp hfd

/-- Another client is closed, and its slot gets the last one. -/
theorem refill (hs : PassedOver d before s) (htable : TableInv base s) {i : ℕ} {p q : PollFd}
    (hphase : s.phase = .scan i) (hlt : i < s.nfds) (hp : s.fds.get? i = some p)
    (hq : s.fds.get? (s.nfds - 1) = some q) (hother : d ≠ p.fd) : PassedOver d before (s.refill i p q) := by
  refine ⟨(htable.mem_slots_refill hlt hp hq d).mpr ⟨hs.mem, hother⟩,
    hs.untouched_append [.close p.fd, .handleClient p.fd] rfl ?_ ?_, fun i' hi' j p' hj hlt' hp' hfd => ?_⟩
  · simpa using hother
  · simpa using hother
  · cases hi'
    rw [State.refill, PollArray.get?_modify_ne _ _ (by omega)] at hp'
    have hlt' : j < s.nfds - 1 := hlt'
    exact hs.ahead i hphase j p' (Nat.le_of_succ_le hj) (by omega) hp' hfd

/-- **The step lemma.** -/
theorem of_step {e : Event} (hs : PassedOver d before s) (htable : TableInv base s)
    (hfresh : FreshAccept base s e)
    (hlevel : LevelTriggered d before s e) (h : step s e = some t) : PassedOver d before t := by
  cases Step.of_step htable.le h with
  | pollFails => exact ⟨hs.mem, hs.untouched, nofun⟩
  | polls _ hrc => exact hs.polls hrc hlevel _
  | acceptFails hphase => exact hs.next [.accept _] hphase (by simp) (by simp)
  | @stores i p sock_client hphase hlt hp _ hsock hpos hroom =>
      refine hs.stores hphase hroom ?_
      rintro rfl
      exact hfresh hpos (htable.isOpen _ hs.mem)
  | full hphase => exact hs.next [.accept _] hphase (by simp) (by simp)
  | ignores hphase => exact hs.next [] hphase (by simp) (by simp)
  | throws hphase hlt hp hr =>
      have hother := hs.other hphase hlt hp hr
      exact ⟨hs.mem, hs.untouched_append [.handleClient _] rfl (by simpa using hother) (by simp), nofun⟩
  | waits hphase hlt hp hr =>
      have hother := hs.other hphase hlt hp hr
      exact hs.next [.handleClient _] hphase (by simpa using hother) (by simp)
  | drops hphase hlt hp hr _ hq => exact hs.refill htable hphase hlt hp hq (hs.other hphase hlt hp hr)
  | endRound => exact ⟨hs.mem, hs.untouched, nofun⟩

end PassedOver

/-- **A request that is there before `poll` is never read.** Whatever the other clients do and whatever
`accept` and `handle_client` answer: from any state before a `poll`, a client in the table whose request is
there is never handed to `handle_client`, never closed, and never loses its place, however long the server
runs. -/
theorem never_read (others : Finset Int) (garbage : PollArray maxConnection) (sock_server : Int) {s t : State}
    {d : Int} (hs : Reach step (FreshAccept (insert sock_server others)) (init garbage sock_server) s)
    (hphase : s.phase = .polling) (hd : d ∈ s.slots)
    (h : Reach step (fun u e => FreshAccept (insert sock_server others) u e ∧ LevelTriggered d s.trace u e)
      s t) :
    .handleClient d ∉ t.since s.trace ∧ .close d ∉ t.since s.trace ∧ d ∈ t.slots := by
  have hstart : PassedOver d s.trace s := by
    refine ⟨hd, ⟨[], rfl, by simp, by simp⟩, fun i hi => ?_⟩
    rw [hphase] at hi
    cases hi
  obtain ⟨ht, -⟩ : PassedOver d s.trace t ∧ TableInv (insert sock_server others) t := by
    refine h.invariant (I := fun u => PassedOver d s.trace u ∧ TableInv _ u) ?_ ⟨hstart, tableInv_of_reach hs⟩
    rintro u e v ⟨hu, htable⟩ ⟨hfresh, hlevel⟩ hstep
    exact ⟨hu.of_step htable hfresh hlevel hstep, htable.of_step hfresh hstep⟩
  obtain ⟨calls, htrace, hhandle, hclose⟩ := ht.untouched
  rw [since_append htrace]
  exact ⟨hhandle, hclose, ht.mem⟩

/-- Client 4 is accepted while its slot happens to hold `POLLIN`, sends its request and is passed over in each
of two rounds. -/
theorem never_read_two_rounds :
    ∃ s t, Reach step (FreshAccept (insert 3 ∅)) (init (.filled ⟨0, 0, pollIn⟩) 3) s ∧ s.slots = [3, 4] ∧
      Reach step (fun u e => FreshAccept (insert 3 ∅) u e ∧ LevelTriggered 4 s.trace u e) s t ∧
      t.phase = .polling ∧ s.trace.length + 2 ≤ t.trace.length ∧
      .handleClient 4 ∉ t.since s.trace ∧ .close 4 ∉ t.since s.trace ∧ 4 ∈ t.slots := by
  have hrun : (execOk step (FreshAccept (insert 3 ∅)) (init (.filled ⟨0, 0, pollIn⟩) 3)
      [.poll 1 fun i => if i = 0 then pollIn else 0, .accept 4, .tau, .tau]).any
      (fun s => s.phase = .polling ∧ s.slots = [3, 4] ∧
        (execOk step (fun u e => FreshAccept (insert 3 ∅) u e ∧ LevelTriggered 4 s.trace u e) s
          [.poll 2 fun _ => pollIn, .accept (-1), .tau, .tau, .poll 2 fun _ => pollIn, .accept (-1), .tau,
            .tau]).any (fun t => t.phase = .polling ∧ s.trace.length + 2 ≤ t.trace.length) = true) = true := by
    decide
  obtain ⟨s, hs, hfacts⟩ := exists_reach_of_exec hrun
  obtain ⟨hphase, hslots, hnext⟩ := of_decide_eq_true hfacts
  obtain ⟨t, ht, hfacts⟩ := exists_reach_of_exec hnext
  obtain ⟨hpolling, hlonger⟩ := of_decide_eq_true hfacts
  have hd : 4 ∈ s.slots := by
    rw [hslots]
    decide
  exact ⟨s, t, hs, hslots, ht, hpolling, hlonger, never_read ∅ _ 3 hs hphase hd ht⟩

/-! ## The other clients -/

/-- There is at most one client in the table. -/
def OneClient (s : State) : Prop := ∀ d ∈ s.slots, ∀ e ∈ s.slots, d ≠ s.sock_server → e ≠ s.sock_server → d = e

namespace OneClient

variable {base : Finset Int} {s t : State}

/-- While there is room for a client, the listening socket is alone. -/
theorem slots_of_room (htable : TableInv base s) (hroom : s.nfds < maxConnection)
    (hsock : s.sock_server ∈ s.slots) : s.slots = [s.sock_server] := by
  have hlen : s.slots.length < 2 := htable.length_slots.trans_lt hroom
  rcases hslots : s.slots with _ | ⟨a, _ | ⟨b, rest⟩⟩
  · rw [hslots] at hsock
    cases hsock
  · rw [hslots, List.mem_singleton] at hsock
    rw [hsock]
  · rw [hslots, List.length_cons, List.length_cons] at hlen
    omega

/-- Fewer descriptors in the table. -/
theorem of_subset (hs : OneClient s) (hslots : t.slots ⊆ s.slots) (hsock : t.sock_server = s.sock_server) :
    OneClient t := by
  intro d hd e he hdc hec
  rw [hsock] at hdc hec
  exact hs d (hslots hd) e (hslots he) hdc hec

theorem of_step {e : Event} (hs : OneClient s) (htable : TableInv base s) (h : step s e = some t) :
    OneClient t := by
  have hstep := Step.of_step htable.le h
  cases hstep with
  | polls =>
      refine hs.of_subset ?_ rfl
      rw [State.slots, PollArray.slots_report]
      exact List.Subset.refl _
  | @stores i p sock_client _ hlt hp _ hsock _ hroom =>
      have hlistener : s.sock_server ∈ s.slots := hsock ▸ TableInv.mem_slots hlt hp
      intro d hd e he hdc hec
      rw [slots_store s i sock_client hroom, slots_of_room htable hroom hlistener] at hd he
      have hdlast := (List.mem_cons.mp hd).resolve_left hdc
      have helast := (List.mem_cons.mp he).resolve_left hec
      rw [List.mem_singleton.mp hdlast, List.mem_singleton.mp helast]
  | drops _ hlt hp _ _ hq =>
      exact hs.of_subset (fun d hd => ((htable.mem_slots_refill hlt hp hq d).mp hd).1) rfl
  | _ => exact hs.of_subset (List.Subset.refl _) rfl

end OneClient

/-- In every reachable state. -/
theorem oneClient_of_reach {others : Finset Int} {garbage : PollArray maxConnection} {sock_server : Int}
    {s : State} (h : Reach step (FreshAccept (insert sock_server others)) (init garbage sock_server) s) :
    OneClient s ∧ s.sock_server = sock_server := by
  have hstart : OneClient (init garbage sock_server) := by
    intro d hd e _ hdc
    rw [slots_init, List.mem_singleton] at hd
    exact absurd hd hdc
  obtain ⟨hone, -, hsock⟩ : OneClient s ∧ TableInv (insert sock_server others) s ∧
      s.sock_server = sock_server := by
    refine h.invariant (I := fun u => OneClient u ∧ TableInv _ u ∧ u.sock_server = sock_server) ?_
      ⟨hstart, tableInv_init others garbage sock_server, rfl⟩
    rintro u e v ⟨hu, htable, hsock⟩ hfresh hstep
    exact ⟨hu.of_step htable hstep, htable.of_step hfresh hstep,
      (Step.of_step htable.le hstep).sock_server.trans hsock⟩
  exact ⟨hone, hsock⟩

/-- What is done with the clients. -/
def Call.OnClient (sock_server : Int) : Call → Prop
  | .handleClient fd | .close fd => fd ≠ sock_server
  | .stored _ => True
  | .poll _ | .accept _ => False

/-- Since a client was passed over nothing was done with any client. -/
structure Stuck (d : Int) (before : List Call) (s : State) : Prop extends PassedOver d before s where
  isClient : d ≠ s.sock_server
  one : OneClient s
  idle : ∃ calls, s.trace = calls ++ before ∧ ∀ c ∈ calls, ¬ c.OnClient s.sock_server

namespace Stuck

variable {base : Finset Int} {d : Int} {before : List Call} {s t : State}

/-- Whatever is in the table and is not this client, is the listening socket. -/
theorem eq_sock_server (hs : Stuck d before s) {fd : Int} (hfd : fd ∈ s.slots) (hother : d ≠ fd) :
    fd = s.sock_server := by
  by_contra hclient
  exact hother (hs.one d hs.mem fd hfd hs.isClient hclient)

/-- **The step lemma.** -/
theorem of_step {e : Event} (hs : Stuck d before s) (htable : TableInv base s) (hfresh : FreshAccept base s e)
    (hlevel : LevelTriggered d before s e) (h : step s e = some t) : Stuck d before t := by
  have hstep := Step.of_step htable.le h
  have hsock := hstep.sock_server
  refine ⟨hs.toPassedOver.of_step htable hfresh hlevel h, hsock ▸ hs.isClient, hs.one.of_step htable h, ?_⟩
  obtain ⟨past, hpast, hidle⟩ := hs.idle
  have hadd : ∀ calls : List Call, t.trace = calls ++ s.trace → (∀ c ∈ calls, ¬ c.OnClient s.sock_server) →
      ∃ calls, t.trace = calls ++ before ∧ ∀ c ∈ calls, ¬ c.OnClient t.sock_server := by
    intro calls htrace hcalls
    rw [hsock]
    refine ⟨calls ++ past, ?_, List.forall_mem_append.mpr ⟨hcalls, hidle⟩⟩
    rw [htrace, hpast, List.append_assoc]
  -- a slot that is handled is not the one of the client
  have hhandled : ∀ i p, s.phase = .scan i → i < s.nfds → s.fds.get? i = some p → p.readable = false →
      p.fd = s.sock_server := fun i p hphase hlt hp hr =>
    hs.eq_sock_server (TableInv.mem_slots hlt hp) (hs.toPassedOver.other hphase hlt hp hr)
  cases hstep with
  | pollFails => exact hadd [] rfl (List.forall_mem_nil _)
  | polls => exact hadd [.poll _] rfl (List.forall_mem_singleton.mpr id)
  | acceptFails => exact hadd [.accept _] rfl (List.forall_mem_singleton.mpr id)
  | @stores i p sock_client _ hlt hp _ hfd _ hroom =>
      -- the table is full
      have hlistener : s.sock_server ∈ s.slots := hfd ▸ TableInv.mem_slots hlt hp
      have hmem := hs.mem
      rw [OneClient.slots_of_room htable hroom hlistener, List.mem_singleton] at hmem
      exact absurd hmem hs.isClient
  | full => exact hadd [.accept _] rfl (List.forall_mem_singleton.mpr id)
  | ignores => exact hadd [] rfl (List.forall_mem_nil _)
  | throws hphase hlt hp hr =>
      exact hadd [.handleClient _] rfl
          (List.forall_mem_singleton.mpr (not_not.mpr (hhandled _ _ hphase hlt hp hr)))
  | waits hphase hlt hp hr =>
      exact hadd [.handleClient _] rfl
          (List.forall_mem_singleton.mpr (not_not.mpr (hhandled _ _ hphase hlt hp hr)))
  | drops hphase hlt hp hr =>
      have hfd := not_not.mpr (hhandled _ _ hphase hlt hp hr)
      exact hadd [.close _, .handleClient _] rfl
        (List.forall_mem_cons.mpr ⟨hfd, List.forall_mem_singleton.mpr hfd⟩)
  | endRound => exact hadd [] rfl (List.forall_mem_nil _)

end Stuck

/-- **One such client stops the server.** From any state before a `poll` in which the request of a client in
the table is there, however long the server runs and whatever the others do: `handle_client` is called on no
client at all, none is closed, and none gets into the table. -/
theorem nobody_is_answered (others : Finset Int) (garbage : PollArray maxConnection) (sock_server : Int)
    {s t : State} {d : Int}
    (hs : Reach step (FreshAccept (insert sock_server others)) (init garbage sock_server) s)
    (hphase : s.phase = .polling) (hd : d ∈ s.slots) (hclient : d ≠ sock_server)
    (h : Reach step (fun u e => FreshAccept (insert sock_server others) u e ∧ LevelTriggered d s.trace u e)
      s t) :
    ∀ c ∈ t.since s.trace, ¬ c.OnClient sock_server := by
  obtain ⟨hone, hsock⟩ := oneClient_of_reach hs
  have hstart : Stuck d s.trace s := by
    refine ⟨⟨hd, ⟨[], rfl, by simp, by simp⟩, fun i hi => ?_⟩, hsock ▸ hclient,
      hone, [], rfl, List.forall_mem_nil _⟩
    rw [hphase] at hi
    cases hi
  obtain ⟨ht, -, hsock⟩ : Stuck d s.trace t ∧ TableInv (insert sock_server others) t ∧
      t.sock_server = sock_server := by
    refine h.invariant (I := fun u => Stuck d s.trace u ∧ TableInv _ u ∧ u.sock_server = sock_server) ?_
      ⟨hstart, tableInv_of_reach hs, hsock⟩
    rintro u e v ⟨hu, htable, hsock⟩ ⟨hfresh, hlevel⟩ hstep
    exact ⟨hu.of_step htable hfresh hlevel hstep, htable.of_step hfresh hstep,
      (Step.of_step htable.le hstep).sock_server.trans hsock⟩
  obtain ⟨calls, htrace, hidle⟩ := ht.idle
  rw [since_append htrace]
  rwa [hsock] at hidle

/-- Client 4 is accepted while its slot happens to hold `POLLIN` and sends its request; client 5 is accepted,
and its descriptor is forgotten. -/
theorem nobody_is_answered_next :
    ∃ s t, Reach step (FreshAccept (insert 3 ∅)) (init (.filled ⟨0, 0, pollIn⟩) 3) s ∧ s.slots = [3, 4] ∧
      Reach step (fun u e => FreshAccept (insert 3 ∅) u e ∧ LevelTriggered 4 s.trace u e) s t ∧
      .accept 5 ∈ t.since s.trace ∧ ∀ c ∈ t.since s.trace, ¬ c.OnClient 3 := by
  have hrun : (execOk step (FreshAccept (insert 3 ∅)) (init (.filled ⟨0, 0, pollIn⟩) 3)
      [.poll 1 fun i => if i = 0 then pollIn else 0, .accept 4, .tau, .tau]).any
      (fun s => s.phase = .polling ∧ s.slots = [3, 4] ∧
        (execOk step (fun u e => FreshAccept (insert 3 ∅) u e ∧ LevelTriggered 4 s.trace u e) s
          [.poll 2 fun _ => pollIn, .accept 5, .tau, .tau]).any
            (fun t => .accept 5 ∈ t.since s.trace) = true) = true := by
    decide
  obtain ⟨s, hs, hfacts⟩ := exists_reach_of_exec hrun
  obtain ⟨hphase, hslots, hnext⟩ := of_decide_eq_true hfacts
  obtain ⟨t, ht, hfacts⟩ := exists_reach_of_exec hnext
  have hd : 4 ∈ s.slots := by
    rw [hslots]
    decide
  exact ⟨s, t, hs, hslots, ht, of_decide_eq_true hfacts, nobody_is_answered ∅ _ 3 hs hphase hd (by decide) ht⟩

end LinuxNet.Http.Server
