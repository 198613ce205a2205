/-
# LinuxNet.SessionsServed — the thread of a client obeys its service

The servers of `08_simple_client_server.c` and `09_multithread_client_server.c` as a `ServerLoop`: their
clients are the sessions under way. One iteration of `server_handle_client` is one iteration for that client;
when nothing is received the session ends with its socket open, so these servers do not close a client at its
end.
-/
import LinuxNet.Sessions
import LinuxNet.Tutorials.Turns

namespace LinuxNet.Sessions

open LinuxNet.Lib LinuxNet.Lib.Clients LinuxNet.Lib.FdLedger LinuxNet.Posix LinuxNet.Tutorials
open LinuxNet.Tutorials.Conversation (leaves serverHandleClient)
open LinuxNet.Tutorials.Turns

/-! ## Turns and calls -/

/-- One iteration of `server_handle_client`. -/
def threadIteration (e : HandleClient.Event) : Iteration :=
  if e.received.received ≤ 0 then ⟨e.received, none, false⟩
  else
    ⟨e.received, some ⟨e.time, serverHandleClient.reply e.time (cString e.received.bytes), e.rc⟩,
      leaves (cString e.received.bytes)⟩

/-- What the answers of the system make of a step. A client that gets no thread is accepted all the same. -/
def turn : Event → Option (Turn Int Iteration)
  | .accept sock_client _ => if sock_client < 0 then none else some (.accepts sock_client)
  | .iterate sock_client e => some (.iterates sock_client (threadIteration e))

/-- The calls on the sockets of clients. -/
def Call.client? : Call → Option ClientCall
  | .accept sock_client => if sock_client < 0 then none else some (.accept sock_client)
  | .session (.recv sock_client) => some (.recv sock_client)
  | .session (.send sock_client response) => some (.send sock_client response)
  | .session (.close sock_client) => some (.close sock_client)

/-- The calls on the sockets of clients so far, newest first. -/
def State.clientCalls (s : State) : List ClientCall := s.trace.filterMap Call.client?

theorem clientCalls_append {s t : State} {calls : List Call} {kept : List ClientCall}
    (ht : t.trace = calls ++ s.trace) (hkept : calls.filterMap Call.client? = kept) :
    t.clientCalls = kept ++ s.clientCalls := by
  rw [State.clientCalls, ht, List.filterMap_append, hkept]
  rfl

/-! ## The sessions obey their service -/

section Obeys

variable {p : Program} {s t : State} {sock_client : Int}

/-- The sessions under way have sockets of their own, which are open. -/
structure OwnSockets (s : State) : Prop where
  nodup : s.sessions.Nodup
  isOpen : ∀ d ∈ s.sessions, d ∈ openFds ∅ (history s.trace)

/-- **An iteration** of a session: its calls, and whether it goes on. -/
theorem iterate_cases {e : HandleClient.Event} (h : iterate s sock_client e = some t) :
    sock_client ∈ s.sessions ∧
      (e.received.received ≤ 0 ∧ t.sessions = s.sessions.erase sock_client ∧
          t.trace = [.session (.recv sock_client)] ++ s.trace ∨
        ∃ response, response = serverHandleClient.reply e.time (cString e.received.bytes) ∧
          0 < e.received.received ∧
          (leaves (cString e.received.bytes) = true ∧ t.sessions = s.sessions.erase sock_client ∧
              t.trace = [.session (.close sock_client), .session (.send sock_client response),
                .session (.recv sock_client)] ++ s.trace ∨
            leaves (cString e.received.bytes) = false ∧ t.sessions = s.sessions ∧
              t.trace = [.session (.send sock_client response), .session (.recv sock_client)] ++ s.trace)) := by
  unfold iterate at h
  split at h
  next hin =>
    refine ⟨hin, ?_⟩
    obtain ⟨u, hu, rfl⟩ := Option.map_eq_some_iff.mp h
    unfold HandleClient.step at hu
    simp only [HandleClient.init] at hu
    split at hu
    next hend =>
      cases hu
      exact .inl ⟨hend, rfl, rfl⟩
    next hmore =>
      cases hu
      refine .inr ⟨_, rfl, Int.not_le.mp hmore, ?_⟩
      unfold HandleClient.answer
      split
      next hleave => exact .inl ⟨hleave, rfl, rfl⟩
      next hstay => exact .inr ⟨Bool.eq_false_iff.mpr hstay, rfl, rfl⟩
  next => cases h

theorem turn_ends {e : HandleClient.Event} (hend : e.received.received ≤ 0) :
    turn (.iterate sock_client e) = some (.iterates sock_client ⟨e.received, none, false⟩) := by
  rw [turn, threadIteration, if_pos hend]

theorem turn_answers {e : HandleClient.Event} (hmore : 0 < e.received.received) :
    turn (.iterate sock_client e) = some (.iterates sock_client
      ⟨e.received, some ⟨e.time, serverHandleClient.reply e.time (cString e.received.bytes), e.rc⟩,
        leaves (cString e.received.bytes)⟩) := by
  rw [turn, threadIteration, if_neg (Int.not_le.mpr hmore)]

/-- **An `accept`**, of either server: a session begins, or it does not. -/
theorem accept_cases {rc : Int} (h : p.step s (.accept sock_client rc) = some t) :
    t.trace = [.accept sock_client] ++ s.trace ∧
      (t.sessions = s.sessions ∨ 0 ≤ sock_client ∧ t.sessions = sock_client :: s.sessions) := by
  rcases p with _ | _
  · simp only [Program.step, simpleServer] at h
    split at h
    next =>
      cases h
      split
      next => exact ⟨rfl, .inl rfl⟩
      next hclient => exact ⟨rfl, .inr ⟨Int.not_lt.mp hclient, rfl⟩⟩
    next => cases h
  · simp only [Program.step, multithreadServer, Option.some.injEq] at h
    subst h
    split
    next => exact ⟨rfl, .inl rfl⟩
    next hclient =>
      split
      next => exact ⟨rfl, .inl rfl⟩
      next => exact ⟨rfl, .inr ⟨Int.not_lt.mp hclient, rfl⟩⟩

theorem step_iterate (p : Program) (s : State) (sock_client : Int) (e : HandleClient.Event) :
    p.step s (.iterate sock_client e) = iterate s sock_client e := by
  rcases p with _ | _
  · rfl
  · rfl

/-- **A turn is all that a step does with clients.** -/
theorem clientCalls_of_step {e : Event} (h : p.step s e = some t) :
    t.clientCalls = callsOf (turn e) ++ s.clientCalls := by
  rcases e with ⟨sock_client, rc⟩ | ⟨sock_client, e⟩
  · refine clientCalls_append (accept_cases h).1 ?_
    show [Call.accept sock_client].filterMap Call.client? = callsOf (if sock_client < 0 then none else _)
    by_cases hneg : sock_client < 0
    · rw [if_pos hneg]
      exact List.filterMap_cons_none (if_pos hneg)
    · rw [if_neg hneg]
      exact List.filterMap_cons_some (if_neg hneg)
  · rw [step_iterate] at h
    obtain ⟨-, ⟨hend, -, ht⟩ | ⟨_, rfl, hmore, ⟨hleaves, -, ht⟩ | ⟨hstays, -, ht⟩⟩⟩ := iterate_cases h
    · rw [turn_ends hend]
      exact clientCalls_append ht rfl
    · rw [turn_answers hmore, hleaves]
      exact clientCalls_append ht rfl
    · rw [turn_answers hmore, hstays]
      exact clientCalls_append ht rfl

/-- A session begins with a socket of its own. -/
theorem OwnSockets.accepts (hs : OwnSockets s)
    (hfresh : 0 ≤ sock_client → sock_client ∉ openFds ∅ (history s.trace))
    (ht : t.trace = [.accept sock_client] ++ s.trace)
    (hsessions : t.sessions = s.sessions ∨ 0 ≤ sock_client ∧ t.sessions = sock_client :: s.sessions) :
    OwnSockets t := by
  have hkept : ∀ d ∈ openFds ∅ (history s.trace), d ∈ openFds ∅ (history t.trace) := by
    intro d hd
    rw [ht, List.singleton_append]
    by_cases hclient : sock_client < 0
    · rw [history_accept_neg hclient]
      exact hd
    · rw [history_accept_pos (Int.not_lt.mp hclient), openFds_opened]
      exact Finset.mem_insert_of_mem hd
  rcases hsessions with heq | ⟨hclient, heq⟩
  · refine ⟨heq ▸ hs.nodup, ?_⟩
    rw [heq]
    exact fun d hd => hkept d (hs.isOpen d hd)
  · have hnew : sock_client ∉ s.sessions := fun hin => hfresh hclient (hs.isOpen _ hin)
    refine ⟨heq ▸ List.nodup_cons.mpr ⟨hnew, hs.nodup⟩, ?_⟩
    rw [heq, List.forall_mem_cons]
    refine ⟨?_, fun d hd => hkept d (hs.isOpen d hd)⟩
    rw [ht, List.singleton_append, history_accept_pos hclient, openFds_opened]
    exact Finset.mem_insert_self _ _

/-- A session that ends leaves the sockets of the others open. -/
theorem OwnSockets.ends (hs : OwnSockets s) (hsessions : t.sessions = s.sessions.erase sock_client)
    (hopen : ∀ d ∈ openFds ∅ (history s.trace), d ≠ sock_client → d ∈ openFds ∅ (history t.trace)) :
    OwnSockets t := by
  refine ⟨hsessions ▸ hs.nodup.erase _, ?_⟩
  rw [hsessions]
  intro d hd
  obtain ⟨hne, hd⟩ := hs.nodup.mem_erase_iff.mp hd
  exact hopen d (hs.isOpen d hd) hne

theorem OwnSockets.of_step {e : Event} (hs : OwnSockets s) (hfresh : Fresh s e) (h : p.step s e = some t) :
    OwnSockets t := by
  rcases e with ⟨sock_client, rc⟩ | ⟨sock_client, e⟩
  · obtain ⟨ht, hsessions⟩ := accept_cases h
    exact hs.accepts hfresh ht hsessions
  · rw [step_iterate] at h
    obtain ⟨-, ⟨-, hsessions, ht⟩ | ⟨_, rfl, -, ⟨-, hsessions, ht⟩ | ⟨-, hsessions, ht⟩⟩⟩ := iterate_cases h
    · refine hs.ends hsessions fun d hd _ => ?_
      rw [ht]
      exact hd
    · refine hs.ends hsessions fun d hd hne => ?_
      rw [ht]
      exact Finset.mem_erase.mpr ⟨hne, hd⟩
    · refine ⟨hsessions ▸ hs.nodup, ?_⟩
      rw [hsessions, ht]
      exact hs.isOpen

/-- **The sessions obey their service.** -/
theorem obeys_of_step {e : Event} (hs : OwnSockets s) (hfresh : Fresh s e) (h : p.step s e = some t) :
    Obeys (Legal serverHandleClient false) Iteration.ends s.sessions.toFinset (turn e) t.sessions.toFinset := by
  rcases e with ⟨sock_client, rc⟩ | ⟨sock_client, e⟩
  · obtain ⟨-, hsessions⟩ := accept_cases h
    have hafter : t.sessions.toFinset ⊆ insert sock_client s.sessions.toFinset := by
      rcases hsessions with heq | ⟨-, heq⟩
      · rw [heq]
        exact Finset.subset_insert _ _
      · rw [heq, List.toFinset_cons]
    show Obeys _ _ _ (if sock_client < 0 then none else _) _
    by_cases hneg : sock_client < 0
    · rw [if_pos hneg]
      refine .quiet ?_
      rcases hsessions with heq | ⟨hpos, -⟩
      · rw [heq]
      · exact absurd hneg (Int.not_lt.mpr hpos)
    · rw [if_neg hneg]
      refine .accepts (fun hin => ?_) hafter
      exact hfresh (Int.not_lt.mp hneg) (hs.isOpen _ (List.mem_toFinset.mp hin))
  · rw [step_iterate] at h
    obtain ⟨hin, ⟨hend, hsessions, -⟩ | ⟨_, rfl, hmore, hcases⟩⟩ := iterate_cases h
    · rw [turn_ends hend, hsessions, toFinset_erase hs.nodup]
      refine .iterates (List.mem_toFinset.mpr hin) (.ends hend) ?_
      rw [Iteration.ends, decide_eq_true hend, Bool.true_or, if_pos rfl]
    · rw [turn_answers hmore]
      refine .iterates (List.mem_toFinset.mpr hin) (.answers hmore e.time e.rc) ?_
      rw [Iteration.ends, decide_eq_false (Int.not_le.mpr hmore), Bool.false_or]
      rcases hcases with ⟨hleaves, hsessions, -⟩ | ⟨hstays, hsessions, -⟩
      · rw [if_pos hleaves, hsessions, toFinset_erase hs.nodup]
      · rw [hstays, hsessions]
        exact Finset.Subset.refl _

end Obeys

/-- **Both servers** as a server loop: `accept` returns descriptors that are not open. -/
def serverLoop (p : Program) : ServerLoop State Event serverHandleClient false where
  step := p.step
  ok := Fresh
  start := init
  turn _ := turn
  held s := s.sessions.toFinset
  calls := State.clientCalls
  Inv := OwnSockets
  inv_start := ⟨List.nodup_nil, List.forall_mem_nil _⟩
  held_start := rfl
  inv_step := OwnSockets.of_step
  calls_step _ _ hstep := clientCalls_of_step hstep
  obeys := obeys_of_step

instance (p : Program) (s : State) (e : Event) : Decidable ((serverLoop p).ok s e) :=
  inferInstanceAs (Decidable (Fresh s e))

end LinuxNet.Sessions
