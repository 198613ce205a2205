/-
# LinuxNet.Sessions — does every session release its socket?

The servers of `08_simple_client_server.c` and `09_multithread_client_server.c` accept a client and talk to it
in the same inner loop (`HandleClient`): the first one itself, so that it accepts nobody else meanwhile, the
second one in a thread of its own. In both the only `close` is the one behind the answer to `exit`, `quit` and
`shutdown`. A session that ends because nothing is received any more keeps its socket open, and so does one
that gets no thread (`released_iff`).

A session is known by its descriptor; the calls of all sessions are one history.
-/
import LinuxNet.Lib.FdLedger
import LinuxNet.Tutorials.HandleClient

namespace LinuxNet.Sessions

open LinuxNet.Lib LinuxNet.Lib.FdLedger LinuxNet.Posix LinuxNet.Tutorials

/-! ## The two servers -/

/-- The calls of a server. -/
inductive Call where
  /-- `accept`, with its answer -/
  | accept (sock_client : Int)
  /-- a call of a session -/
  | session (call : HandleClient.Call)
  deriving DecidableEq, Repr

/-- The descriptors of the sessions under way, and the calls made so far, newest first. -/
structure State where
  sessions : List Int
  trace : List Call
  deriving DecidableEq

/-- What the system answers. -/
inductive Event where
  /-- to `accept`, and to `pthread_create` if it is called -/
  | accept (sock_client : Int) (rc : Int)
  /-- to the calls of one iteration of the inner loop for this client -/
  | iterate (sock_client : Int) (e : HandleClient.Event)

/-- Before the first `accept`. -/
def init : State := ⟨[], []⟩

/-- The state after one more call. -/
def State.log (s : State) (call : Call) : State := { s with trace := call :: s.trace }

/-- A session begins. -/
def State.begin (s : State) (sock_client : Int) : State :=
  { s with sessions := sock_client :: s.sessions }

/-- One iteration of the inner loop; the session ends when the loop is left. -/
def iterate (s : State) (sock_client : Int) (e : HandleClient.Event) : Option State :=
  if sock_client ∈ s.sessions then
    (HandleClient.step (HandleClient.init sock_client) e).map fun u =>
      { sessions := if u.phase = .left then s.sessions.erase sock_client else s.sessions
        trace := u.trace.map .session ++ s.trace }
  else none

/-- **`run_server` of `08_simple_client_server.c`**, from `listen` on: the next client is accepted when the
inner loop has been left. -/
def simpleServer (s : State) : Event → Option State
  | .accept sock_client _ =>
    if s.sessions = [] then
      let s := s.log (.accept sock_client)
      some (if sock_client < 0 then s else s.begin sock_client)
    else none
  | .iterate sock_client e => iterate s sock_client e

/-- **`run_server` of `09_multithread_client_server.c`**, from `listen` on, with its threads. -/
def multithreadServer (s : State) : Event → Option State
  | .accept sock_client rc =>
    let s := s.log (.accept sock_client)
    -- a client that gets no thread is reported only
    some (if sock_client < 0 then s else if rc ≠ 0 then s else s.begin sock_client)
  | .iterate sock_client e => iterate s sock_client e

/-- The programs. -/
inductive Program where
  | simple
  | multithread
  deriving DecidableEq, Repr

/-- One step of a program. -/
def Program.step : Program → State → Event → Option State
  | .simple => simpleServer
  | .multithread => multithreadServer

/-! ## What is opened and closed -/

/-- What a call does to the descriptors. -/
def Call.fdOp : Call → Option (FdOp Int)
  | .accept sock_client => if sock_client < 0 then none else some (.opened sock_client)
  | .session (.close sock_client) => some (.closed sock_client)
  | .session (.recv _) | .session (.send _ _) => none

/-- The history of the descriptors `accept` has returned. -/
def history (trace : List Call) : List (FdOp Int) := trace.filterMap Call.fdOp

/-- The assumption on the system: a descriptor that is returned is not open. -/
def Fresh (s : State) : Event → Prop
  | .accept sock_client _ => 0 ≤ sock_client → sock_client ∉ openFds ∅ (history s.trace)
  | .iterate _ _ => True

/-- How often the descriptor was closed in each session of it that has ended. -/
def State.closes (s : State) (sock_client : Int) : List ℕ :=
  if sock_client ∈ s.sessions then (lifetimes sock_client (history s.trace)).tail
  else lifetimes sock_client (history s.trace)

/-- **Every session that has ended has closed its descriptor exactly once.** -/
def Released (s : State) : Prop := ∀ sock_client, ∀ k ∈ s.closes sock_client, k = 1

/-- **The condition on a step**: a client that is accepted gets its thread, and something is received. -/
def Releases (p : Program) (_ : State) : Event → Prop
  | .accept sock_client rc => p = .multithread → 0 ≤ sock_client → rc = 0
  | .iterate _ e => 0 < e.received.received

instance (s : State) : (e : Event) → Decidable (Fresh s e)
  | .accept sock_client _ =>
    inferInstanceAs (Decidable (0 ≤ sock_client → sock_client ∉ openFds ∅ (history s.trace)))
  | .iterate _ _ => isTrue trivial

instance (p : Program) (s : State) : (e : Event) → Decidable (Releases p s e)
  | .accept sock_client rc => inferInstanceAs (Decidable (p = .multithread → 0 ≤ sock_client → rc = 0))
  | .iterate _ e => inferInstanceAs (Decidable (0 < e.received.received))

/-! ## What a step can do -/

/-- **`Step p s e t`** — everything one step of a server can do to its sessions and to the history. -/
inductive Step (p : Program) (s : State) : Event → State → Prop
  | noClient {sock_client rc : Int} {t : State} (hnone : sock_client < 0) (hsessions : t.sessions = s.sessions)
      (hhistory : history t.trace = history s.trace) : Step p s (.accept sock_client rc) t
  | noThread {sock_client rc : Int} {t : State} (hclient : 0 ≤ sock_client) (hp : p = .multithread)
      (hrc : rc ≠ 0) (hsessions : t.sessions = s.sessions)
      (hhistory : history t.trace = .opened sock_client :: history s.trace) :
      Step p s (.accept sock_client rc) t
  | begins {sock_client rc : Int} {t : State} (hclient : 0 ≤ sock_client)
      (hrc : p = .multithread → rc = 0) (hsessions : t.sessions = sock_client :: s.sessions)
      (hhistory : history t.trace = .opened sock_client :: history s.trace) :
      Step p s (.accept sock_client rc) t
  | ends {sock_client : Int} {e : HandleClient.Event} {t : State} (hin : sock_client ∈ s.sessions)
      (hend : e.received.received ≤ 0) (hsessions : t.sessions = s.sessions.erase sock_client)
      (hhistory : history t.trace = history s.trace) : Step p s (.iterate sock_client e) t
  | leaves {sock_client : Int} {e : HandleClient.Event} {t : State} (hin : sock_client ∈ s.sessions)
      (hmore : 0 < e.received.received) (hsessions : t.sessions = s.sessions.erase sock_client)
      (hhistory : history t.trace = .closed sock_client :: history s.trace) :
      Step p s (.iterate sock_client e) t
  | answers {sock_client : Int} {e : HandleClient.Event} {t : State} (hin : sock_client ∈ s.sessions)
      (hmore : 0 < e.received.received) (hsessions : t.sessions = s.sessions)
      (hhistory : history t.trace = history s.trace) : Step p s (.iterate sock_client e) t

theorem history_accept_neg {sock_client : Int} (hnone : sock_client < 0) (trace : List Call) :
    history (.accept sock_client :: trace) = history trace :=
  List.filterMap_cons_none (if_pos hnone)

theorem history_accept_pos {sock_client : Int} (hclient : 0 ≤ sock_client) (trace : List Call) :
    history (.accept sock_client :: trace) = .opened sock_client :: history trace :=
  List.filterMap_cons_some (if_neg (Int.not_lt.mpr hclient))

/-- An iteration. -/
theorem Step.of_iterate {p : Program} {s t : State} {sock_client : Int} {e : HandleClient.Event}
    (h : iterate s sock_client e = some t) : Step p s (.iterate sock_client e) t := by
  unfold iterate at h
  split at h
  next hin =>
    obtain ⟨u, hu, rfl⟩ := Option.map_eq_some_iff.mp h
    rcases HandleClient.step_cases hu with ⟨hend, rfl⟩ | ⟨response, hmore, rfl | rfl⟩
    · exact .ends hin hend rfl rfl
    · exact .leaves hin hmore rfl rfl
    · exact .answers hin hmore rfl rfl
  next => cases h

/-- **The inversion lemma**, for both servers. -/
theorem Step.of_step {p : Program} {s t : State} {e : Event} (h : p.step s e = some t) : Step p s e t := by
  rcases e with ⟨sock_client, rc⟩ | ⟨sock_client, e⟩
  · rcases p with _ | _
    · simp only [Program.step, simpleServer] at h
      split at h
      · cases h
        split
        next hnone => exact .noClient hnone rfl (history_accept_neg hnone _)
        next hclient =>
          have hclient := Int.not_lt.mp hclient
          exact .begins hclient (fun hno => by cases hno) rfl (history_accept_pos hclient _)
      · cases h
    · simp only [Program.step, multithreadServer, Option.some.injEq] at h
      subst h
      split
      next hnone => exact .noClient hnone rfl (history_accept_neg hnone _)
      next hclient =>
        have hclient := Int.not_lt.mp hclient
        split
        next hrc => exact .noThread hclient rfl hrc rfl (history_accept_pos hclient _)
        next hrc => exact .begins hclient (fun _ => not_not.mp hrc) rfl (history_accept_pos hclient _)
  · rcases p with _ | _
    · exact .of_iterate h
    · exact .of_iterate h

/-! ## The accounts -/

/-- The sessions under way hold their descriptors. -/
def Holds (P : Finset Int → List (FdOp Int) → Prop) (s : State) : Prop :=
  s.sessions.Nodup ∧ P s.sessions.toFinset (history s.trace)

theorem Holds.account {P : Finset Int → List (FdOp Int) → Prop} {s : State} (hs : Holds P s) (hP : Kept P) :
    Holds Account s :=
  ⟨hs.1, hP.account hs.2⟩

theorem toFinset_erase {ds : List Int} (hnodup : ds.Nodup) (d : Int) :
    (ds.erase d).toFinset = ds.toFinset.erase d := by
  ext d'
  rw [List.mem_toFinset, hnodup.mem_erase_iff, Finset.mem_erase, List.mem_toFinset]

theorem holds_begins {P : Finset Int → List (FdOp Int) → Prop} (hP : Kept P) {s t : State} {sock_client : Int}
    (hs : Holds P s) (hfresh : sock_client ∉ openFds ∅ (history s.trace))
    (hsessions : t.sessions = sock_client :: s.sessions)
    (hhistory : history t.trace = .opened sock_client :: history s.trace) : Holds P t := by
  obtain ⟨hnodup, hs⟩ := hs
  have hnew : sock_client ∉ s.sessions := by
    intro hin
    exact hfresh ((hP.account hs).isOpen (List.mem_toFinset.mpr hin))
  rw [Holds, hsessions, hhistory, List.nodup_cons, List.toFinset_cons]
  exact ⟨⟨hnew, hnodup⟩, hP.opened hs hfresh⟩

/-- A step that meets the condition keeps the account. -/
theorem holds_of_step {P : Finset Int → List (FdOp Int) → Prop} (hP : Kept P) {p : Program} {s t : State}
    {e : Event} (hs : Holds P s) (hfresh : Fresh s e) (hreleases : Releases p s e) (h : p.step s e = some t) :
    Holds P t := by
  cases Step.of_step h with
  | noClient _ hsessions hhistory =>
      rw [Holds, hsessions, hhistory]
      exact hs
  | noThread hclient hp hrc _ _ => exact absurd (hreleases hp hclient) hrc
  | begins hclient _ hsessions hhistory => exact holds_begins hP hs (hfresh hclient) hsessions hhistory
  | ends _ hend _ _ => exact absurd hreleases (Int.not_lt.mpr hend)
  | leaves hin _ hsessions hhistory =>
      obtain ⟨hnodup, hs⟩ := hs
      rw [Holds, hsessions, hhistory, toFinset_erase hnodup]
      exact ⟨hnodup.erase _, hP.closed hs (List.mem_toFinset.mpr hin)⟩
  | answers _ _ hsessions hhistory =>
      rw [Holds, hsessions, hhistory]
      exact hs

/-- A step that does not meet it gives up a descriptor. -/
theorem leaked_of_step {p : Program} {s t : State} {e : Event} (hs : Holds Account s)
    (hfresh : Fresh s e) (hkeeps : ¬ Releases p s e) (h : p.step s e = some t) : Holds Leaked t := by
  cases Step.of_step h with
  | noClient hnone _ _ => exact absurd (fun _ hclient => absurd hclient (Int.not_le.mpr hnone)) hkeeps
  | noThread hclient _ _ hsessions hhistory =>
      obtain ⟨hnodup, hs⟩ := hs
      rw [Holds, hsessions, hhistory]
      exact ⟨hnodup, hs.opened_unheld (hfresh hclient)⟩
  | begins _ hrc _ _ => exact absurd (fun hp _ => hrc hp) hkeeps
  | ends hin _ hsessions hhistory =>
      obtain ⟨hnodup, hs⟩ := hs
      rw [Holds, hsessions, hhistory, toFinset_erase hnodup]
      exact ⟨hnodup.erase _, hs.abandon (List.mem_toFinset.mpr hin)⟩
  | leaves _ hmore _ _ => exact absurd hmore hkeeps
  | answers _ hmore _ _ => exact absurd hmore hkeeps

/-! ## The run -/

theorem holds_init : Holds Balanced init := ⟨List.nodup_nil, balanced_nil⟩

/-- If nothing was given up, every session that has ended has closed its descriptor once. -/
theorem released_of_balanced {s : State} (hs : Holds Balanced s) : Released s := by
  intro sock_client
  rw [State.closes]
  split
  next => exact hs.2.toAccount.lifetimes_tail sock_client
  next hout => exact hs.2.lifetimes_of_notMem fun hin => hout (List.mem_toFinset.mp hin)

/-- A descriptor that was given up belongs to a session that has ended. -/
theorem not_released_of_leaked {s : State} (hs : Holds Leaked s) : ¬ Released s := by
  intro hreleased
  obtain ⟨sock_client, hout, hzero⟩ := hs.2.exists_lifetime
  have hended : s.closes sock_client = lifetimes sock_client (history s.trace) :=
    if_neg fun hin => hout (List.mem_toFinset.mpr hin)
  have hone := hreleased sock_client 0 (by rw [hended]; exact hzero)
  cases hone

/-- **When every session releases its socket.** For both servers, and every sequence of clients, requests and
answers of the system, as long as `accept` returns no descriptor that is open: every session that has ended has
closed its descriptor exactly once, if and only if every client that was accepted got its thread and no session
has ended because nothing was received. -/
theorem released_iff {p : Program} {es : List Event} {t : State} (h : Run p.step Fresh init es t) :
    Released t ↔ Run p.step (Releases p) init es t := by
  have hverdict : Run p.step (Releases p) init es t ∧ Holds Balanced t ∨
      ¬ Run p.step (Releases p) init es t ∧ Holds Leaked t := by
    refine h.verdict ?_ ?_ holds_init
    · intro s e t hs hfresh hstep
      by_cases hreleases : Releases p s e
      · exact .inl ⟨hreleases, holds_of_step kept_balanced hs hfresh hreleases hstep⟩
      · exact .inr ⟨hreleases, leaked_of_step (hs.account kept_balanced) hfresh hreleases hstep⟩
    · intro s e t hs hfresh hstep
      by_cases hreleases : Releases p s e
      · exact holds_of_step kept_leaked hs hfresh hreleases hstep
      · exact leaked_of_step (hs.account kept_leaked) hfresh hreleases hstep
  rcases hverdict with ⟨hrun, ht⟩ | ⟨hno, ht⟩
  · exact iff_of_true (released_of_balanced ht) hrun
  · exact iff_of_false (not_released_of_leaked ht) hno

/-- A client asks for the time, and to stop. -/
def asksTime (sock_client : Int) : List Event :=
  [.accept sock_client 0, .iterate sock_client ⟨.data (ofText "time"), 0, 1024⟩,
    .iterate sock_client ⟨.data (ofText "quit"), 0, 1024⟩]

theorem released_iff_asksTime :
    ∃ t, Run (Program.step .multithread) (Releases .multithread) init (asksTime 4 ++ asksTime 4) t ∧
      Released t := by
  have hexec : (execOk (Program.step .multithread) (fun s e => Fresh s e ∧ Releases .multithread s e) init
      (asksTime 4 ++ asksTime 4)).isSome = true := by decide
  obtain ⟨t, hrun⟩ := exists_run_of_exec hexec
  have hreleases : Run (Program.step .multithread) (Releases .multithread) init (asksTime 4 ++ asksTime 4) t :=
    hrun.mono fun _ _ hok => hok.2
  exact ⟨t, hreleases, (released_iff (hrun.mono fun _ _ hok => hok.1)).mpr hreleases⟩

/-- A client hangs up. -/
def hangsUp (sock_client : Int) : List Event :=
  [.accept sock_client 0, .iterate sock_client ⟨.data [], 0, 0⟩]

/-- Its session is over, and its descriptor is open. -/
theorem exists_hangup (p : Program) : ∃ t, Run p.step Fresh init (hangsUp 4) t ∧ ¬ Released t := by
  have hexec : (execOk p.step Fresh init (hangsUp 4)).any (fun t => t.closes 4 = [0]) = true := by
    rcases p with _ | _
    · decide
    · decide
  obtain ⟨t, hrun, ht⟩ := exists_run_of_exec_any hexec
  refine ⟨t, hrun, fun hreleased => ?_⟩
  have hone := hreleased 4 0 (by rw [of_decide_eq_true ht]; exact List.mem_singleton_self 0)
  cases hone

/-- **A client that hangs up leaves its descriptor open**, in both servers. -/
theorem hangup_leaks :
    (¬ ∀ (es : List Event) (t : State), Run (Program.step .simple) Fresh init es t → Released t) ∧
      ¬ ∀ (es : List Event) (t : State), Run (Program.step .multithread) Fresh init es t → Released t := by
  constructor
  · intro hall
    obtain ⟨t, hrun, hopen⟩ := exists_hangup .simple
    exact hopen (hall _ t hrun)
  · intro hall
    obtain ⟨t, hrun, hopen⟩ := exists_hangup .multithread
    exact hopen (hall _ t hrun)

end LinuxNet.Sessions
