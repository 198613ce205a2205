/-
# LinuxNet.Isolation — what a client gets to see of the other clients of its server

The multithreaded, the select and the poll server, each with any number of clients, in any order of what the
server and the clients do, and with every delivery of the bytes. What there is of a client at any moment is what
there can be of it when it is alone with the server (`isolation`), so it gets stuck, or out of step with its
answers, only through what happens on its own connection (`no_deadlock`, `in_step`). How long it waits is
another matter: the select and the poll server serve one client at a time, and while they wait in a call for
one, the others wait too.

The descriptors of the select server are below `FD_SETSIZE` here (`SelectServer.FreshAccept`); what it does
beyond, nothing is said about.
-/
import LinuxNet.SessionsServed
import LinuxNet.Tutorials.ManyClients
import LinuxNet.Tutorials.MultithreadServer
import LinuxNet.Tutorials.PollServer.Served
import LinuxNet.Tutorials.SelectServer.Served

namespace LinuxNet.Isolation

open LinuxNet.Lib LinuxNet.Lib.Clients LinuxNet.Posix LinuxNet.Tutorials
open LinuxNet.Tutorials.Conversation (Service Answered Deadlock Alive serverHandleClient)
open LinuxNet.Tutorials.ManyClients LinuxNet.Tutorials.Turns
open LinuxNet.Tutorials.MultithreadServer (InStep Lockstep SendsWhole ReceivesWhole)

variable {σ ε ι : Type} [DecidableEq ι] {service : Service} {closesAtEnd : Bool}

/-! ## Every client is alone with its server -/

/-- The states of a server and its clients. -/
abbrev System (σ ι : Type) := State σ Int ι Conversation.State

/-- **`Reaches L G s`** — the server and its clients can get to `s` while everything that happens in the
conversation of client `i` meets `G i`. -/
def Reaches (L : ServerLoop σ ε service closesAtEnd) (G : ι → Conversation.State → Conversation.Event → Prop)
    (s : System σ ι) : Prop :=
  Reach (step L.toServer (session service)) (Guard L.toServer fun i => Meets (G i))
    (init L.toServer (session service)) s

/-- **`Isolated L ι`** — the server reads from clients only, and what there is of each client is what there is
of it in a conversation of its own, in which happens what meets the same condition. -/
def Isolated (L : ServerLoop σ ε service closesAtEnd) (ι : Type) [DecidableEq ι] : Prop :=
  ∀ (G : ι → Conversation.State → Conversation.Event → Prop) (s : System σ ι), Reaches L G s →
    (∀ i, ∃ c, Reach (Conversation.step service) (G i) Conversation.init c ∧ Same (s.session i) c) ∧
      ∀ e server sock_client iteration, L.ok s.server e → L.step s.server e = some server →
        L.turn s.server e = some (.iterates sock_client iteration) → ∃ i, s.owner sock_client = some i

theorem isolated (L : ServerLoop σ ε service closesAtEnd) : Isolated L ι := by
  intro G s h
  constructor
  · intro i
    obtain ⟨given, halone⟩ := alone_of_reach h i
    exact conversation_of_alone halone
  · intro e server sock_client iteration hok hstep hturn
    exact owner_of_reach h hok hstep hturn

/-- **Every client of the three servers is where it could be alone**: with any number of clients, whatever they
and the kernel do, each of them is in a state it can reach in a conversation of its own with that server, and
the server calls `recv` on sockets of clients only; for the select server as long as the descriptors that get
into its sets are below `FD_SETSIZE`. -/
theorem isolation (ι : Type) [DecidableEq ι] (others : Finset Int) (sock_server : Int) :
    Isolated (PollServer.serverLoop others sock_server) ι ∧
      Isolated (SelectServer.serverLoop others sock_server) ι ∧
        Isolated (Sessions.serverLoop .multithread) ι :=
  ⟨isolated _, isolated _, isolated _⟩

/-- Two clients of the select server, one after the other with descriptor 4: the first one says "quit", the
second one asks for the time. -/
def reusesDescriptor : List (Event SelectServer.Event Conversation.Event Bool) :=
  let tau : Event SelectServer.Event Conversation.Event Bool := .server .tau true
  [.server (.select 1 {3}) true, tau, tau, tau, .server (.accept 4) true, tau, tau,
    .client true (.types (ofText "quit\n")), .client true (.clientSends 4),
    .server (.select 1 {4}) true, tau, tau, tau, tau, .server (.serve (.data (ofText "quit")) 0 14) true, tau,
    .server (.select 1 {3}) true, tau, tau, tau, .server (.accept 4) false, tau, tau,
    .client false (.types (ofText "time\n")), .client false (.clientSends 4),
    .server (.select 1 {4}) true, tau, tau, tau, tau, .server (.serve (.data (ofText "time")) 0 14) true,
    .client false (.clientReceives 14)]

theorem isolation_reusesDescriptor :
    ∃ s, Reaches (SelectServer.serverLoop ∅ 3) (fun (_ : Bool) => ReceivesWhole) s ∧ s.owner 4 = some false ∧
      (s.session false).displayed = [ofText "Server time: 0"] ∧
        ∃ c, Reach (Conversation.step Conversation.multiplexed) ReceivesWhole Conversation.init c ∧
          Same (s.session false) c := by
  let L := SelectServer.serverLoop ∅ 3
  let S := session Conversation.multiplexed
  have hrun : (execOk (step L.toServer S) (Guard L.toServer fun _ => Meets ReceivesWhole)
      (init L.toServer S) reusesDescriptor).any (fun s => s.owner 4 = some false ∧
        (s.session false).displayed = [ofText "Server time: 0"]) = true := by
    decide +kernel
  obtain ⟨s, hreach, hs⟩ := exists_reach_of_exec hrun
  obtain ⟨howner, hdisplayed⟩ := of_decide_eq_true hs
  exact ⟨s, hreach, howner, hdisplayed, ((isolation Bool ∅ 3).2.1 _ s hreach).1 false⟩

/-! ## What follows for one client -/

section OneClient

variable {L : ServerLoop σ ε service closesAtEnd} {s : System σ ι} {i : ι}

/-- What one client meets, and nothing about the others. -/
def Own (i : ι) (P : Conversation.State → Conversation.Event → Prop) (j : ι) (c : Conversation.State)
    (e : Conversation.Event) : Prop :=
  j = i → P c e

instance (i : ι) (P : Conversation.State → Conversation.Event → Prop) [∀ c e, Decidable (P c e)] (j : ι)
    (c : Conversation.State) (e : Conversation.Event) : Decidable (Own i P j c e) :=
  inferInstanceAs (Decidable (j = i → P c e))

/-- An invariant of the conversation. -/
theorem invariant_of_reaches {P : Conversation.State → Conversation.Event → Prop}
    {J : Conversation.State → Prop}
    (hJ : ∀ c e c', J c → P c e → Conversation.step service c e = some c' → J c') (hinit : J Conversation.init)
    (h : Reaches L (Own i P) s) : ∃ c, J c ∧ Same (s.session i) c := by
  obtain ⟨c, hreach, hsame⟩ := (isolated L _ _ h).1 i
  exact ⟨c, hreach.invariant (fun c e c' hc hok hstep => hJ c e c' hc (hok rfl) hstep) hinit, hsame⟩

/-- A client that waits is not one that has left. -/
theorem deadlock_of_same {c c' : Conversation.State} (h : Same c c') (hdead : Deadlock c) : Deadlock c' := by
  rcases h with rfl | ⟨hleft, -⟩
  · exact hdead
  · obtain ⟨⟨request, hwaiting⟩, -⟩ := hdead
    rw [hleft] at hwaiting
    cases hwaiting

/-- Which text answers which command does not depend on where the server is. -/
theorem lockstep_of_same {c c' : Conversation.State} (h : Same c c') (hc : Lockstep c') : Lockstep c := by
  rcases h with rfl | ⟨-, rfl⟩
  · exact hc
  · exact hc

theorem not_deadlock_of_reaches {p : Conversation.Program} (hservice : service = p.service)
    (h : Reaches L (Own i (Answered p)) s) : ¬ Deadlock (s.session i) := by
  obtain ⟨c, halive, hsame⟩ := invariant_of_reaches (J := Alive)
    (fun c e c' hc hok hstep => hc.of_step hok (hservice ▸ hstep)) Conversation.alive_init h
  exact fun hdead => halive.not_deadlock (deadlock_of_same hsame hdead)

end OneClient

/-- **No client gets stuck because of another one**: as long as no line of its own gives an empty request and,
with the multithreaded server, no reply of its own gets lost, a client and its server do not end up both in
`recv`. -/
theorem no_deadlock (others : Finset Int) (sock_server : Int) (i : ι) :
    (∀ s, Reaches (PollServer.serverLoop others sock_server) (Own i (Answered .poll)) s →
      ¬ Deadlock (s.session i)) ∧
      (∀ s, Reaches (SelectServer.serverLoop others sock_server) (Own i (Answered .select)) s →
        ¬ Deadlock (s.session i)) ∧
        ∀ s, Reaches (Sessions.serverLoop .multithread) (Own i (Answered .multithread)) s →
          ¬ Deadlock (s.session i) :=
  ⟨fun _ h => not_deadlock_of_reaches (p := .poll) rfl h,
    fun _ h => not_deadlock_of_reaches (p := .select) rfl h,
    fun _ h => not_deadlock_of_reaches (p := .multithread) rfl h⟩

instance : (c : Conversation.State) → (e : Conversation.Event) → Decidable (Answered .poll c e)
  | _, .types line => inferInstanceAs (Decidable (Conversation.requestOf line ≠ []))
  | _, .serverSends _ _ => isTrue fun h => by cases h
  | _, .clientSends _ | _, .serverReceives _ | _, .clientReceives _ | _, .clientSeesEnd | _, .serverSeesEnd =>
    isTrue trivial

/-- The poll server reports this slot as readable. -/
def polls (slot : ℕ) : PollServer.Event := .poll 1 fun j => if j = slot then pollIn else 0

/-- Two clients of the poll server: the one gets stuck with an empty line, the other one asks for the time. -/
def asksBeside : List (Event PollServer.Event Conversation.Event Bool) :=
  [.server (polls 0) true, .server (.accept 4) true, .server .tau true, .server .tau true,
    .server (polls 0) false, .server (.accept 5) false, .server .tau true, .server .tau true, .server .tau true,
    .client false (.types (ofText "\n")), .client false (.clientSends 0),
    .client true (.types (ofText "time\n")), .client true (.clientSends 4),
    .server (polls 1) true, .server .tau true, .server (.serve (.data (ofText "time")) 0 14) true,
    .client true (.clientReceives 14)]

theorem no_deadlock_beside :
    ∃ s, Reaches (PollServer.serverLoop ∅ 3) (Own true (Answered .poll)) s ∧
      (s.session true).displayed = [ofText "Server time: 0"] ∧ ¬ Deadlock (s.session true) ∧
        Deadlock (s.session false) := by
  let L := PollServer.serverLoop ∅ 3
  let S := session Conversation.multiplexed
  have hrun : (execOk (step L.toServer S) (Guard L.toServer fun i => Meets (Own true (Answered .poll) i))
      (init L.toServer S) asksBeside).any (fun s => (s.session true).displayed = [ofText "Server time: 0"] ∧
        (s.session false).client = .waiting [] ∧ (s.session false).server = .receiving ∧
          (s.session false).toServer = [] ∧ (s.session false).toClient = []) = true := by
    decide +kernel
  obtain ⟨s, hreach, hs⟩ := exists_reach_of_exec hrun
  obtain ⟨hdisplayed, hclient, hserver, htoServer, htoClient⟩ := of_decide_eq_true hs
  exact ⟨s, hreach, hdisplayed, (no_deadlock ∅ 3 true).1 s hreach, ⟨[], hclient⟩, hserver, htoServer, htoClient⟩

/-- **A client of the multithreaded server is in step with its answers, whatever the others do**: as long as
its own commands have a byte, `send` sends all of them and of the replies to it, and `recv` takes all that is
under way between it and its thread, the `k`-th text it shows is the answer to its `k`-th command. -/
theorem in_step {s : System Sessions.State ι} {i : ι}
    (h : Reaches (Sessions.serverLoop .multithread) (Own i fun c e => SendsWhole c e ∧ ReceivesWhole c e) s) :
    Lockstep (s.session i) := by
  obtain ⟨c, hc, hsame⟩ := invariant_of_reaches (J := InStep)
    (fun c e c' hc hok hstep => hc.of_step hok.1 hok.2 hstep) MultithreadServer.inStep_init h
  exact lockstep_of_same hsame hc.lockstep

/-- Two clients of the multithreaded server: what the one sends arrives in pieces, the other one asks for the
time. -/
def asksInTurn : List (Event Sessions.Event Conversation.Event Bool) :=
  [.server (.accept 4 0) true, .server (.accept 5 0) false,
    .client true (.types (ofText "time\n")), .client false (.types (ofText "time\n")),
    .client false (.clientSends 4), .client true (.clientSends 4),
    .server (.iterate 5 ⟨.data (ofText "ti"), 0, 1⟩) true, .client false (.clientReceives 1),
    .server (.iterate 4 ⟨.data (ofText "time"), 0, 1024⟩) true, .client true (.clientReceives 1024)]

theorem in_step_inTurn :
    ∃ s, Reaches (Sessions.serverLoop .multithread) (Own true fun c e => SendsWhole c e ∧ ReceivesWhole c e) s ∧
      (s.session false).displayed = [ofText "U"] ∧ (s.session true).displayed = [ofText "0"] ∧
        Lockstep (s.session true) := by
  let L := Sessions.serverLoop .multithread
  let S := session serverHandleClient
  have hrun : (execOk (step L.toServer S)
      (Guard L.toServer fun i => Meets (Own true (fun c e => SendsWhole c e ∧ ReceivesWhole c e) i))
      (init L.toServer S) asksInTurn).any (fun s => (s.session false).displayed = [ofText "U"] ∧
        (s.session true).displayed = [ofText "0"]) = true := by
    decide +kernel
  obtain ⟨s, hreach, hs⟩ := exists_reach_of_exec hrun
  obtain ⟨hother, hdisplayed⟩ := of_decide_eq_true hs
  exact ⟨s, hreach, hother, hdisplayed, in_step hreach⟩

end LinuxNet.Isolation
