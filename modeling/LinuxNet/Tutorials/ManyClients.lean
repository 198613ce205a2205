/-
# LinuxNet.Tutorials.ManyClients — a server together with all its clients

A `ServerLoop`, any number of clients, and a byte stream in each direction between the server and each of them
(`session`). The kernel hands the bytes of a stream over as they are, some of them at a time. The calls of one
iteration of the server are one step.

In every state the system can reach, what there is of a client is what there is of it in a conversation of its
own with the server (`conversation_of_alone`). What has been shown of such a conversation holds with any
number of clients.
-/
import LinuxNet.Tutorials.Turns

namespace LinuxNet.Tutorials.ManyClients

open LinuxNet.Lib LinuxNet.Lib.Clients LinuxNet.Posix
open LinuxNet.Tutorials.Conversation (Service CanReceive)
open LinuxNet.Tutorials.Turns

/-! ## A client and its streams -/

/-- The steps a client takes. -/
def IsClient : Conversation.Event → Prop
  | .types _ | .clientSends _ | .clientReceives _ | .clientSeesEnd => True
  | .serverReceives _ | .serverSends _ _ | .serverSeesEnd => False

instance : (e : Conversation.Event) → Decidable (IsClient e)
  | .types _ | .clientSends _ | .clientReceives _ | .clientSeesEnd => isTrue trivial
  | .serverReceives _ | .serverSends _ _ | .serverSeesEnd => isFalse not_false

/-- What the streams of a client let the calls of an iteration answer: bytes that are pending, the end when the
client is gone and nothing is pending, and no more sent than was given. -/
structure Streams (c : Conversation.State) (i : Iteration) : Prop where
  bytes : 0 < i.received.received →
    CanReceive c.toServer i.received.bytes.length ∧ i.received.bytes <+: c.toServer
  ends : i.received.received ≤ 0 → c.client = .left ∧ c.toServer = []
  sent : ∀ r, i.answer = some r → r.rc ≤ r.response.length

instance (c : Conversation.State) (i : Iteration) : Decidable (Streams c i) :=
  decidable_of_iff
    ((0 < i.received.received →
        CanReceive c.toServer i.received.bytes.length ∧ i.received.bytes <+: c.toServer) ∧
      (i.received.received ≤ 0 → c.client = .left ∧ c.toServer = []) ∧
        i.answer.all (fun r => decide (r.rc ≤ r.response.length)) = true) (by
    rw [Option.all_eq_true]
    simp only [decide_eq_true_eq]
    exact ⟨fun ⟨h, h', h''⟩ => ⟨h, h', h''⟩, fun h => ⟨h.bytes, h.ends, h.sent⟩⟩)

/-- What an iteration does to the streams of a client; the answers are written down with it. -/
def exchange (c : Conversation.State) (i : Iteration) : Conversation.State :=
  { c with
    server := if i.closed then .closed else c.server
    toServer := c.toServer.drop i.received.bytes.length
    toClient := c.toClient ++ i.answer.elim [] fun r => r.response.take r.rc.toNat
    answered := c.answered ++ (i.answer.map fun r => (r.time, cString i.received.bytes)).toList }

/-- **A client with its streams**, which are there before it is accepted. -/
def session (service : Service) : Session Conversation.State Conversation.Event Iteration where
  start := Conversation.init
  client c e := if IsClient e then Conversation.step service c e else none
  iterate c i := if Streams c i then some (exchange c i) else none
  -- a loop that is left does not touch the clients
  quit c := c

/-! ## What is assumed of the environment -/

/-- What `P` says about the calls of an iteration: about `recv`, and about `send` in the state after it. -/
def IterationMeets (P : Conversation.State → Conversation.Event → Prop) (c : Conversation.State)
    (received : Received) : Option Answer → Prop
  | none => P c .serverSeesEnd
  | some r =>
    P c (.serverReceives received.bytes.length) ∧
      P { c with
          server := .replying (cString received.bytes)
          toServer := c.toServer.drop received.bytes.length }
        (.serverSends r.time r.rc)

/-- **`Meets P`** — what happens in the conversation meets `P` there. -/
def Meets (P : Conversation.State → Conversation.Event → Prop) (c : Conversation.State) :
    Move Conversation.Event Iteration → Prop
  | .client e => P c e
  | .iterate i => IterationMeets P c i.received i.answer
  | .quit => True

section Decidable

variable (P : Conversation.State → Conversation.Event → Prop) [∀ c e, Decidable (P c e)]
  (c : Conversation.State)

instance (received : Received) : (answer : Option Answer) → Decidable (IterationMeets P c received answer)
  | none => inferInstanceAs (Decidable (P c .serverSeesEnd))
  | some _ => inferInstanceAs (Decidable (_ ∧ _))

instance : (m : Move Conversation.Event Iteration) → Decidable (Meets P c m)
  | .client e => inferInstanceAs (Decidable (P c e))
  | .iterate i => inferInstanceAs (Decidable (IterationMeets P c i.received i.answer))
  | .quit => isTrue trivial

end Decidable

/-! ## One iteration in one conversation -/

section Iteration

variable {service : Service} {P : Conversation.State → Conversation.Event → Prop} {c : Conversation.State}
  {received : Received}

/-- The server has given up a client that is gone. The other side cannot tell. -/
def Same (c c' : Conversation.State) : Prop := c' = c ∨ c.client = .left ∧ c' = { c with server := .left }

/-- At the end of the stream. -/
theorem exchange_ends (hserver : c.server = .receiving) (hend : received.received ≤ 0) {closed : Bool}
    (hstreams : Streams c ⟨received, none, closed⟩) (hP : IterationMeets P c received none) :
    ∃ c', Reach (Conversation.step service) P c c' ∧ Same (exchange c ⟨received, none, closed⟩) c' := by
  obtain ⟨hleft, hnone⟩ := hstreams.ends hend
  have hstep : Conversation.step service c .serverSeesEnd = some { c with server := .left } := by
    simp only [Conversation.step, hleft, hserver, if_pos hnone]
  refine ⟨_, .single hP hstep, .inr ⟨hleft, ?_⟩⟩
  simp only [exchange, bytes_eq_nil_of_nonpos hend, List.length_nil, List.drop_zero, Option.elim_none,
    List.append_nil, Option.map_none, Option.toList_none]

/-- A request is answered. -/
theorem exchange_answers (hserver : c.server = .receiving) (hmore : 0 < received.received) {time rc : Int}
    {closed : Bool} (hclosed : closed = service.closes (cString received.bytes) rc)
    (hstreams : Streams c ⟨received, some ⟨time, service.reply time (cString received.bytes), rc⟩, closed⟩)
    (hP : IterationMeets P c received (some ⟨time, service.reply time (cString received.bytes), rc⟩)) :
    Reach (Conversation.step service) P c
      (exchange c ⟨received, some ⟨time, service.reply time (cString received.bytes), rc⟩, closed⟩) := by
  obtain ⟨hcan, htake⟩ := hstreams.bytes hmore
  have hbytes : c.toServer.take received.bytes.length = received.bytes :=
    (List.prefix_iff_eq_take.mp htake).symm
  have hreceives : Conversation.step service c (.serverReceives received.bytes.length) =
      some { c with
        server := .replying (cString received.bytes)
        toServer := c.toServer.drop received.bytes.length } := by
    simp only [Conversation.step, hserver, if_pos hcan, hbytes]
  refine .head hP.1 hreceives (.single hP.2 ?_)
  have hrc : rc ≤ (service.reply time (cString received.bytes)).length := hstreams.sent _ rfl
  simp only [Conversation.step, if_pos hrc, exchange, hserver, Option.elim_some, Option.map_some,
    Option.toList_some, hclosed]

end Iteration

/-! ## A session is a conversation -/

section Sessions

variable {service : Service} {closesAtEnd : Bool} {P : Conversation.State → Conversation.Event → Prop}

/-- **What a session is like**: it is that of a conversation, and as long as the server has not given the
client up it waits for a request. -/
def Converses (service : Service) (P : Conversation.State → Conversation.Event → Prop)
    (s : Conversation.State × Bool) : Prop :=
  ∃ c, Reach (Conversation.step service) P Conversation.init c ∧ Same s.1 c ∧
    (s.2 = true → c = s.1 ∧ s.1.server = .receiving)

/-- A client that takes a step has not left, and the step does not change where the server is. -/
theorem client_step {c c' : Conversation.State} {e : Conversation.Event} (he : IsClient e)
    (h : Conversation.step service c e = some c') : c.client ≠ .left ∧ c'.server = c.server := by
  have hne {phase : Conversation.ClientPhase} (hphase : phase ≠ .left) (hclient : c.client = phase) :
      c.client ≠ .left := hclient ▸ hphase
  cases Conversation.Step.of_step h with
  | types hclient => exact ⟨hne Conversation.ClientPhase.noConfusion hclient, rfl⟩
  | sends hclient => exact ⟨hne Conversation.ClientPhase.noConfusion hclient, rfl⟩
  | fallsShort hclient => exact ⟨hne Conversation.ClientPhase.noConfusion hclient, rfl⟩
  | clientReceives hclient => exact ⟨hne Conversation.ClientPhase.noConfusion hclient, rfl⟩
  | clientSeesEnd hclient => exact ⟨hne Conversation.ClientPhase.noConfusion hclient, rfl⟩
  | serverReceives => exact he.elim
  | serverSends => exact he.elim
  | serverSeesEnd => exact he.elim

theorem Converses.client {s t : Conversation.State × Bool} {e : Conversation.Event} (hs : Converses service P s)
    (hP : P s.1 e) (h : (session service).step Iteration.ends s (.client e) = some t) :
      Converses service P t := by
  obtain ⟨c', hstep, rfl⟩ := Option.map_eq_some_iff.mp h
  simp only [session] at hstep
  split at hstep
  next he =>
    obtain ⟨hleft, hserver⟩ := client_step he hstep
    obtain ⟨c, hreach, rfl | ⟨hgone, -⟩, hopen⟩ := hs
    · exact ⟨c', hreach.trans (.single hP hstep), .inl rfl, fun h => ⟨rfl, hserver.trans (hopen h).2⟩⟩
    · exact absurd hgone hleft
  next => cases hstep

theorem Converses.iterate {s t : Conversation.State × Bool} {i : Iteration} (hs : Converses service P s)
    (hlegal : Legal service closesAtEnd i) (hP : IterationMeets P s.1 i.received i.answer)
    (h : (session service).step Iteration.ends s (.iterate i) = some t) : Converses service P t := by
  obtain ⟨c, hreach, -, hopen⟩ := hs
  simp only [Session.step] at h
  split at h
  next hgiven =>
    obtain ⟨rfl, hserver⟩ := hopen hgiven
    obtain ⟨c', hc', rfl⟩ := Option.map_eq_some_iff.mp h
    simp only [session] at hc'
    split at hc'
    next hstreams =>
      cases hc'
      rcases hlegal with @⟨received, hend⟩ | @⟨received, hmore, time, rc⟩
      · obtain ⟨c', hreach', hsame⟩ := exchange_ends hserver hend hstreams hP
        refine ⟨c', hreach.trans hreach', hsame, fun hno => ?_⟩
        simp only [Iteration.ends, decide_eq_true hend, Bool.true_or, Bool.not_true] at hno
        cases hno
      · have hreach' := exchange_answers hserver hmore rfl hstreams hP
        refine ⟨_, hreach.trans hreach', .inl rfl, fun hstays => ⟨rfl, ?_⟩⟩
        -- a client the server still has was not closed
        simp only [Iteration.ends, decide_eq_false (Int.not_le.mpr hmore), Bool.false_or] at hstays
        rw [Bool.not_eq_true'] at hstays
        simp only [exchange, hstays]
        exact hserver
    next => cases hc'
  next => cases h

theorem Converses.quit {s t : Conversation.State × Bool} (hs : Converses service P s)
    (h : (session service).step Iteration.ends s .quit = some t) : Converses service P t := by
  obtain ⟨c, hreach, hsame, -⟩ := hs
  simp only [Session.step] at h
  split at h
  next =>
    cases h
    refine ⟨c, hreach, hsame, fun hno => ?_⟩
    cases hno
  next => cases h

/-- **A client is alone with its server**: its session is that of a conversation. -/
theorem conversation_of_alone {c : Conversation.State} {given : Bool}
    (h : Alone (Legal service closesAtEnd) Iteration.ends (session service) (Meets P) (c, given)) :
    ∃ c', Reach (Conversation.step service) P Conversation.init c' ∧ Same c c' := by
  obtain ⟨c', hreach, hsame, -⟩ : Converses service P (c, given) := by
    refine h.invariant ?_ ⟨_, .refl _, .inl rfl, fun _ => ⟨rfl, rfl⟩⟩
    rintro s (e | i | _) t hs ⟨hmeets, hlegal⟩ hstep
    · exact hs.client hmeets hstep
    · exact hs.iterate (hlegal i rfl) hmeets hstep
    · exact hs.quit hstep
  exact ⟨c', hreach, hsame⟩

end Sessions

end LinuxNet.Tutorials.ManyClients
