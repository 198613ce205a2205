/-
# LinuxNet.Tutorials.UdpNetwork — the UDP server, all its clients and the network between them

One server and any number of clients of `10_peer_to_peer_client_server.c`, each at an address of its own, and
the packets under way. The network may lose a packet, hand it over twice, and hand over any packet first; a
packet that waits in the buffer of a socket is under way as well.

Nothing but the address tells a client who has sent a datagram, and it keeps the last sender as the one to ask
next. With only the server and its clients on the network that is enough (`Safe`): every client goes on asking
the server, and every text it shows is an answer of the server to a request of that very client, whatever the
network does to the packets.
-/
import LinuxNet.Tutorials.UdpServer
import Mathlib.Logic.Function.Basic

namespace LinuxNet.Tutorials.UdpNetwork

open LinuxNet.Lib
open LinuxNet.Tutorials.Conversation (messageSize requestOf leaves)
open LinuxNet.Tutorials.UdpClient (Address Datagram)
open LinuxNet.Tutorials.UdpServer (responseText)

/-! ## The parties and the packets -/

/-- A packet under way. -/
structure Packet where
  source : Address
  destination : Address
  bytes : Bytes
  deriving DecidableEq, Repr

/-- What `recvfrom` takes of a packet: a longer one is cut off. -/
def Packet.datagram (p : Packet) : Datagram := ⟨p.source, p.bytes.take messageSize⟩

/-- Where a client can be: the server's address is taken. -/
abbrev Client (server : Address) : Type := { a : Address // a ≠ server }

/-- A client, and what happened to it so far, oldest first: the requests that were sent, the answers the server
has sent to it (each with the time and the request), and the texts shown. -/
structure Party where
  client : UdpClient.State
  asked : List Bytes
  answered : List (Int × Bytes)
  shown : List Bytes

/-- The clients, the server, and the packets under way. -/
structure State (server : Address) where
  party : Client server → Party
  server : UdpServer.Phase
  packets : List Packet

/-- Every client has resolved the address of the server. -/
def init (server : Address) : State server where
  party _ := ⟨UdpClient.init server, [], [], []⟩
  server := .receiving
  packets := []

/-- What happens next. -/
inductive Event (server : Address) where
  /-- `fgets` of a client stores this line -/
  | types (a : Client server) (line : Bytes)
  /-- `sendto` of a client answers -/
  | asks (a : Client server) (rc : Int)
  /-- `recvfrom` takes this packet, at the client or the server it is for -/
  | arrives (p : Packet)
  /-- `recvfrom` of a client fails -/
  | clientFails (a : Client server)
  /-- `recvfrom` of the server fails -/
  | serverFails
  /-- the time the server asks for, and what its `sendto` answers -/
  | answers (time : Int) (rc : Int)
  /-- the network loses this packet -/
  | loses (p : Packet)
  /-- the network has this packet twice -/
  | repeats (p : Packet)

/-! ## One step -/

section Step

variable {server : Address}

/-- The state with another value for one client. -/
def State.set (s : State server) (a : Client server) (party : Party) : State server :=
  { s with party := Function.update s.party a party }

/-- The requests a client sends: a datagram is sent as a whole or not at all. -/
def requestsSent (client : UdpClient.State) (rc : Int) : List Bytes :=
  match client.phase with
  | .sending request => if rc ≠ request.length then [] else [request]
  | .typing | .waiting _ | .left => []

/-- What a client shows of what it gets. -/
def textsShown (d : Datagram) : List Bytes := if d.bytes = [] then [] else [cString d.bytes]

/-- What the server sends, and to whom. -/
def answersSent (phase : UdpServer.Phase) (time rc : Int) : List (Address × Int × Bytes) :=
  match phase with
  | .replying addr_client request =>
    if rc ≠ (responseText time).length then [] else [(addr_client, time, request)]
  | .receiving => []

/-- The answers to one client are written down with it. -/
def Party.answer (party : Party) (a : Client server) (sent : List (Address × Int × Bytes)) : Party :=
  { party with answered := party.answered ++ (sent.filter fun r => r.1 = a.val).map Prod.snd }

/-- `recvfrom` takes a packet at its destination. -/
def deliver (s : State server) (p : Packet) : Option (State server) :=
  if h : p.destination = server then
    (UdpServer.step s.server (.recvfrom (some p.datagram))).map fun phase => { s with server := phase }
  else
    let a : Client server := ⟨p.destination, h⟩
    (UdpClient.step (s.party a).client (.recvfrom (some p.datagram))).map fun client =>
      s.set a { s.party a with client := client, shown := (s.party a).shown ++ textsShown p.datagram }

/-- **One step of the system**: a step of one of the programs, or of the network. -/
def step (server : Address) (s : State server) : Event server → Option (State server)
  | .types a line =>
    (UdpClient.step (s.party a).client (.types line)).map fun client =>
      s.set a { s.party a with client := client }
  | .asks a rc =>
    let requests := requestsSent (s.party a).client rc
    (UdpClient.step (s.party a).client (.sendto rc)).map fun client =>
      { s.set a { s.party a with client := client, asked := (s.party a).asked ++ requests } with
        packets := s.packets ++ requests.map fun request => ⟨a, (s.party a).client.ai_addr, request⟩ }
  | .arrives p =>
    if p ∈ s.packets then (deliver s p).map fun t => { t with packets := s.packets.erase p } else none
  | .clientFails a =>
    (UdpClient.step (s.party a).client (.recvfrom none)).map fun client =>
      s.set a { s.party a with client := client }
  | .serverFails =>
    (UdpServer.step s.server (.recvfrom none)).map fun phase => { s with server := phase }
  | .answers time rc =>
    let sent := answersSent s.server time rc
    (UdpServer.step s.server (.sendto time rc)).map fun phase =>
      { s with
        server := phase
        party := fun a => (s.party a).answer a sent
        packets := s.packets ++ sent.map fun r => ⟨server, r.1, responseText r.2.1⟩ }
  | .loses p => if p ∈ s.packets then some { s with packets := s.packets.erase p } else none
  | .repeats p => if p ∈ s.packets then some { s with packets := p :: s.packets } else none

end Step

/-! ## What a step can do -/

section Inversion

variable {server : Address} {s t : State server} {e : Event server}

@[simp] theorem State.set_server (a : Client server) (party : Party) : (s.set a party).server = s.server := rfl

@[simp] theorem State.set_packets (a : Client server) (party : Party) :
    (s.set a party).packets = s.packets := rfl

@[simp] theorem State.set_party_self (a : Client server) (party : Party) : (s.set a party).party a = party :=
  Function.update_self ..

theorem State.set_party_of_ne {a b : Client server} (h : b ≠ a) (party : Party) :
    (s.set a party).party b = s.party b :=
  Function.update_of_ne h ..

/-- An answer is written down with the client it is sent to. -/
theorem Party.answer_self {party : Party} {a : Client server} {addr_client : Address} (h : addr_client = a)
    (r : Int × Bytes) :
    party.answer a [(addr_client, r)] = { party with answered := party.answered ++ [r] } := by
  subst h
  simp [Party.answer]

theorem Party.answer_of_ne {party : Party} {a : Client server} {addr_client : Address} (h : addr_client ≠ a)
    (r : Int × Bytes) : party.answer a [(addr_client, r)] = party := by
  simp [Party.answer, h]

theorem Party.answer_nil {party : Party} {a : Client server} : party.answer a [] = party := by
  simp [Party.answer]

/-- The state in which a client is somewhere else, and nothing else has changed. -/
def State.moveClient (s : State server) (a : Client server) (phase : UdpClient.Phase) : State server :=
  s.set a { s.party a with client := { (s.party a).client with phase := phase } }

/-- The state after an answer to this client. -/
def State.answer (s : State server) (addr_client : Address) (r : Int × Bytes) : State server where
  server := .receiving
  party a := (s.party a).answer a [(addr_client, r)]
  packets := s.packets ++ [⟨server, addr_client, responseText r.1⟩]

/-- **`Step s e t`** — everything one step of the system can do. -/
inductive Step (s : State server) : Event server → State server → Prop
  | types {a : Client server} {line : Bytes} (hphase : (s.party a).client.phase = .typing)
      (hlen : line.length < messageSize) :
      Step s (.types a line) (s.moveClient a (.sending (requestOf line)))
  | askFails {a : Client server} {request : Bytes} {rc : Int}
      (hphase : (s.party a).client.phase = .sending request) :
      Step s (.asks a rc) (s.moveClient a .typing)
  | asks {a : Client server} {request : Bytes} {rc : Int}
      (hphase : (s.party a).client.phase = .sending request) :
      Step s (.asks a rc)
        { s.set a
            { s.party a with
              client := { (s.party a).client with phase := .waiting request }
              asked := (s.party a).asked ++ [request] } with
          packets := s.packets ++ [⟨a, (s.party a).client.ai_addr, request⟩] }
  | clientFails {a : Client server} {request : Bytes}
      (hphase : (s.party a).client.phase = .waiting request) :
      Step s (.clientFails a) (s.moveClient a .typing)
  | shows {a : Client server} {p : Packet} {request : Bytes} {phase : UdpClient.Phase} (hp : p ∈ s.packets)
      (hto : p.destination = a) (hphase : (s.party a).client.phase = .waiting request)
      (hnext : phase = .typing ∨ phase = .left) :
      Step s (.arrives p)
        { s.set a
            { s.party a with
              client := ⟨phase, p.source⟩
              shown := (s.party a).shown ++ textsShown p.datagram } with
          packets := s.packets.erase p }
  | ignores {p : Packet} (hp : p ∈ s.packets) (hto : p.destination = server)
      (hserver : s.server = .receiving) (hnil : p.datagram.bytes = []) :
      Step s (.arrives p) { s with packets := s.packets.erase p }
  | receives {p : Packet} (hp : p ∈ s.packets) (hto : p.destination = server)
      (hserver : s.server = .receiving) (hne : p.datagram.bytes ≠ []) :
      Step s (.arrives p)
        { s with server := .replying p.source (cString p.datagram.bytes), packets := s.packets.erase p }
  | serverFails (hserver : s.server = .receiving) : Step s .serverFails s
  | answerFails {addr_client : Address} {request : Bytes} {time rc : Int}
      (hserver : s.server = .replying addr_client request) :
      Step s (.answers time rc) { s with server := .receiving }
  | answers {addr_client : Address} {request : Bytes} {time rc : Int}
      (hserver : s.server = .replying addr_client request) :
      Step s (.answers time rc) (s.answer addr_client (time, request))
  | loses {p : Packet} (hp : p ∈ s.packets) : Step s (.loses p) { s with packets := s.packets.erase p }
  | repeats {p : Packet} (hp : p ∈ s.packets) : Step s (.repeats p) { s with packets := p :: s.packets }

/-- A packet comes to a client or to the server. -/
theorem Step.of_deliver {p : Packet} (hp : p ∈ s.packets) (h : deliver s p = some t) :
    Step s (.arrives p) { t with packets := s.packets.erase p } := by
  unfold deliver at h
  split at h
  next hto =>
    obtain ⟨phase, hphase, rfl⟩ := Option.map_eq_some_iff.mp h
    rcases hserver : s.server with _ | ⟨addr_client, request⟩
    · rw [hserver] at hphase
      cases hphase
      show Step s _ { s with server := if p.datagram.bytes = [] then .receiving else _, packets := _ }
      split
      next hnil =>
        rw [← hserver]
        exact .ignores hp hto hserver hnil
      next hne => exact .receives hp hto hserver hne
    · rw [hserver] at hphase
      cases hphase
  next hto =>
    obtain ⟨client, hclient, rfl⟩ := Option.map_eq_some_iff.mp h
    cases UdpClient.Step.of_step hclient with
    | recvs hphase hnext => exact .shows (a := ⟨p.destination, hto⟩) hp rfl hphase hnext

/-- **The inversion lemma.** -/
theorem Step.of_step (h : step server s e = some t) : Step s e t := by
  rcases e with ⟨a, line⟩ | ⟨a, rc⟩ | p | a | _ | ⟨time, rc⟩ | p | p
  case types =>
    obtain ⟨client, hclient, rfl⟩ := Option.map_eq_some_iff.mp h
    cases UdpClient.Step.of_step hclient with
    | types hphase hlen => exact .types hphase hlen
  case asks =>
    obtain ⟨client, hclient, rfl⟩ := Option.map_eq_some_iff.mp h
    cases UdpClient.Step.of_step hclient with
    | sendFails hphase hshort =>
        have hnone : requestsSent (s.party a).client rc = [] := by
          rw [requestsSent, hphase]
          exact if_pos hshort
        simp only [hnone, List.append_nil, List.map_nil]
        exact .askFails hphase
    | @sends request _ hphase hall =>
        have hone : requestsSent (s.party a).client rc = [request] := by
          rw [requestsSent, hphase]
          exact if_neg (not_not.mpr hall)
        simp only [hone, List.map_cons, List.map_nil]
        exact .asks hphase
  case arrives =>
    simp only [step] at h
    split at h
    next hp =>
      obtain ⟨u, hu, rfl⟩ := Option.map_eq_some_iff.mp h
      exact .of_deliver hp hu
    next => cases h
  case clientFails =>
    obtain ⟨client, hclient, rfl⟩ := Option.map_eq_some_iff.mp h
    cases UdpClient.Step.of_step hclient with
    | recvFails hphase => exact .clientFails hphase
  case serverFails =>
    obtain ⟨phase, hphase, rfl⟩ := Option.map_eq_some_iff.mp h
    rcases hserver : s.server with _ | ⟨addr_client, request⟩
    · rw [hserver] at hphase
      cases hphase
      show Step s _ { s with server := .receiving }
      rw [← hserver]
      exact .serverFails hserver
    · rw [hserver] at hphase
      cases hphase
  case answers =>
    obtain ⟨phase, hphase, rfl⟩ := Option.map_eq_some_iff.mp h
    rcases hserver : s.server with _ | ⟨addr_client, request⟩
    · rw [hserver] at hphase
      cases hphase
    · rw [hserver] at hphase
      cases hphase
      simp only [answersSent]
      split
      next =>
        simp only [Party.answer_nil, List.map_nil, List.append_nil]
        exact .answerFails hserver
      next => exact .answers hserver
  case loses =>
    simp only [step] at h
    split at h
    next hp =>
      cases h
      exact .loses hp
    next => cases h
  case repeats =>
    simp only [step] at h
    split at h
    next hp =>
      cases h
      exact .repeats hp
    next => cases h

end Inversion

/-! ## What is under way, and who has sent it -/

section Safe

variable {server : Address} {s t : State server} {e : Event server}

/-- What a client can type: no NUL, and room for one in the buffer. -/
def IsRequest (request : Bytes) : Prop := (0 : UInt8) ∉ request ∧ request.length < messageSize

/-- A client that asks the server, and shows what the server has answered. -/
structure PartySafe (server : Address) (party : Party) : Prop where
  resolved : party.client.ai_addr = server
  sending : ∀ request, party.client.phase = .sending request → IsRequest request
  asked : ∀ request ∈ party.asked, IsRequest request
  answered : ∀ r ∈ party.answered, r.2 ∈ party.asked ∧ r.2 ≠ []
  shown : ∀ text ∈ party.shown, ∃ r ∈ party.answered, text = responseText r.1

/-- A packet is a request of a client, or an answer to one. -/
inductive PacketSafe (s : State server) : Packet → Prop
  | request (a : Client server) {request : Bytes} (h : request ∈ (s.party a).asked) :
      PacketSafe s ⟨a, server, request⟩
  | answer (a : Client server) {r : Int × Bytes} (h : r ∈ (s.party a).answered) :
      PacketSafe s ⟨server, a, responseText r.1⟩

/-- **The invariant of the system.** -/
structure Safe (s : State server) : Prop where
  party : ∀ a, PartySafe server (s.party a)
  packet : ∀ p ∈ s.packets, PacketSafe s p
  replying : ∀ addr_client request, s.server = .replying addr_client request →
    ∃ a : Client server, addr_client = a ∧ request ∈ (s.party a).asked ∧ request ≠ []

/-- What has been asked and answered stays so. -/
structure Extends (before after : Client server → Party) : Prop where
  asked : ∀ a, (before a).asked ⊆ (after a).asked
  answered : ∀ a, (before a).answered ⊆ (after a).answered

theorem Extends.refl (party : Client server → Party) : Extends party party :=
  ⟨fun _ => List.Subset.refl _, fun _ => List.Subset.refl _⟩

theorem PacketSafe.mono {p : Packet} (h : PacketSafe s p) (hext : Extends s.party t.party) :
    PacketSafe t p := by
  rcases h with ⟨a, h⟩ | ⟨a, h⟩
  · exact .request a (hext.asked a h)
  · exact .answer a (hext.answered a h)

/-- Every packet fits into the buffer it is received in, with room for the NUL behind it. -/
theorem Safe.length_lt (hs : Safe s) {p : Packet} (hp : p ∈ s.packets) : p.bytes.length < messageSize := by
  rcases hs.packet p hp with ⟨a, h⟩ | ⟨a, -⟩
  · exact ((hs.party a).asked _ h).2
  · exact UdpServer.length_responseText_lt _

/-- So nothing is cut off. -/
theorem Safe.datagram (hs : Safe s) {p : Packet} (hp : p ∈ s.packets) : p.datagram = ⟨p.source, p.bytes⟩ := by
  rw [Packet.datagram, List.take_of_length_le (hs.length_lt hp).le]

/-- A packet for the server is a request. -/
theorem Safe.request_of_destination (hs : Safe s) {p : Packet} (hp : p ∈ s.packets)
    (hto : p.destination = server) : ∃ a : Client server, p.source = a ∧ p.bytes ∈ (s.party a).asked := by
  rcases hs.packet p hp with ⟨a, h⟩ | ⟨a, -⟩
  · exact ⟨a, rfl, h⟩
  · exact absurd hto a.property

/-- A packet for a client is an answer to one of its requests. -/
theorem Safe.answer_of_destination (hs : Safe s) {p : Packet} {a : Client server} (hp : p ∈ s.packets)
    (hto : p.destination = a) :
    p.source = server ∧ ∃ r ∈ (s.party a).answered, p.bytes = responseText r.1 := by
  rcases hs.packet p hp with ⟨b, -⟩ | ⟨b, h⟩
  · exact absurd hto.symm a.property
  · obtain rfl : b = a := Subtype.ext hto
    exact ⟨rfl, _, h, rfl⟩

/-- What the server takes of a request is the request. -/
theorem Safe.cString_bytes (hs : Safe s) {p : Packet} (hp : p ∈ s.packets) (hto : p.destination = server) :
    cString p.datagram.bytes = p.bytes := by
  obtain ⟨a, -, h⟩ := hs.request_of_destination hp hto
  rw [hs.datagram hp]
  exact cString_of_notMem ((hs.party a).asked _ h).1

/-- What a client shows is the answer. -/
theorem Safe.textsShown_eq (hs : Safe s) {p : Packet} {a : Client server} (hp : p ∈ s.packets)
    (hto : p.destination = a) : textsShown p.datagram = [p.bytes] := by
  obtain ⟨-, r, -, hbytes⟩ := hs.answer_of_destination hp hto
  rw [hs.datagram hp, textsShown, hbytes, if_neg (UdpServer.responseText_ne_nil _),
    UdpServer.cString_responseText]

/-! ## The steps of the parties -/

/-- A step after which there are no other packets than before. -/
theorem Safe.of_packets (hs : Safe s) {packets : List Packet} (h : ∀ p ∈ packets, p ∈ s.packets) :
    Safe { s with packets := packets } :=
  ⟨hs.party, fun p hp => (hs.packet p (h p hp)).mono (.refl _), hs.replying⟩

/-- What holds of the new value of one client and of all others holds of all. -/
theorem State.forall_set {P : Party → Prop} {a : Client server} {party : Party} (ha : P party)
    (hs : ∀ b, P (s.party b)) (b : Client server) : P ((s.set a party).party b) := by
  by_cases hb : b = a
  · subst hb
    rw [State.set_party_self]
    exact ha
  · rw [State.set_party_of_ne hb]
    exact hs b

/-- One client has asked and been answered more. -/
theorem Extends.update {before : Client server → Party} {a : Client server} {party : Party}
    (hasked : (before a).asked ⊆ party.asked) (hanswered : (before a).answered ⊆ party.answered) :
    Extends before (Function.update before a party) := by
  have hboth (b : Client server) : (before b).asked ⊆ (Function.update before a party b).asked ∧
      (before b).answered ⊆ (Function.update before a party b).answered := by
    by_cases hb : b = a
    · subst hb
      rw [Function.update_self]
      exact ⟨hasked, hanswered⟩
    · rw [Function.update_of_ne hb]
      exact ⟨List.Subset.refl _, List.Subset.refl _⟩
  exact ⟨fun b => (hboth b).1, fun b => (hboth b).2⟩

/-- What a step has to see to. -/
theorem Safe.of_extends (hs : Safe s) (hext : Extends s.party t.party)
    (hparty : ∀ a, PartySafe server (t.party a))
    (hpackets : ∀ p ∈ t.packets, p ∈ s.packets ∨ PacketSafe t p)
    (hserver : ∀ addr_client request, t.server = .replying addr_client request →
      s.server = .replying addr_client request ∨
        ∃ a : Client server, addr_client = a ∧ request ∈ (t.party a).asked ∧ request ≠ []) : Safe t := by
  refine ⟨hparty, fun p hp => ?_, fun addr_client request hreplying => ?_⟩
  · rcases hpackets p hp with hold | hnew
    · exact (hs.packet p hold).mono hext
    · exact hnew
  · rcases hserver addr_client request hreplying with hold | hnew
    · obtain ⟨a, haddr, hin, hne⟩ := hs.replying addr_client request hold
      exact ⟨a, haddr, hext.asked a hin, hne⟩
    · exact hnew

/-- One client is somewhere else. -/
theorem Safe.moveClient (hs : Safe s) (a : Client server) {phase : UdpClient.Phase}
    (hphase : ∀ request, phase = .sending request → IsRequest request) : Safe (s.moveClient a phase) := by
  have ha := hs.party a
  refine hs.of_extends (.update (List.Subset.refl _) (List.Subset.refl _)) ?_ (fun _ hp => .inl hp)
    fun _ _ h => .inl h
  exact State.forall_set ⟨ha.resolved, hphase, ha.asked, ha.answered, ha.shown⟩ hs.party

/-- A client has sent its request. -/
theorem Safe.asks (hs : Safe s) {a : Client server} {request : Bytes}
    (hphase : (s.party a).client.phase = .sending request) :
    Safe
      { s.set a
          { s.party a with
            client := { (s.party a).client with phase := .waiting request }
            asked := (s.party a).asked ++ [request] } with
        packets := s.packets ++ [⟨a, (s.party a).client.ai_addr, request⟩] } := by
  have ha := hs.party a
  have hsub : (s.party a).asked ⊆ (s.party a).asked ++ [request] := List.subset_append_left _ _
  refine hs.of_extends (.update hsub (List.Subset.refl _)) ?_ ?_ fun _ _ h => .inl h
  · refine State.forall_set (P := PartySafe server) ?_ hs.party
    refine ⟨ha.resolved, (by intro _ h; cases h), ?_, ?_, ha.shown⟩
    · rw [List.forall_mem_append, List.forall_mem_singleton]
      exact ⟨ha.asked, ha.sending request hphase⟩
    · intro r hr
      exact ⟨hsub (ha.answered r hr).1, (ha.answered r hr).2⟩
  · intro p hp
    rcases List.mem_append.mp hp with hold | hnew
    · exact .inl hold
    · rw [List.mem_singleton] at hnew
      subst hnew
      rw [ha.resolved]
      refine .inr (.request a ?_)
      show request ∈ ((s.set a _).party a).asked
      rw [State.set_party_self]
      exact List.mem_append_right _ (List.mem_singleton_self _)

/-- A client has taken a packet. -/
theorem Safe.shows (hs : Safe s) {a : Client server} {p : Packet} {phase : UdpClient.Phase}
    (hp : p ∈ s.packets) (hto : p.destination = a) (hnext : phase = .typing ∨ phase = .left) :
    Safe
      { s.set a
          { s.party a with
            client := ⟨phase, p.source⟩
            shown := (s.party a).shown ++ textsShown p.datagram } with
        packets := s.packets.erase p } := by
  have ha := hs.party a
  obtain ⟨hsource, r, hr, hbytes⟩ := hs.answer_of_destination hp hto
  refine hs.of_extends (.update (List.Subset.refl _) (List.Subset.refl _)) ?_
    (fun q hq => .inl (List.mem_of_mem_erase hq)) fun _ _ h => .inl h
  refine State.forall_set ?_ hs.party
  refine ⟨hsource, fun request h => ?_, ha.asked, ha.answered, ?_⟩
  · have hphase : phase = .sending request := h
    subst hphase
    rcases hnext with hno | hno
    · cases hno
    · cases hno
  · rw [List.forall_mem_append, hs.textsShown_eq hp hto, List.forall_mem_singleton]
    exact ⟨ha.shown, r, hr, hbytes⟩

/-- The server has taken a request. -/
theorem Safe.receives (hs : Safe s) {p : Packet} (hp : p ∈ s.packets) (hto : p.destination = server)
    (hne : p.datagram.bytes ≠ []) :
    Safe
      { s with server := .replying p.source (cString p.datagram.bytes), packets := s.packets.erase p } := by
  obtain ⟨a, hsource, hin⟩ := hs.request_of_destination hp hto
  refine hs.of_extends (.refl _) hs.party
    (fun q hq => .inl (List.mem_of_mem_erase hq)) fun addr_client request h => .inr ⟨a, ?_⟩
  obtain ⟨rfl, rfl⟩ := UdpServer.Phase.replying.inj h
  rw [hs.datagram hp] at hne
  rw [hs.cString_bytes hp hto]
  exact ⟨hsource, hin, hne⟩

/-- The server has sent an answer. -/
theorem Safe.answers (hs : Safe s) {addr_client : Address} {request : Bytes}
    (hserver : s.server = .replying addr_client request) (time : Int) :
    Safe (s.answer addr_client (time, request)) := by
  obtain ⟨a, rfl, hin, hne⟩ := hs.replying addr_client request hserver
  have hself : (s.party a).answer a [(a.val, (time, request))] = _ := Party.answer_self rfl (time, request)
  have hother {b : Client server} (hb : b ≠ a) : (s.party b).answer b [(a.val, (time, request))] = s.party b :=
    Party.answer_of_ne (fun h => hb (Subtype.ext h.symm)) _
  refine hs.of_extends ⟨fun b => List.Subset.refl _, fun b => List.subset_append_left _ _⟩ ?_ ?_ ?_
  · intro b
    by_cases hb : b = a
    · subst hb
      have hparty := hs.party b
      show PartySafe server ((s.party b).answer b [(b.val, (time, request))])
      rw [hself]
      refine ⟨hparty.resolved, hparty.sending, hparty.asked, ?_, ?_⟩
      · rw [List.forall_mem_append, List.forall_mem_singleton]
        exact ⟨hparty.answered, hin, hne⟩
      · intro text htext
        obtain ⟨r, hr, hshown⟩ := hparty.shown text htext
        exact ⟨r, List.mem_append_left _ hr, hshown⟩
    · show PartySafe server ((s.party b).answer b [(a.val, (time, request))])
      rw [hother hb]
      exact hs.party b
  · intro p hp
    rcases List.mem_append.mp hp with hold | hnew
    · exact .inl hold
    · rw [List.mem_singleton] at hnew
      subst hnew
      refine .inr (.answer a ?_)
      show (time, request) ∈ ((s.party a).answer a [(a.val, (time, request))]).answered
      rw [hself]
      exact List.mem_append_right _ (List.mem_singleton_self _)
  · intro _ _ h
    cases h

/-! ## The step lemma and the run lemma -/

theorem isRequest_requestOf {line : Bytes} (hlen : line.length < messageSize) : IsRequest (requestOf line) := by
  have hsub : (requestOf line).Sublist (cString line) := List.takeWhile_sublist _
  refine ⟨fun h => nul_notMem_cString line (hsub.subset h), ?_⟩
  exact (hsub.length_le.trans (List.takeWhile_sublist _).length_le).trans_lt hlen

/-- **The step lemma.** -/
theorem Safe.of_step (hs : Safe s) (h : step server s e = some t) : Safe t := by
  have herase (p : Packet) : ∀ q ∈ s.packets.erase p, q ∈ s.packets := fun _ => List.mem_of_mem_erase
  cases Step.of_step h with
  | @types a line _ hlen =>
      refine hs.moveClient a fun request h => ?_
      obtain rfl := UdpClient.Phase.sending.inj h
      exact isRequest_requestOf hlen
  | @askFails a => exact hs.moveClient a fun _ h => by cases h
  | asks hphase => exact hs.asks hphase
  | @clientFails a => exact hs.moveClient a fun _ h => by cases h
  | shows hp hto _ hnext => exact hs.shows hp hto hnext
  | @ignores p => exact hs.of_packets (herase p)
  | receives hp hto _ hne => exact hs.receives hp hto hne
  | serverFails => exact hs
  | answerFails =>
      exact hs.of_extends (.refl _) hs.party
        (fun _ hp => .inl hp) fun _ _ h => by cases h
  | answers hserver => exact hs.answers hserver _
  | @loses p => exact hs.of_packets (herase p)
  | repeats hp =>
      refine hs.of_packets ?_
      rw [List.forall_mem_cons]
      exact ⟨hp, fun _ hq => hq⟩

theorem safe_init : Safe (init server) := by
  refine ⟨fun a => ⟨rfl, ?_, ?_, ?_, ?_⟩, ?_, ?_⟩
  · intro _ h
    cases h
  · exact List.forall_mem_nil _
  · exact List.forall_mem_nil _
  · exact List.forall_mem_nil _
  · exact List.forall_mem_nil _
  · intro _ _ h
    cases h

theorem Safe.of_reach {ok : State server → Event server → Prop}
    (h : Reach (step server) ok (init server) s) : Safe s :=
  h.invariant (I := Safe) (fun _ _ _ hs _ hstep => hs.of_step hstep) safe_init

end Safe

/-- **What the clients of the UDP server see.** Whatever is typed and whatever fails, and whatever the network
loses, repeats or hands over late: every client goes on asking the server it has resolved, every text it shows
is an answer the server has sent to a request of that very client, and no packet fills the buffer it is
received in, so that the NUL behind it stays inside. -/
theorem answers_of_reach (server : Address) {s : State server}
    (h : Reach (step server) (fun _ _ => True) (init server) s) :
    (∀ a, (s.party a).client.ai_addr = server ∧ ∀ text ∈ (s.party a).shown, ∃ time request,
      (time, request) ∈ (s.party a).answered ∧ request ∈ (s.party a).asked ∧ request ≠ [] ∧
        text = responseText time) ∧
      ∀ p ∈ s.packets, p.bytes.length < messageSize := by
  have hs := Safe.of_reach h
  refine ⟨fun a => ⟨(hs.party a).resolved, fun text htext => ?_⟩, fun p hp => hs.length_lt hp⟩
  obtain ⟨⟨time, request⟩, hr, hshown⟩ := (hs.party a).shown text htext
  obtain ⟨hin, hne⟩ := (hs.party a).answered _ hr
  exact ⟨time, request, hr, hin, hne, hshown⟩

/-- A client on the same host. -/
def guest : Client UdpClient.server := ⟨UdpClient.stranger, by decide⟩

/-- The guest asks for the time, the network has the request twice, and so the guest gets an answer. -/
def asksTwice : List (Event UdpClient.server) :=
  [.types guest (ofText "time\n"), .asks guest 4, .repeats ⟨guest, UdpClient.server, ofText "time"⟩,
    .arrives ⟨guest, UdpClient.server, ofText "time"⟩, .answers 7 28,
    .arrives ⟨UdpClient.server, guest, responseText 7⟩]

theorem answers_of_reach_asksTwice : ∃ s, Reach (step UdpClient.server) (fun _ _ => True) (init _) s ∧
    (s.party guest).shown = [responseText 7] ∧ (s.party guest).client.ai_addr = UdpClient.server := by
  have hexec : (execOk (step UdpClient.server) (fun _ _ => True) (init _) asksTwice).any
      (fun s => (s.party guest).shown = [responseText 7]) = true := by decide
  obtain ⟨s, hreach, hshown⟩ := exists_reach_of_exec hexec
  exact ⟨s, hreach, of_decide_eq_true hshown, ((answers_of_reach _ hreach).1 guest).1⟩

end LinuxNet.Tutorials.UdpNetwork
