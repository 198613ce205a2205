/-
# LinuxNet.Tutorials.UdpExchange — the UDP server as one of its clients sees it

Of the whole system a client can notice its own place in its loop, the bytes under way to and from it, and
whether the server is just answering it (`View`). Seen like this the system is one client and one server again:
each step either leaves the view as it is or is a step of `Exchange`, whatever the other clients do and whatever
happens to their packets (`exchange_of_step`).
-/
import LinuxNet.Lib.View
import LinuxNet.Tutorials.UdpNetwork

namespace LinuxNet.Tutorials.UdpExchange

open LinuxNet.Lib
open LinuxNet.Tutorials.Conversation (requestOf)
open LinuxNet.Tutorials.UdpClient (Address)
open LinuxNet.Tutorials.UdpServer (responseText)
open LinuxNet.Tutorials.UdpNetwork

variable {server : Address} {s t : State server} {e : Event server} {a : Client server}

/-! ## What a client can notice -/

/-- What a client can notice of the system. -/
structure View where
  phase : UdpClient.Phase
  asked : List Bytes
  answered : List (Int × Bytes)
  shown : List Bytes
  /-- its requests under way -/
  toServer : List Bytes
  /-- the answers under way to it -/
  toClient : List Bytes
  /-- its request that the server answers now -/
  serving : Option Bytes

/-- A packet as a request of this client. -/
def requestBytes (a : Client server) (p : Packet) : Option Bytes :=
  if p.source = a ∧ p.destination = server then some p.bytes else none

/-- A packet as an answer to this client. -/
def answerBytes (a : Client server) (p : Packet) : Option Bytes :=
  if p.source = server ∧ p.destination = a then some p.bytes else none

/-- The request the server answers now, if it is one of this client. -/
def servingRequest (a : Client server) : UdpServer.Phase → Option Bytes
  | .receiving => none
  | .replying addr_client request => if addr_client = a then some request else none

/-- The system as this client sees it. -/
def view (a : Client server) (s : State server) : View where
  phase := (s.party a).client.phase
  asked := (s.party a).asked
  answered := (s.party a).answered
  shown := (s.party a).shown
  toServer := s.packets.filterMap (requestBytes a)
  toClient := s.packets.filterMap (answerBytes a)
  serving := servingRequest a s.server

theorem packet_eq {p : Packet} {source destination : Address} (hsource : p.source = source)
    (hdestination : p.destination = destination) : p = ⟨source, destination, p.bytes⟩ := by
  subst hsource hdestination
  rfl

theorem requestBytes_eq_some_iff {p : Packet} {bytes : Bytes} :
    requestBytes a p = some bytes ↔ p = ⟨a, server, bytes⟩ := by
  unfold requestBytes
  constructor
  · intro h
    split at h
    next hends =>
      cases h
      exact packet_eq hends.1 hends.2
    next => cases h
  · rintro rfl
    exact if_pos ⟨rfl, rfl⟩

theorem answerBytes_eq_some_iff {p : Packet} {bytes : Bytes} :
    answerBytes a p = some bytes ↔ p = ⟨server, a, bytes⟩ := by
  unfold answerBytes
  constructor
  · intro h
    split at h
    next hends =>
      cases h
      exact packet_eq hends.1 hends.2
    next => cases h
  · rintro rfl
    exact if_pos ⟨rfl, rfl⟩

theorem mem_toServer_iff {bytes : Bytes} : bytes ∈ (view a s).toServer ↔ ⟨a, server, bytes⟩ ∈ s.packets := by
  show bytes ∈ s.packets.filterMap (requestBytes a) ↔ _
  rw [List.mem_filterMap]
  constructor
  · rintro ⟨p, hp, heq⟩
    obtain rfl := requestBytes_eq_some_iff.mp heq
    exact hp
  · intro hp
    exact ⟨_, hp, requestBytes_eq_some_iff.mpr rfl⟩

theorem mem_toClient_iff {bytes : Bytes} : bytes ∈ (view a s).toClient ↔ ⟨server, a, bytes⟩ ∈ s.packets := by
  show bytes ∈ s.packets.filterMap (answerBytes a) ↔ _
  rw [List.mem_filterMap]
  constructor
  · rintro ⟨p, hp, heq⟩
    obtain rfl := answerBytes_eq_some_iff.mp heq
    exact hp
  · intro hp
    exact ⟨_, hp, answerBytes_eq_some_iff.mpr rfl⟩

/-! ## One client and one server -/

/-- **`Exchange a v e w`** — what a step can do to the view of the client. -/
inductive Exchange (a : Client server) (v : View) : Event server → View → Prop
  | types {line : Bytes} (hphase : v.phase = .typing) :
      Exchange a v (.types a line) { v with phase := .sending (requestOf line) }
  | askFails {request : Bytes} {rc : Int} (hphase : v.phase = .sending request) :
      Exchange a v (.asks a rc) { v with phase := .typing }
  | asks {request : Bytes} {rc : Int} (hphase : v.phase = .sending request) :
      Exchange a v (.asks a rc)
        { v with phase := .waiting request, asked := v.asked ++ [request], toServer := v.toServer ++ [request] }
  | clientFails {request : Bytes} (hphase : v.phase = .waiting request) :
      Exchange a v (.clientFails a) { v with phase := .typing }
  | shows {request text : Bytes} {phase : UdpClient.Phase} (htext : text ∈ v.toClient)
      (hphase : v.phase = .waiting request) (hnext : phase = .typing ∨ phase = .left) :
      Exchange a v (.arrives ⟨server, a, text⟩)
        { v with phase := phase, shown := v.shown ++ [text], toClient := v.toClient.erase text }
  | ignores (hin : [] ∈ v.toServer) (hfree : v.serving = none) :
      Exchange a v (.arrives ⟨a, server, []⟩) { v with toServer := v.toServer.erase [] }
  | receives {request : Bytes} (hin : request ∈ v.toServer) (hne : request ≠ []) (hfree : v.serving = none) :
      Exchange a v (.arrives ⟨a, server, request⟩)
        { v with serving := some request, toServer := v.toServer.erase request }
  | answerFails {request : Bytes} {time rc : Int} (hserving : v.serving = some request) :
      Exchange a v (.answers time rc) { v with serving := none }
  | answers {request : Bytes} {time rc : Int} (hserving : v.serving = some request) :
      Exchange a v (.answers time rc)
        { v with
          serving := none
          answered := v.answered ++ [(time, request)]
          toClient := v.toClient ++ [responseText time] }
  | losesRequest {request : Bytes} (hin : request ∈ v.toServer) :
      Exchange a v (.loses ⟨a, server, request⟩) { v with toServer := v.toServer.erase request }
  | losesAnswer {text : Bytes} (hin : text ∈ v.toClient) :
      Exchange a v (.loses ⟨server, a, text⟩) { v with toClient := v.toClient.erase text }
  | repeatsRequest {request : Bytes} (hin : request ∈ v.toServer) :
      Exchange a v (.repeats ⟨a, server, request⟩) { v with toServer := request :: v.toServer }
  | repeatsAnswer {text : Bytes} (hin : text ∈ v.toClient) :
      Exchange a v (.repeats ⟨server, a, text⟩) { v with toClient := text :: v.toClient }

theorem Exchange.of_eq {v w w' : View} (h : Exchange a v e w) (heq : w' = w) : Exchange a v e w' := heq ▸ h

/-! ## What the steps of the system do to the view -/

section Packets

variable {p : Packet}

/-- A packet of somebody else. -/
def Foreign (a : Client server) (p : Packet) : Prop := requestBytes a p = none ∧ answerBytes a p = none

theorem answerBytes_request (bytes : Bytes) : answerBytes a ⟨a, server, bytes⟩ = none :=
  if_neg fun h => a.property h.1

theorem requestBytes_answer (bytes : Bytes) : requestBytes a ⟨server, a, bytes⟩ = none :=
  if_neg fun h => a.property h.1.symm

/-- Every packet is a request of the client, an answer to it, or none of its business. -/
theorem packet_cases (a : Client server) (p : Packet) :
    p = ⟨a, server, p.bytes⟩ ∨ p = ⟨server, a, p.bytes⟩ ∨ Foreign a p := by
  by_cases hrequest : p.source = a ∧ p.destination = server
  · exact .inl (packet_eq hrequest.1 hrequest.2)
  · by_cases hanswer : p.source = server ∧ p.destination = a
    · exact .inr (.inl (packet_eq hanswer.1 hanswer.2))
    · exact .inr (.inr ⟨if_neg hrequest, if_neg hanswer⟩)

theorem view_erase_foreign (h : Foreign a p) : view a { s with packets := s.packets.erase p } = view a s := by
  simp only [view, filterMap_erase_of_none h.1, filterMap_erase_of_none h.2]

theorem view_erase_request (bytes : Bytes) :
    view a { s with packets := s.packets.erase ⟨a, server, bytes⟩ } =
      { view a s with toServer := (view a s).toServer.erase bytes } := by
  simp only [view, filterMap_erase_of_none (answerBytes_request bytes),
    filterMap_erase_of_some (f := requestBytes a) (fun _ => requestBytes_eq_some_iff.mp)
      (requestBytes_eq_some_iff.mpr rfl)]

theorem view_erase_answer (bytes : Bytes) :
    view a { s with packets := s.packets.erase ⟨server, a, bytes⟩ } =
      { view a s with toClient := (view a s).toClient.erase bytes } := by
  simp only [view, filterMap_erase_of_none (requestBytes_answer bytes),
    filterMap_erase_of_some (f := answerBytes a) (fun _ => answerBytes_eq_some_iff.mp)
      (answerBytes_eq_some_iff.mpr rfl)]

theorem view_append_foreign (h : Foreign a p) :
    view a { s with packets := s.packets ++ [p] } = view a s := by
  simp only [view, List.filterMap_append, List.filterMap_cons_none h.1, List.filterMap_cons_none h.2,
    List.filterMap_nil, List.append_nil]

theorem view_append_request (bytes : Bytes) :
    view a { s with packets := s.packets ++ [⟨a, server, bytes⟩] } =
      { view a s with toServer := (view a s).toServer ++ [bytes] } := by
  simp only [view, List.filterMap_append, List.filterMap_cons_none (answerBytes_request bytes),
    List.filterMap_cons_some (requestBytes_eq_some_iff.mpr rfl), List.filterMap_nil, List.append_nil]

theorem view_append_answer (bytes : Bytes) :
    view a { s with packets := s.packets ++ [⟨server, a, bytes⟩] } =
      { view a s with toClient := (view a s).toClient ++ [bytes] } := by
  simp only [view, List.filterMap_append, List.filterMap_cons_none (requestBytes_answer bytes),
    List.filterMap_cons_some (answerBytes_eq_some_iff.mpr rfl), List.filterMap_nil, List.append_nil]

theorem view_cons_foreign (h : Foreign a p) : view a { s with packets := p :: s.packets } = view a s := by
  simp only [view, List.filterMap_cons_none h.1, List.filterMap_cons_none h.2]

theorem view_cons_request (bytes : Bytes) :
    view a { s with packets := ⟨a, server, bytes⟩ :: s.packets } =
      { view a s with toServer := bytes :: (view a s).toServer } := by
  simp only [view, List.filterMap_cons_none (answerBytes_request bytes),
    List.filterMap_cons_some (requestBytes_eq_some_iff.mpr rfl)]

theorem view_cons_answer (bytes : Bytes) :
    view a { s with packets := ⟨server, a, bytes⟩ :: s.packets } =
      { view a s with toClient := bytes :: (view a s).toClient } := by
  simp only [view, List.filterMap_cons_none (requestBytes_answer bytes),
    List.filterMap_cons_some (answerBytes_eq_some_iff.mpr rfl)]

/-- A request of another client. -/
theorem foreign_of_source {b : Client server} (hb : b ≠ a) (hsource : p.source = b) : Foreign a p := by
  have hne : p.source ≠ a := fun h => hb (Subtype.ext (hsource.symm.trans h))
  have hne' : p.source ≠ server := fun h => b.property (hsource.symm.trans h)
  exact ⟨if_neg fun h => hne h.1, if_neg fun h => hne' h.1⟩

/-- An answer to another client. -/
theorem foreign_of_destination {b : Client server} (hb : b ≠ a) (hdestination : p.destination = b) :
    Foreign a p := by
  have hne : p.destination ≠ a := fun h => hb (Subtype.ext (hdestination.symm.trans h))
  have hne' : p.destination ≠ server := fun h => b.property (hdestination.symm.trans h)
  exact ⟨if_neg fun h => hne' h.2, if_neg fun h => hne h.2⟩

end Packets

section Parties

variable {b : Client server}

/-- Another client, and packets of others. -/
theorem view_set_of_ne (hb : b ≠ a) (party : Party) : view a (s.set b party) = view a s := by
  simp only [view, State.set_party_of_ne hb.symm, State.set_server, State.set_packets]

/-- This client, and packets of others. -/
theorem view_set_self (party : Party) : view a (s.set a party) =
    { view a s with
      phase := party.client.phase
      asked := party.asked
      answered := party.answered
      shown := party.shown } := by
  simp only [view, State.set_party_self, State.set_server, State.set_packets]

theorem view_moveClient_of_ne (hb : b ≠ a) (phase : UdpClient.Phase) :
    view a (s.moveClient b phase) = view a s :=
  view_set_of_ne hb _

theorem view_moveClient_self (phase : UdpClient.Phase) :
    view a (s.moveClient a phase) = { view a s with phase := phase } := by
  rw [State.moveClient, view_set_self]
  rfl

theorem servingRequest_self (request : Bytes) : servingRequest a (.replying a request) = some request :=
  if_pos rfl

theorem servingRequest_of_ne (hb : b ≠ a) (request : Bytes) : servingRequest a (.replying b request) = none :=
  if_neg fun h => hb (Subtype.ext h)

theorem servingRequest_receiving : servingRequest a .receiving = none := rfl

/-- The server has answered this client. -/
theorem view_answer_self (r : Int × Bytes) : view a (s.answer a r) =
    { view a s with
      answered := (view a s).answered ++ [r]
      toClient := (view a s).toClient ++ [responseText r.1]
      serving := none } := by
  have hparty : (s.answer a r).party a = { s.party a with answered := (s.party a).answered ++ [r] } :=
    Party.answer_self rfl r
  have hview := view_append_answer (a := a) (s := { s with server := .receiving }) (responseText r.1)
  simp only [view, hparty] at hview ⊢
  exact congrArg (fun v : View => { v with answered := (s.party a).answered ++ [r] }) hview

/-- The server has answered another client. -/
theorem view_answer_of_ne (hb : b ≠ a) (r : Int × Bytes) :
    view a (s.answer b r) = { view a s with serving := none } := by
  have hparty : (s.answer b r).party a = s.party a := Party.answer_of_ne (fun h => hb (Subtype.ext h)) r
  have hforeign : Foreign a ⟨server, b, responseText r.1⟩ := foreign_of_destination hb rfl
  have hview := view_append_foreign (s := { s with server := .receiving }) hforeign
  simp only [view, hparty] at hview ⊢
  exact hview

/-- A client has sent its request. -/
theorem exchange_asks (hs : Safe s) {request : Bytes} {rc : Int}
    (hphase : (s.party b).client.phase = .sending request) (ht : t =
      { s.set b
          { s.party b with
            client := { (s.party b).client with phase := .waiting request }
            asked := (s.party b).asked ++ [request] } with
        packets := s.packets ++ [⟨b, (s.party b).client.ai_addr, request⟩] }) :
    view a t = view a s ∨ Exchange a (view a s) (.asks b rc) (view a t) := by
  subst ht
  rw [(hs.party b).resolved]
  by_cases hb : b = a
  · subst hb
    refine .inr ?_
    apply Exchange.of_eq (.asks hphase)
    exact (view_append_request (s := s.set b _) request).trans (by rw [view_set_self]; rfl)
  · have hforeign : Foreign a ⟨b, server, request⟩ := foreign_of_source hb rfl
    exact .inl ((view_append_foreign hforeign).trans (view_set_of_ne hb _))

/-- A client has taken a packet. -/
theorem exchange_shows (hs : Safe s) {p : Packet} {request : Bytes} {phase : UdpClient.Phase}
    (hp : p ∈ s.packets) (hto : p.destination = b) (hphase : (s.party b).client.phase = .waiting request)
    (hnext : phase = .typing ∨ phase = .left) (ht : t =
      { s.set b
          { s.party b with
            client := ⟨phase, p.source⟩
            shown := (s.party b).shown ++ textsShown p.datagram } with
        packets := s.packets.erase p }) :
    view a t = view a s ∨ Exchange a (view a s) (.arrives p) (view a t) := by
  subst ht
  by_cases hb : b = a
  · subst hb
    refine .inr ?_
    rw [hs.textsShown_eq hp hto]
    obtain ⟨hsource, -⟩ := hs.answer_of_destination hp hto
    obtain ⟨text, rfl⟩ : ∃ text, p = ⟨server, b, text⟩ := ⟨_, packet_eq hsource hto⟩
    apply Exchange.of_eq (.shows (mem_toClient_iff.mpr hp) hphase hnext)
    exact (view_erase_answer (s := s.set b _) text).trans (by rw [view_set_self]; rfl)
  · have hforeign := foreign_of_destination hb hto
    refine .inl ?_
    exact (view_erase_foreign hforeign).trans (view_set_of_ne hb _)

/-- The server has taken a packet. -/
theorem exchange_receives (hs : Safe s) {p : Packet} (hp : p ∈ s.packets) (hto : p.destination = server)
    (hserver : s.server = .receiving) (hne : p.datagram.bytes ≠ []) :
    view a { s with server := .replying p.source (cString p.datagram.bytes), packets := s.packets.erase p } =
        view a s ∨
      Exchange a (view a s) (.arrives p)
        (view a
          { s with
            server := .replying p.source (cString p.datagram.bytes)
            packets := s.packets.erase p }) := by
  have hfree : (view a s).serving = none := by
    show servingRequest a s.server = none
    rw [hserver]
    rfl
  obtain ⟨b, hsource, -⟩ := hs.request_of_destination hp hto
  rw [hs.cString_bytes hp hto]
  rw [hs.datagram hp] at hne
  by_cases hb : b = a
  · subst hb
    refine .inr ?_
    obtain ⟨request, rfl⟩ : ∃ request, p = ⟨b, server, request⟩ := ⟨_, packet_eq hsource hto⟩
    apply Exchange.of_eq (.receives (mem_toServer_iff.mpr hp) hne hfree)
    refine (view_erase_request (s := { s with server := .replying b request }) request).trans ?_
    simp only [view, servingRequest_self]
  · have hforeign : Foreign a p := foreign_of_source hb hsource
    refine .inl ((view_erase_foreign (s := { s with server := .replying p.source p.bytes }) hforeign).trans ?_)
    simp only [view, hsource, servingRequest_of_ne hb, hserver, servingRequest_receiving]

/-- The server is through with a request. -/
theorem exchange_answers (hs : Safe s) {addr_client : Address} {request : Bytes}
    (hserver : s.server = .replying addr_client request) (time rc : Int)
    (ht : t = { s with server := .receiving } ∨ t = s.answer addr_client (time, request)) :
    view a t = view a s ∨ Exchange a (view a s) (.answers time rc) (view a t) := by
  obtain ⟨b, rfl, -⟩ := hs.replying addr_client request hserver
  by_cases hb : b = a
  · subst hb
    have hserving : (view b s).serving = some request := by
      show servingRequest b s.server = _
      rw [hserver]
      exact servingRequest_self request
    refine .inr ?_
    rcases ht with rfl | rfl
    · exact .of_eq (.answerFails hserving) rfl
    · exact .of_eq (.answers hserving) (view_answer_self _)
  · have hview : { view a s with serving := none } = view a s := by
      simp only [view, hserver, servingRequest_of_ne hb]
    refine .inl ?_
    rcases ht with rfl | rfl
    · exact hview
    · exact (view_answer_of_ne hb _).trans hview

/-- **The system as one of its clients sees it**: a step leaves the view alone, or is a step of `Exchange`. -/
theorem exchange_of_step (hs : Safe s) (h : step server s e = some t) (a : Client server) :
    view a t = view a s ∨ Exchange a (view a s) e (view a t) := by
  cases Step.of_step h with
  | @types b line hphase _ =>
      by_cases hb : b = a
      · subst hb
        exact .inr (.of_eq (.types hphase) (view_moveClient_self _))
      · exact .inl (view_moveClient_of_ne hb _)
  | @askFails b _ _ hphase =>
      by_cases hb : b = a
      · subst hb
        exact .inr (.of_eq (.askFails hphase) (view_moveClient_self _))
      · exact .inl (view_moveClient_of_ne hb _)
  | asks hphase => exact exchange_asks hs hphase rfl
  | @clientFails b _ hphase =>
      by_cases hb : b = a
      · subst hb
        exact .inr (.of_eq (.clientFails hphase) (view_moveClient_self _))
      · exact .inl (view_moveClient_of_ne hb _)
  | shows hp hto hphase hnext => exact exchange_shows hs hp hto hphase hnext rfl
  | @ignores p hp hto hserver hnil =>
      obtain ⟨b, hsource, -⟩ := hs.request_of_destination hp hto
      rw [hs.datagram hp] at hnil
      by_cases hb : b = a
      · subst hb
        have hbytes : p.bytes = [] := hnil
        obtain rfl : p = ⟨b, server, []⟩ := by
          rw [packet_eq hsource hto, hbytes]
        have hfree : (view b s).serving = none := by
          show servingRequest b s.server = none
          rw [hserver]
          rfl
        exact .inr (.of_eq (.ignores (mem_toServer_iff.mpr hp) hfree) (view_erase_request []))
      · exact .inl (view_erase_foreign (foreign_of_source hb hsource))
  | receives hp hto hserver hne => exact exchange_receives hs hp hto hserver hne
  | serverFails => exact .inl rfl
  | answerFails hserver => exact exchange_answers hs hserver _ _ (.inl rfl)
  | answers hserver => exact exchange_answers hs hserver _ _ (.inr rfl)
  | @loses p hp =>
      rcases packet_cases a p with heq | heq | hforeign
      · rw [heq] at hp ⊢
        exact .inr (.of_eq (.losesRequest (mem_toServer_iff.mpr hp)) (view_erase_request _))
      · rw [heq] at hp ⊢
        exact .inr (.of_eq (.losesAnswer (mem_toClient_iff.mpr hp)) (view_erase_answer _))
      · exact .inl (view_erase_foreign hforeign)
  | @repeats p hp =>
      rcases packet_cases a p with heq | heq | hforeign
      · rw [heq] at hp ⊢
        exact .inr (.of_eq (.repeatsRequest (mem_toServer_iff.mpr hp)) (view_cons_request _))
      · rw [heq] at hp ⊢
        exact .inr (.of_eq (.repeatsAnswer (mem_toClient_iff.mpr hp)) (view_cons_answer _))
      · exact .inl (view_cons_foreign hforeign)

end Parties

end LinuxNet.Tutorials.UdpExchange
