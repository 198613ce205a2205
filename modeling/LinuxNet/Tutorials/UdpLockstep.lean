/-
# LinuxNet.Tutorials.UdpLockstep — which request an answer belongs to, and when none comes any more

Two questions about the UDP clients that are settled on the view of one client. As long as no packet of the
client is repeated and its `recvfrom` does not fail, the `k`-th text it shows is the answer to its `k`-th
request, also when packets get lost (`answers_in_order_of_reach`). But there is no timeout: a client that waits
shows something again exactly if a byte of its exchange is still somewhere (`shows_again_iff`), and for an empty
request there never was one.
-/
import LinuxNet.Tutorials.UdpExchange

namespace LinuxNet.Tutorials.UdpLockstep

open LinuxNet.Lib
open LinuxNet.Tutorials.Conversation (messageSize)
open LinuxNet.Tutorials.UdpClient (Address)
open LinuxNet.Tutorials.UdpServer (responseText)
open LinuxNet.Tutorials.UdpNetwork
open LinuxNet.Tutorials.UdpExchange

variable {server : Address} {s t : State server} {e : Event server}
  {a : Client server}

/-! ## Which request an answer belongs to -/

/-- The text an answer shows. -/
def shown (answer : Int × Bytes) : Bytes := responseText answer.1

/-- The request a client waits for the answer to. -/
def current : UdpClient.Phase → Option Bytes
  | .waiting request => some request
  | .typing | .sending _ | .left => none

/-- **`InStep past v`** — after the exchanges in `past`, at most one thing is under way: the current request,
or the server answering it, or its answer. -/
structure InStep (past : List (Int × Bytes)) (v : View) : Prop where
  asked : v.asked = past.map Prod.snd ++ (current v.phase).toList
  shown : v.shown = past.map shown
  answered : past <+: v.answered
  idle : current v.phase = none → v.answered = past
  alone : v.toServer.length + v.toClient.length + v.serving.toList.length ≤ 1
  toServer : ∀ request ∈ v.toServer, current v.phase = some request ∧ v.answered = past
  serving : ∀ request, v.serving = some request → current v.phase = some request ∧ v.answered = past
  toClient : ∀ text ∈ v.toClient, ∃ time request, current v.phase = some request ∧
    text = responseText time ∧ v.answered = past ++ [(time, request)]

/-- `recvfrom` of this client does not fail, and no packet of it is repeated. -/
def Single (a : Client server) : Event server → Prop
  | .clientFails b => b ≠ a
  | .repeats p => p.source ≠ a ∧ p.destination ≠ a
  | .types _ _ | .asks _ _ | .arrives _ | .serverFails | .answers _ _ | .loses _ => True

instance (a : Client server) : (e : Event server) → Decidable (Single a e)
  | .clientFails b => inferInstanceAs (Decidable (b ≠ a))
  | .repeats p => inferInstanceAs (Decidable (p.source ≠ a ∧ p.destination ≠ a))
  | .types _ _ | .asks _ _ | .arrives _ | .serverFails | .answers _ _ | .loses _ => isTrue trivial

namespace InStep

variable {past : List (Int × Bytes)} {v w : View}

/-- A client that waits for nothing has nothing under way. -/
theorem quiet (hv : InStep past v) (hidle : current v.phase = none) :
    v.toServer = [] ∧ v.toClient = [] ∧ v.serving = none := by
  refine ⟨?_, ?_, ?_⟩
  · rw [List.eq_nil_iff_forall_not_mem]
    intro request hin
    exact absurd (hidle.symm.trans (hv.toServer request hin).1) (Option.some_ne_none _).symm
  · rw [List.eq_nil_iff_forall_not_mem]
    intro text hin
    obtain ⟨time, request, hcurrent, -⟩ := hv.toClient text hin
    exact absurd (hidle.symm.trans hcurrent) (Option.some_ne_none _).symm
  · rw [Option.eq_none_iff_forall_ne_some]
    intro request hserving
    exact absurd (hidle.symm.trans (hv.serving request hserving).1) (Option.some_ne_none _).symm

/-- The client goes on without waiting. -/
theorem move (hv : InStep past v) {phase : UdpClient.Phase} (hcurrent : current phase = current v.phase) :
    InStep past { v with phase := phase } := by
  refine ⟨?_, hv.shown, hv.answered, ?_, hv.alone, ?_, ?_, ?_⟩
  · rw [hcurrent]
    exact hv.asked
  · rw [hcurrent]
    exact hv.idle
  · rw [hcurrent]
    exact hv.toServer
  · rw [hcurrent]
    exact hv.serving
  · rw [hcurrent]
    exact hv.toClient

/-- Something under way is lost. -/
theorem less (hv : InStep past v) {toServer toClient : List Bytes} {serving : Option Bytes}
    (hserver : toServer.Sublist v.toServer) (hclient : toClient.Sublist v.toClient)
    (hserving : serving = v.serving ∨ serving = none) :
    InStep past { v with toServer := toServer, toClient := toClient, serving := serving } := by
  refine ⟨hv.asked, hv.shown, hv.answered, hv.idle, ?_,
    fun request hin => hv.toServer request (hserver.subset hin), fun request h => ?_,
    fun text hin => hv.toClient text (hclient.subset hin)⟩
  · have halone := hv.alone
    have hserver := hserver.length_le
    have hclient := hclient.length_le
    have hless : serving.toList.length ≤ v.serving.toList.length := by
      rcases hserving with rfl | rfl
      · exact le_rfl
      · exact Nat.zero_le _
    show toServer.length + toClient.length + serving.toList.length ≤ 1
    omega
  · rcases hserving with rfl | rfl
    · exact hv.serving request h
    · cases h

/-- The request is sent. -/
theorem asks (hv : InStep past v) {request : Bytes} (hphase : v.phase = .sending request) :
    InStep past
      { v with
        phase := .waiting request
        asked := v.asked ++ [request]
        toServer := v.toServer ++ [request] } := by
  have hidle : current v.phase = none := by
    rw [hphase]
    rfl
  have hasked := hv.asked
  obtain ⟨hserver, hclient, hserving⟩ := hv.quiet hidle
  rw [hidle, Option.toList_none, List.append_nil] at hasked
  refine ⟨?_, hv.shown, hv.answered, (fun h => by cases h), ?_, ?_, ?_, ?_⟩
  · show v.asked ++ [request] = _
    rw [hasked]
    rfl
  · rw [hserver, hclient, hserving]
    rfl
  · intro request' hin
    rw [hserver, List.nil_append, List.mem_singleton] at hin
    rw [hin]
    exact ⟨rfl, hv.idle hidle⟩
  · intro request' h
    exact absurd (hserving.symm.trans h) (Option.some_ne_none _).symm
  · intro text hin
    rw [hclient] at hin
    cases hin

/-- The server takes the request. -/
theorem receives (hv : InStep past v) {request : Bytes} (hin : request ∈ v.toServer) :
    InStep past { v with serving := some request, toServer := v.toServer.erase request } := by
  have halone := hv.alone
  have hlength := List.length_erase_of_mem hin
  have hpos := List.length_pos_of_mem hin
  refine ⟨hv.asked, hv.shown, hv.answered, hv.idle, ?_, ?_, ?_, hv.toClient⟩
  · show (v.toServer.erase request).length + v.toClient.length + 1 ≤ 1
    omega
  · exact fun request' h => hv.toServer request' (List.mem_of_mem_erase h)
  · intro request' h
    obtain rfl := Option.some.inj h
    exact hv.toServer request hin

/-- The server sends the answer. -/
theorem answers (hv : InStep past v) {request : Bytes} (hserving : v.serving = some request) (time : Int) :
    InStep past
      { v with
        serving := none
        answered := v.answered ++ [(time, request)]
        toClient := v.toClient ++ [responseText time] } := by
  have halone := hv.alone
  obtain ⟨hcurrent, hanswered⟩ := hv.serving request hserving
  rw [hserving, Option.toList_some, List.length_singleton] at halone
  have hserver : v.toServer = [] := List.eq_nil_of_length_eq_zero (by omega)
  have hclient : v.toClient = [] := List.eq_nil_of_length_eq_zero (by omega)
  refine ⟨hv.asked, hv.shown, hv.answered.trans (List.prefix_append _ _), ?_, ?_, ?_,
    (fun _ h => by cases h), ?_⟩
  · intro hidle
    exact absurd (hidle.symm.trans hcurrent) (Option.some_ne_none _).symm
  · rw [hserver, hclient]
    rfl
  · rw [hserver]
    exact List.forall_mem_nil _
  · rw [hclient]
    intro text hin
    obtain rfl := List.mem_singleton.mp hin
    exact ⟨time, request, hcurrent, rfl, by rw [hanswered]⟩

/-- The client shows the answer. -/
theorem shows (hv : InStep past v) {text : Bytes} (hin : text ∈ v.toClient) {phase : UdpClient.Phase}
    (hnext : phase = .typing ∨ phase = .left) : ∃ past,
      InStep past
        { v with phase := phase, shown := v.shown ++ [text], toClient := v.toClient.erase text } := by
  obtain ⟨time, request, hcurrent, rfl, hanswered⟩ := hv.toClient text hin
  have halone := hv.alone
  have hlength := List.length_erase_of_mem hin
  have hpos := List.length_pos_of_mem hin
  have hserver : v.toServer = [] := List.eq_nil_of_length_eq_zero (by omega)
  have hclient : v.toClient.erase (responseText time) = [] := List.eq_nil_of_length_eq_zero (by omega)
  have hserving : v.serving = none := by
    rw [← Option.toList_eq_nil_iff]
    exact List.eq_nil_of_length_eq_zero (by omega)
  have hidle : current phase = none := by
    rcases hnext with rfl | rfl
    · rfl
    · rfl
  refine ⟨past ++ [(time, request)], ?_, ?_, ?_, fun _ => hanswered, ?_, ?_, ?_, ?_⟩
  · show v.asked = _
    rw [hidle, hv.asked, hcurrent, List.map_append]
    exact (List.append_nil _).symm
  · show v.shown ++ [_] = _
    rw [hv.shown, List.map_append]
    rfl
  · rw [← hanswered]
  · rw [hserver, hclient, hserving]
    exact Nat.zero_le 1
  · rw [hserver]
    exact List.forall_mem_nil _
  · intro request' h
    exact absurd (hserving.symm.trans h) (Option.some_ne_none _).symm
  · rw [hclient]
    exact List.forall_mem_nil _

/-- **The step lemma.** -/
theorem of_exchange (hv : InStep past v) (hsingle : Single a e) (h : Exchange a v e w) :
    ∃ past, InStep past w := by
  cases h with
  | types hphase => exact ⟨past, hv.move (by rw [hphase]; rfl)⟩
  | askFails hphase => exact ⟨past, hv.move (by rw [hphase]; rfl)⟩
  | asks hphase => exact ⟨past, hv.asks hphase⟩
  | clientFails => exact absurd rfl hsingle
  | shows htext _ hnext => exact hv.shows htext hnext
  | ignores => exact ⟨past, hv.less List.erase_sublist (List.Sublist.refl _) (.inl rfl)⟩
  | receives hin => exact ⟨past, hv.receives hin⟩
  | answerFails => exact ⟨past, hv.less (List.Sublist.refl _) (List.Sublist.refl _) (.inr rfl)⟩
  | answers hserving => exact ⟨past, hv.answers hserving _⟩
  | losesRequest => exact ⟨past, hv.less List.erase_sublist (List.Sublist.refl _) (.inl rfl)⟩
  | losesAnswer => exact ⟨past, hv.less (List.Sublist.refl _) List.erase_sublist (.inl rfl)⟩
  | repeatsRequest => exact absurd rfl hsingle.1
  | repeatsAnswer => exact absurd rfl hsingle.2

theorem init : InStep [] (view a (UdpNetwork.init server)) := by
  refine ⟨rfl, rfl, List.prefix_rfl, fun _ => rfl, Nat.zero_le 1, List.forall_mem_nil _, ?_,
    List.forall_mem_nil _⟩
  intro _ h
  cases h

end InStep

/-- **The `k`-th text a client shows is the answer to its `k`-th request**, in every run in which no packet of
this client is repeated and its `recvfrom` does not fail: whatever is lost, whatever fails otherwise, and
whatever the other clients do. -/
theorem answers_in_order_of_reach (server : Address) (a : Client server) {s : State server}
    (h : Reach (step server) (fun _ e => Single a e) (init server) s) (k : ℕ) (text : Bytes)
    (htext : (s.party a).shown[k]? = some text) : ∃ time request,
      (s.party a).asked[k]? = some request ∧ (s.party a).answered[k]? = some (time, request) ∧
        text = responseText time := by
  obtain ⟨-, past, hv⟩ : Safe s ∧ ∃ past, InStep past (view a s) :=
    h.invariant_view (J := fun v => ∃ past, InStep past v) (fun _ _ _ hs _ hstep => hs.of_step hstep)
      (fun _ _ _ hs hstep => exchange_of_step hs hstep a)
      (fun _ _ _ hok ⟨_, hv⟩ hnext => hv.of_exchange hok hnext) safe_init ⟨[], .init⟩
  have hshown : (s.party a).shown = past.map shown := hv.shown
  rw [hshown, List.getElem?_map, Option.map_eq_some_iff] at htext
  obtain ⟨⟨time, request⟩, hk, rfl⟩ := htext
  have hlt : k < past.length := (List.getElem?_eq_some_iff.mp hk).1
  refine ⟨time, request, ?_, ?_, rfl⟩
  · have hasked : (s.party a).asked = _ := hv.asked
    rw [hasked, List.getElem?_append_left (by rwa [List.length_map]), List.getElem?_map, hk]
    rfl
  · obtain ⟨answers, heq⟩ := hv.answered
    have hanswered : (s.party a).answered = past ++ answers := heq.symm
    rw [hanswered, List.getElem?_append_left hlt, hk]

/-- The guest asks for the time and gets an answer. -/
def asksOnce : List (Event UdpClient.server) :=
  [.types guest (ofText "time\n"), .asks guest 4, .arrives ⟨guest, UdpClient.server, ofText "time"⟩,
    .answers 7 28, .arrives ⟨UdpClient.server, guest, responseText 7⟩]

theorem answers_in_order_of_reach_asksOnce :
    ∃ s, Reach (step UdpClient.server) (fun _ e => Single guest e) (UdpNetwork.init _) s ∧
      ∃ time request, (s.party guest).asked[0]? = some request ∧
        (s.party guest).answered[0]? = some (time, request) ∧ responseText 7 = responseText time := by
  have hexec : (execOk (step UdpClient.server) (fun _ e => Single guest e) (UdpNetwork.init _) asksOnce).any
      (fun s => (s.party guest).shown[0]? = some (responseText 7)) = true := by decide
  obtain ⟨s, hreach, hshown⟩ := exists_reach_of_exec hexec
  exact ⟨s, hreach, answers_in_order_of_reach _ guest hreach 0 _ (of_decide_eq_true hshown)⟩

/-! ## When a waiting client goes on -/

/-- **`Pending a s`** — something of the client's exchange is left: a packet with a byte in it is under way, or
the server is just answering. -/
def Pending (a : Client server) (s : State server) : Prop :=
  (∃ p ∈ s.packets, p.bytes ≠ [] ∧ (p.source = a ∨ p.destination = a)) ∨
    ∃ request, s.server = .replying a request

/-- **`Stuck v`** — the client waits, and at most requests without a byte are under way. -/
structure Stuck (v : View) : Prop where
  waiting : ∃ request, v.phase = .waiting request
  toServer : ∀ request ∈ v.toServer, request = []
  toClient : v.toClient = []
  serving : v.serving = none

/-- Nothing changes that any more, not even packets that come twice. -/
theorem Stuck.of_exchange {v w : View} (hv : Stuck v) (hpatient : e ≠ .clientFails a) (h : Exchange a v e w) :
    Stuck w ∧ w.shown = v.shown := by
  obtain ⟨request, hwaiting⟩ := hv.waiting
  have hserver := hv.toServer
  have hless (request : Bytes) : ∀ r ∈ v.toServer.erase request, r = [] :=
    fun r hr => hserver r (List.mem_of_mem_erase hr)
  have hnothing {text : Bytes} : text ∉ v.toClient := by
    rw [hv.toClient]
    exact List.not_mem_nil
  have hfree {request : Bytes} : v.serving ≠ some request := by
    rw [hv.serving]
    exact (Option.some_ne_none _).symm
  cases h with
  | types hphase =>
      rw [hphase] at hwaiting
      cases hwaiting
  | askFails hphase =>
      rw [hphase] at hwaiting
      cases hwaiting
  | asks hphase =>
      rw [hphase] at hwaiting
      cases hwaiting
  | clientFails => exact absurd rfl hpatient
  | shows htext => exact absurd htext hnothing
  | ignores => exact ⟨⟨hv.waiting, hless _, hv.toClient, hv.serving⟩, rfl⟩
  | receives hin hne => exact absurd (hserver _ hin) hne
  | answerFails hserving => exact absurd hserving hfree
  | answers hserving => exact absurd hserving hfree
  | losesRequest => exact ⟨⟨hv.waiting, hless _, hv.toClient, hv.serving⟩, rfl⟩
  | losesAnswer htext => exact absurd htext hnothing
  | repeatsRequest hin =>
      refine ⟨⟨hv.waiting, ?_, hv.toClient, hv.serving⟩, rfl⟩
      rw [List.forall_mem_cons]
      exact ⟨hserver _ hin, hserver⟩
  | repeatsAnswer htext => exact absurd htext hnothing

/-- When nothing is pending, the client is stuck. -/
theorem stuck_of_not_pending (hs : Safe s) {request : Bytes}
    (hwaiting : (s.party a).client.phase = .waiting request) (hnone : ¬ Pending a s) : Stuck (view a s) := by
  refine ⟨⟨request, hwaiting⟩, fun r hr => ?_, ?_, ?_⟩
  · by_contra hne
    exact hnone (.inl ⟨_, mem_toServer_iff.mp hr, hne, .inl rfl⟩)
  · rw [List.eq_nil_iff_forall_not_mem]
    intro text htext
    have hp := mem_toClient_iff.mp htext
    obtain ⟨-, r, -, hbytes⟩ := hs.answer_of_destination hp rfl
    have hne : text ≠ [] := by
      rw [show text = responseText r.1 from hbytes]
      exact UdpServer.responseText_ne_nil _
    exact hnone (.inl ⟨_, hp, hne, .inr rfl⟩)
  · rw [Option.eq_none_iff_forall_ne_some]
    intro r hserving
    unfold view servingRequest at hserving
    dsimp only at hserving
    split at hserving
    next => cases hserving
    next addr_client request' hserver =>
      split at hserving
      next haddr => exact hnone (.inr ⟨request', by rw [hserver, haddr]⟩)
      next => cases hserving

/-- From `s` on the client shows something, without a failure of its `recvfrom`. -/
def ShowsAgain (a : Client server) (s : State server) : Prop :=
  ∃ t, Reach (step server) (fun _ e => e ≠ .clientFails a) s t ∧ (t.party a).shown ≠ (s.party a).shown

/-- A step that shows nothing yet. -/
theorem ShowsAgain.head (h : ShowsAgain a t) (hstep : step server s e = some t) (hpatient : e ≠ .clientFails a)
    (hshown : (t.party a).shown = (s.party a).shown) : ShowsAgain a s := by
  obtain ⟨u, hreach, hne⟩ := h
  exact ⟨u, .head hpatient hstep hreach, fun h => hne (h.trans hshown.symm)⟩

/-- An answer is under way to a client that waits. -/
theorem showsAgain_of_answer {p : Packet} {request : Bytes} (hp : p ∈ s.packets) (hto : p.destination = a)
    (hne : p.bytes ≠ []) (hwaiting : (s.party a).client.phase = .waiting request) : ShowsAgain a s := by
  obtain ⟨addr, haddr⟩ := a
  subst hto
  have hdatagram : p.datagram.bytes ≠ [] := by
    show p.bytes.take messageSize ≠ []
    rw [Ne, List.take_eq_nil_iff, not_or]
    exact ⟨by decide, hne⟩
  set a : Client server := ⟨p.destination, haddr⟩
  set client := UdpClient.recvfromReturns (s.party a).client request (some p.datagram) with hclient
  have hrecv : UdpClient.step (s.party a).client (.recvfrom (some p.datagram)) = some client := by
    rw [UdpClient.step, hwaiting]
  have hstep : step server s (.arrives p) = some
      { s.set a
          { s.party a with client := client, shown := (s.party a).shown ++ textsShown p.datagram } with
        packets := s.packets.erase p } := by
    rw [step, if_pos hp, deliver, dif_neg haddr]
    simp only [hrecv, Option.map_some, a]
  refine ⟨_, .single (by intro h; cases h) hstep, ?_⟩
  show ((s.set _ _).party _).shown ≠ _
  rw [State.set_party_self]
  show (s.party _).shown ++ textsShown p.datagram ≠ _
  rw [textsShown, if_neg hdatagram]
  exact fun h => absurd (List.append_right_eq_self.mp h) (List.cons_ne_nil _ _)

/-- The server is answering a client that waits. -/
theorem showsAgain_of_replying {request request' : Bytes} (hserver : s.server = .replying a request')
    (hwaiting : (s.party a).client.phase = .waiting request) : ShowsAgain a s := by
  have hstep : step server s (.answers 0 (responseText 0).length) = some (s.answer a (0, request')) := by
    rw [step, hserver, answersSent, if_neg (not_not.mpr rfl)]
    rfl
  have hparty : (s.answer a (0, request')).party a = _ := Party.answer_self rfl (0, request')
  have hin : ⟨server, a, responseText 0⟩ ∈ (s.answer a (0, request')).packets :=
    List.mem_append_right _ (List.mem_singleton_self _)
  have hnext : ShowsAgain a (s.answer a (0, request')) := by
    apply showsAgain_of_answer hin rfl (UdpServer.responseText_ne_nil _)
    rw [hparty]
    exact hwaiting
  exact hnext.head hstep (by intro h; cases h) (by rw [hparty])

/-- A request is under way to a server that waits for one. -/
theorem showsAgain_of_receiving {p : Packet} {request : Bytes} (hserver : s.server = .receiving)
    (hp : p ∈ s.packets) (hfrom : p.source = a) (hto : p.destination = server) (hne : p.bytes ≠ [])
    (hwaiting : (s.party a).client.phase = .waiting request) : ShowsAgain a s := by
  have hdatagram : p.datagram.bytes ≠ [] := by
    show p.bytes.take messageSize ≠ []
    rw [Ne, List.take_eq_nil_iff, not_or]
    exact ⟨by decide, hne⟩
  have hstep : step server s (.arrives p) = some
      { s with server := .replying p.source (cString p.datagram.bytes), packets := s.packets.erase p } := by
    rw [step, if_pos hp, deliver, dif_pos hto, hserver]
    simp only [UdpServer.step, UdpServer.recvfromReturns, if_neg hdatagram]
    rfl
  have hnext : ShowsAgain a
      { s with server := .replying p.source (cString p.datagram.bytes), packets := s.packets.erase p } := by
    rw [hfrom]
    exact showsAgain_of_replying rfl hwaiting
  exact hnext.head hstep (by intro h; cases h) rfl

/-- **When a waiting client goes on.** There is no timeout: in a state the system can reach, whatever was lost
or repeated before, a client that waits for an answer can show something again, without its `recvfrom` failing,
if and only if something of its exchange is left: a packet with a byte in it, or the server at its answer. -/
theorem shows_again_iff (server : Address) (a : Client server) {s : State server}
    (h : Reach (step server) (fun _ _ => True) (init server) s) {request : Bytes}
    (hwaiting : (s.party a).client.phase = .waiting request) :
    (∃ t, Reach (step server) (fun _ e => e ≠ .clientFails a) s t ∧ (t.party a).shown ≠ (s.party a).shown) ↔
      (∃ p ∈ s.packets, p.bytes ≠ [] ∧ (p.source = a ∨ p.destination = a)) ∨
        ∃ request, s.server = .replying a request := by
  have hs := Safe.of_reach h
  constructor
  · rintro ⟨t, hreach, hne⟩
    by_contra hnone
    have hstuck := stuck_of_not_pending hs hwaiting hnone
    obtain ⟨-, -, hshown⟩ : Safe t ∧ Stuck (view a t) ∧ (view a t).shown = (view a s).shown :=
      hreach.invariant_view (J := fun v => Stuck v ∧ v.shown = (view a s).shown)
        (fun _ _ _ hs _ hstep => hs.of_step hstep) (fun _ _ _ hs hstep => exchange_of_step hs hstep a)
        (fun _ _ _ hok hv hnext =>
          ⟨(hv.1.of_exchange hok hnext).1, (hv.1.of_exchange hok hnext).2.trans hv.2⟩)
        hs ⟨hstuck, rfl⟩
    exact hne hshown
  · rintro (⟨p, hp, hbytes, hends⟩ | ⟨request', hserver⟩)
    · rcases hs.packet p hp with ⟨b, hin⟩ | ⟨b, hin⟩
      · -- a request: the server may have to get rid of another one first
        have hfrom : b.val = a := hends.resolve_right fun h => a.property h.symm
        rcases hserver : s.server with _ | ⟨addr_client, request'⟩
        · exact showsAgain_of_receiving hserver hp hfrom rfl hbytes hwaiting
        · have hstep : step server s (.answers 0 (-1)) = some { s with server := .receiving } := by
            rw [step, hserver, answersSent, if_pos (by omega)]
            simp only [Party.answer_nil, List.map_nil, List.append_nil]
            rfl
          have hnext : ShowsAgain a { s with server := .receiving } :=
            showsAgain_of_receiving rfl hp hfrom rfl hbytes hwaiting
          exact hnext.head hstep (by intro h; cases h) rfl
      · have hto : b.val = a := hends.resolve_left fun h => a.property h.symm
        exact showsAgain_of_answer hp hto hbytes hwaiting
    · exact showsAgain_of_replying hserver hwaiting

/-- The guest has asked for the time: its request is under way, so it can still get an answer. -/
theorem shows_again_iff_asked :
    ∃ s, Reach (step UdpClient.server) (fun _ _ => True) (UdpNetwork.init _) s ∧
      ∃ t, Reach (step UdpClient.server) (fun _ e => e ≠ .clientFails guest) s t ∧
        (t.party guest).shown ≠ (s.party guest).shown := by
  have hexec : (execOk (step UdpClient.server) (fun _ _ => True) (UdpNetwork.init _)
      [.types guest (ofText "time\n"), .asks guest 4]).any
      (fun s => (s.party guest).client.phase = .waiting (ofText "time") ∧
        s.packets = [⟨guest, UdpClient.server, ofText "time"⟩]) = true := by decide
  obtain ⟨s, hreach, hs⟩ := exists_reach_of_exec hexec
  obtain ⟨hwaiting, hpackets⟩ := of_decide_eq_true hs
  have hrequest : ⟨guest, UdpClient.server, ofText "time"⟩ ∈ s.packets := by
    rw [hpackets]
    exact List.mem_singleton_self _
  exact ⟨s, hreach, (shows_again_iff _ guest hreach hwaiting).mpr (.inl ⟨_, hrequest, by decide, .inl rfl⟩)⟩

end LinuxNet.Tutorials.UdpLockstep
