/-
# LinuxNet.Tutorials.MultithreadServer — which command an answer belongs to

`server_handle_client` of `09_multithread_client_server.c` and its client take one `recv` for one message:
the server sends buffers of `MESSAGE_SIZE` bytes, the client sends the bytes of a command and no end mark,
and neither reads on when `recv` returns less than was sent.

As long as every `recv` takes all that is under way, the two loops are in step: `InStep` lists the places a
command and its answer can be in, and the `k`-th text shown is the answer to the `k`-th command
(`lockstep_of_reach`). One short `recv`, on either side, is enough to break that (`not_lockstep`).
-/
import LinuxNet.Tutorials.Conversation

namespace LinuxNet.Tutorials.MultithreadServer

open LinuxNet.Lib LinuxNet.Tutorials.Conversation

/-! ## The messages -/

theorem nul_notMem_replyText (time : Int) (request : Bytes) : (0 : UInt8) ∉ replyText time request := by
  unfold replyText
  split
  · decide
  · split
    · exact nul_notMem_intText _
    · decide

/-- `sprintf` stays within `response_buffer`. -/
theorem length_replyText_lt (time : Int) (request : Bytes) :
    (replyText time request).length < messageSize := by
  unfold replyText
  split
  · decide
  · split
    · have hlow := BitVec.le_two_mul_toInt (x := BitVec.ofInt 32 time)
      have hhigh := BitVec.two_mul_toInt_lt (x := BitVec.ofInt 32 time)
      have hlen : (intText (BitVec.ofInt 32 time).toInt).length ≤ 10 + 1 :=
        length_intText_le (by decide) (by omega)
      exact hlen.trans_lt (by decide)
    · decide

/-- Every reply is one buffer. -/
theorem length_reply (time : Int) (request : Bytes) :
    (serverHandleClient.reply time request).length = messageSize := by
  have hlt := length_replyText_lt time request
  show (replyText time request ++ List.replicate _ 0).length = messageSize
  rw [List.length_append, List.length_replicate]
  omega

/-- A client that gets a whole buffer shows the text in it. -/
theorem cString_reply (time : Int) (request : Bytes) :
    cString (serverHandleClient.reply time request) = replyText time request := by
  have hzeros (n : ℕ) : cString (List.replicate n 0) = [] := by
    rcases n with _ | n
    · rfl
    · rfl
  show cString (replyText time request ++ List.replicate _ 0) = replyText time request
  rw [cString_append (nul_notMem_replyText time request), hzeros, List.append_nil]

/-- A request has no NUL, so the server reads it as it was typed. -/
theorem cString_requestOf (line : Bytes) : cString (requestOf line) = requestOf line := by
  apply cString_of_notMem
  intro h
  exact nul_notMem_cString line ((List.takeWhile_sublist _).subset h)

/-! ## Lockstep -/

/-- **`Lockstep s`** — the `k`-th text shown is the text the server answered the `k`-th command with. -/
def Lockstep (s : State) : Prop :=
  ∀ (k : ℕ) (text : Bytes), s.displayed[k]? = some text → ∃ time request,
    s.commands[k]? = some request ∧ s.answered[k]? = some (time, request) ∧ text = replyText time request

/-- The request is sent as a whole. -/
def RequestSent : ClientPhase → Int → Prop
  | .sending request, sent_bytes => sent_bytes = request.length
  | _, _ => True

/-- Every command has a byte, and `send` sends all it is given. -/
def SendsWhole (s : State) : Event → Prop
  | .types line => requestOf line ≠ []
  | .clientSends sent_bytes => RequestSent s.client sent_bytes
  | .serverSends _ rc => rc = messageSize
  | _ => True

/-- `recv` takes all there is. -/
def ReceivesWhole (s : State) : Event → Prop
  | .serverReceives n => n = s.toServer.length
  | .clientReceives n => n = s.toClient.length
  | _ => True

instance : (client : ClientPhase) → (sent_bytes : Int) → Decidable (RequestSent client sent_bytes)
  | .sending request, sent_bytes => inferInstanceAs (Decidable (sent_bytes = request.length))
  | .typing, _ | .waiting _, _ | .left, _ => isTrue trivial

instance (s : State) : (e : Event) → Decidable (SendsWhole s e)
  | .types line => inferInstanceAs (Decidable (requestOf line ≠ []))
  | .clientSends sent_bytes => inferInstanceAs (Decidable (RequestSent s.client sent_bytes))
  | .serverSends _ rc => inferInstanceAs (Decidable (rc = messageSize))
  | .serverReceives _ | .clientReceives _ | .clientSeesEnd | .serverSeesEnd => isTrue trivial

instance (s : State) : (e : Event) → Decidable (ReceivesWhole s e)
  | .serverReceives n => inferInstanceAs (Decidable (n = s.toServer.length))
  | .clientReceives n => inferInstanceAs (Decidable (n = s.toClient.length))
  | .types _ | .clientSends _ | .serverSends _ _ | .clientSeesEnd | .serverSeesEnd => isTrue trivial

/-- The text an answer shows. -/
def shown (answer : Int × Bytes) : Bytes := replyText answer.1 answer.2

/-- **`InStep s`** — where the current command and its answer are, after the commands in `past`. -/
inductive InStep : State → Prop
  | typing (past : List (Int × Bytes)) :
      InStep
        { client := .typing, server := .receiving, toServer := [], toClient := []
          commands := past.map Prod.snd, answered := past, displayed := past.map shown }
  | sending (past : List (Int × Bytes)) (request : Bytes) (hrequest : cString request = request) :
      InStep
        { client := .sending request, server := .receiving, toServer := [], toClient := []
          commands := past.map Prod.snd ++ [request], answered := past, displayed := past.map shown }
  | asked (past : List (Int × Bytes)) (request : Bytes) (hrequest : cString request = request) :
      InStep
        { client := .waiting request, server := .receiving, toServer := request, toClient := []
          commands := past.map Prod.snd ++ [request], answered := past, displayed := past.map shown }
  | received (past : List (Int × Bytes)) (request : Bytes) :
      InStep
        { client := .waiting request, server := .replying request, toServer := [], toClient := []
          commands := past.map Prod.snd ++ [request], answered := past, displayed := past.map shown }
  | replied (past : List (Int × Bytes)) (request : Bytes) (time : Int) :
      InStep
        { client := .waiting request
          server := if leaves request then .closed else .receiving
          toServer := [], toClient := serverHandleClient.reply time request
          commands := past.map Prod.snd ++ [request], answered := past ++ [(time, request)]
          displayed := past.map shown }
  | left (past : List (Int × Bytes)) :
      InStep
        { client := .left, server := .closed, toServer := [], toClient := []
          commands := past.map Prod.snd, answered := past, displayed := past.map shown }

theorem inStep_init : InStep init := .typing []

theorem getElem?_of_prefix {α : Type*} {l l' : List α} {k : ℕ} {x : α} (h : l <+: l')
    (hx : l[k]? = some x) : l'[k]? = some x := by
  obtain ⟨rest, rfl⟩ := h
  obtain ⟨hlt, -⟩ := List.getElem?_eq_some_iff.mp hx
  rw [List.getElem?_append_left hlt]
  exact hx

/-- What is shown is a beginning of what was answered, and what was answered a beginning of what was
typed. -/
theorem lockstep_of_prefix {s : State} (hshown : s.displayed <+: s.answered.map shown)
    (htyped : s.answered.map Prod.snd <+: s.commands) : Lockstep s := by
  intro k text htext
  have hmap := getElem?_of_prefix hshown htext
  rw [List.getElem?_map] at hmap
  obtain ⟨⟨time, request⟩, hanswer, rfl⟩ := Option.map_eq_some_iff.mp hmap
  refine ⟨time, request, getElem?_of_prefix htyped ?_, hanswer, rfl⟩
  rw [List.getElem?_map, hanswer]
  rfl

theorem InStep.lockstep {s : State} (hs : InStep s) : Lockstep s := by
  apply lockstep_of_prefix
  · cases hs with
    | replied past request time =>
        show past.map shown <+: (past ++ [(time, request)]).map shown
        rw [List.map_append]
        exact List.prefix_append _ _
    | _ => exact List.prefix_refl _
  · cases hs with
    | replied past request time =>
        show (past ++ [(time, request)]).map Prod.snd <+: past.map Prod.snd ++ [request]
        rw [List.map_append]
        exact List.prefix_refl _
    | sending | asked | received => exact List.prefix_append _ _
    | _ => exact List.prefix_refl _

/-- The server takes the whole request. -/
theorem inStep_received (past : List (Int × Bytes)) {request : Bytes} (hrequest : cString request = request) :
    InStep
      { client := .waiting request
        server := .replying (cString (request.take request.length))
        toServer := request.drop request.length, toClient := []
        commands := past.map Prod.snd ++ [request], answered := past, displayed := past.map shown } := by
  rw [List.take_length, List.drop_length, hrequest]
  exact .received past request

/-- The whole buffer is sent back. -/
theorem inStep_replied (past : List (Int × Bytes)) (request : Bytes) (time : Int) :
    InStep
      { client := .waiting request
        server := if leaves request then .closed else .receiving
        toServer := [], toClient := [] ++ (serverHandleClient.reply time request).take messageSize
        commands := past.map Prod.snd ++ [request], answered := past ++ [(time, request)]
        displayed := past.map shown } := by
  have hlen := length_reply time request
  rw [← hlen, List.take_length, List.nil_append]
  exact .replied past request time

/-- The client takes the whole buffer, and shows the text in it. -/
theorem inStep_shown (past : List (Int × Bytes)) (request : Bytes) {time : Int} {reply : Bytes}
    (hreply : reply = serverHandleClient.reply time request) :
    InStep
      { client := afterAnswer request
        server := if leaves request then .closed else .receiving
        toServer := [], toClient := reply.drop reply.length
        commands := past.map Prod.snd ++ [request], answered := past ++ [(time, request)]
        displayed := past.map shown ++ [cString (reply.take reply.length)] } := by
  have htyped : past.map Prod.snd ++ [request] = (past ++ [(time, request)]).map Prod.snd := by
    rw [List.map_append]
    rfl
  have hshown : past.map shown ++ [cString reply] = (past ++ [(time, request)]).map shown := by
    rw [hreply, cString_reply, List.map_append]
    rfl
  rw [List.take_length, List.drop_length, htyped, hshown, afterAnswer]
  rcases leaves request with _ | _
  · exact .typing _
  · exact .left _

/-- **The step lemma.** -/
theorem InStep.of_step {s t : State} {e : Event} (hs : InStep s) (hsends : SendsWhole s e)
    (hreceives : ReceivesWhole s e) (h : step serverHandleClient s e = some t) : InStep t := by
  rcases Step.of_step h with @⟨line, hclient, hlen⟩ | @⟨request, hclient⟩ |
    @⟨request, n, hclient, hshort⟩ | @⟨n, hserver, hn⟩ | @⟨request, time, rc, hserver, hrc⟩ |
    @⟨request, n, hclient, hn⟩ | @⟨request, hclient, hserver, hend⟩ | ⟨hclient, hserver, hnone⟩
  · cases hs with
    | typing past => exact .sending past _ (cString_requestOf line)
    | _ => cases hclient
  · cases hs with
    | sending past request hrequest =>
        cases hclient
        exact .asked past request hrequest
    | _ => cases hclient
  · -- nothing is sent in part
    have hsent : RequestSent s.client n := hsends
    rw [hclient] at hsent
    exact absurd hsent hshort.ne
  · cases hs with
    | asked past request hrequest =>
        obtain rfl : n = request.length := hreceives
        exact inStep_received past hrequest
    | received => cases hserver
    | left => cases hserver
    | _ => exact absurd hn (not_canReceive_nil n)
  · cases hs with
    | received past request' =>
        cases hserver
        obtain rfl : rc = messageSize := hsends
        exact inStep_replied past request time
    | replied past request' time' =>
        have hne : (if leaves request' then ServerPhase.closed else .receiving) ≠ .replying request := by
          split
          · nofun
          · nofun
        exact absurd hserver hne
    | _ => cases hserver
  · cases hs with
    | replied past request' time =>
        cases hclient
        obtain rfl : n = (serverHandleClient.reply time request).length := hreceives
        exact inStep_shown past request rfl
    | typing | sending | left => cases hclient
    | _ => exact absurd hn (not_canReceive_nil n)
  · -- a server that has closed has answered before, so the client does not see the end
    cases hs with
    | replied past request' time =>
        rcases hend with hend | hend
        · exact absurd hend (serverHandleClient.reply_ne_nil time request')
        · exact absurd rfl hend
    | left => cases hclient
    | _ => cases hserver
  · cases hs with
    | left => cases hserver
    | _ => cases hclient

/-- **Lockstep**: as long as commands have a byte, `send` sends all of them and of the replies, and `recv`
takes all that is under way, the `k`-th text shown is the answer to the `k`-th command. -/
theorem lockstep_of_reach {s : State}
    (h : Reach (step serverHandleClient) (fun s e => SendsWhole s e ∧ ReceivesWhole s e) init s) :
    Lockstep s := by
  refine (h.invariant (I := InStep) ?_ inStep_init).lockstep
  rintro s e t hs ⟨hsends, hreceives⟩ hstep
  exact hs.of_step hsends hreceives hstep

/-- Two commands, answered and shown. -/
theorem lockstep_of_reach_two_commands :
    ∃ s, Reach (step serverHandleClient) (fun s e => SendsWhole s e ∧ ReceivesWhole s e) init s ∧
      s.displayed = [ofText "Unknown request", ofText "7"] ∧ Lockstep s := by
  have hrun : (execOk (step serverHandleClient) (fun s e => SendsWhole s e ∧ ReceivesWhole s e) init
      [.types (ofText "date\n"), .clientSends 4, .serverReceives 4, .serverSends 0 1024,
        .clientReceives 1024, .types (ofText "time\n"), .clientSends 4, .serverReceives 4,
        .serverSends 7 1024, .clientReceives 1024]).any
      (fun s => s.displayed = [ofText "Unknown request", ofText "7"]) = true := by
    decide +kernel
  obtain ⟨s, hreach, hs⟩ := exists_reach_of_exec hrun
  exact ⟨s, hreach, of_decide_eq_true hs, lockstep_of_reach hreach⟩

/-- A text shown that is no answer to its command, whatever the time is. -/
theorem not_lockstep_of_ne {s : State} (k : ℕ) (text request : Bytes)
    (htext : s.displayed[k]? = some text) (hrequest : s.commands[k]? = some request)
    (hne : ∀ time, text ≠ replyText time request) : ¬ Lockstep s := by
  intro h
  obtain ⟨time, request', hrequest', -, rfl⟩ := h k text htext
  rw [hrequest] at hrequest'
  cases hrequest'
  exact hne time rfl

/-- **A short `recv` breaks it**, on either side. The server gets `time` in two pieces and answers the first
of them; or the client gets the first byte of an answer, and shows the rest as the next one. -/
theorem not_lockstep :
    (∃ s, Reach (step serverHandleClient) SendsWhole init s ∧ s.commands = [ofText "time"] ∧
      s.displayed = [ofText "Unknown request"] ∧ ¬ Lockstep s) ∧
    ∃ s, Reach (step serverHandleClient) SendsWhole init s ∧ s.commands = [ofText "a", ofText "exit"] ∧
      s.displayed = [ofText "U", ofText "nknown request"] ∧ ¬ Lockstep s := by
  have hserver : (execOk (step serverHandleClient) SendsWhole init
      [.types (ofText "time\n"), .clientSends 4, .serverReceives 2, .serverSends 0 1024,
        .clientReceives 1024]).any
      (fun s => s.commands = [ofText "time"] ∧ s.displayed = [ofText "Unknown request"]) = true := by
    decide +kernel
  have hclient : (execOk (step serverHandleClient) SendsWhole init
      [.types (ofText "a\n"), .clientSends 1, .serverReceives 1, .serverSends 0 1024, .clientReceives 1,
        .types (ofText "exit\n"), .clientSends 4, .clientReceives 1023]).any
      (fun s => s.commands = [ofText "a", ofText "exit"] ∧
        s.displayed = [ofText "U", ofText "nknown request"]) = true := by
    decide +kernel
  constructor
  · obtain ⟨s, hreach, hs⟩ := exists_reach_of_exec hserver
    obtain ⟨hcommands, hdisplayed⟩ := of_decide_eq_true hs
    refine ⟨s, hreach, hcommands, hdisplayed, ?_⟩
    apply not_lockstep_of_ne 0 (ofText "Unknown request") (ofText "time")
    · rw [hdisplayed]
      rfl
    · rw [hcommands]
      rfl
    · -- a time is written with digits
      intro time heq
      have hmem : (85 : UInt8) ∈ replyText time (ofText "time") := by
        rw [← heq]
        decide
      rcases mem_intText hmem with h | h
      · exact absurd h (by decide)
      · exact absurd h (by decide)
  · obtain ⟨s, hreach, hs⟩ := exists_reach_of_exec hclient
    obtain ⟨hcommands, hdisplayed⟩ := of_decide_eq_true hs
    refine ⟨s, hreach, hcommands, hdisplayed, ?_⟩
    apply not_lockstep_of_ne 0 (ofText "U") (ofText "a")
    · rw [hdisplayed]
      rfl
    · rw [hcommands]
      rfl
    · intro time heq
      have hreply : replyText time (ofText "a") = ofText "Unknown request" := rfl
      rw [hreply] at heq
      exact absurd heq (by decide)

end LinuxNet.Tutorials.MultithreadServer
