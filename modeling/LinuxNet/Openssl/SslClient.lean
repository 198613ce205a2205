/-
# LinuxNet.Openssl.SslClient — a client of the TLS server and its connection

The loop of `run_client` in `ssl_client_server.c`, after the handshake: read a line, leave if it says so, send
it, wait for one answer, show it. A word that ends the loop is not sent. What fails is reported, and the next
line is read; a connection on which something failed stays that way.

TLS keeps the records apart: what one `SSL_write` has sent, an `SSL_read` on the other side gets as a whole
(or the first `MESSAGE_SIZE` bytes of it). So, other than over plain streams, a client cannot get out of step:
the `k`-th text it shows is the answer to the `k`-th request it has sent (`InTurn`).

The session is the client with the records in both directions; what the server does with it in one iteration is
`exchange`. The clean-up after the loop of the server closes the sockets that are left.
-/
import LinuxNet.Lib.Clients
import LinuxNet.Openssl.SslServer.Records
import LinuxNet.Tutorials.MultithreadServer

namespace LinuxNet.Openssl.SslClient

open LinuxNet.Lib LinuxNet.Lib.Clients LinuxNet.Posix
open LinuxNet.Openssl.SslServer (Incoming asksToLeave messageSize)
open LinuxNet.Tutorials.Conversation (ClientPhase requestOf leaves)
open LinuxNet.Tutorials.PollServer (responseText requestIs)

/-! ## The client and its connection -/

/-- The client, and the records under way in each direction. The last three fields are what happened so far,
oldest first: the requests sent, the requests answered (each with the time at that point), and the texts
shown. -/
structure State where
  client : ClientPhase
  /-- something has failed on the connection of the client -/
  broken : Bool
  /-- the server has closed its socket -/
  closed : Bool
  toServer : List Bytes
  toClient : List Bytes
  asked : List Bytes
  answered : List (Int × Bytes)
  displayed : List Bytes
  deriving DecidableEq

/-- After the handshake. -/
def init : State where
  client := .typing
  broken := false
  closed := false
  toServer := []
  toClient := []
  asked := []
  answered := []
  displayed := []

/-- What the client waits for. -/
inductive Event where
  /-- `fgets` stores this line (nothing at the end of the input) -/
  | types (line : Bytes)
  /-- `SSL_write` sends the request -/
  | writes
  /-- `SSL_write` fails, and perhaps the connection with it -/
  | writeFails (fatal : Bool)
  /-- `SSL_read` gets a record -/
  | reads
  /-- `SSL_read` fails -/
  | readFails
  deriving DecidableEq

/-- What is left of a record after `SSL_read`. -/
def leftOver (payload : Bytes) : List Bytes :=
  if payload.drop messageSize = [] then [] else [payload.drop messageSize]

/-- **One step of the client loop.** Nothing more is sent or received on a connection that has failed, and
`SSL_write` does not send an empty request. -/
def step (s : State) : Event → Option State
  | .types line =>
    match s.client with
    | .typing =>
      if line.length < messageSize then
        some { s with client := if leaves (requestOf line) then .left else .sending (requestOf line) }
      else none
    | _ => none
  | .writes =>
    match s.client with
    | .sending request =>
      if s.broken = false ∧ request ≠ [] then
        some { s with
          client := .waiting request
          toServer := s.toServer ++ [request]
          asked := s.asked ++ [request] }
      else none
    | _ => none
  | .writeFails fatal =>
    match s.client with
    | .sending _ => some { s with client := .typing, broken := s.broken || fatal }
    | _ => none
  | .reads =>
    match s.client, s.toClient with
    | .waiting _, payload :: rest =>
      if s.broken = false then
        some { s with
          client := .typing
          toClient := leftOver payload ++ rest
          displayed := s.displayed ++ [cString (payload.take messageSize)] }
      else none
    | _, _ => none
  | .readFails =>
    match s.client with
    | .waiting _ => some { s with client := .typing, broken := true }
    | _ => none

/-! ## An iteration of the server -/

/-- One iteration of the server for a client: what is on the connection, what `time(NULL)` gives, and what
`SSL_write` answers if it is called. -/
structure Exchange where
  incoming : Incoming
  time : Int
  sent_bytes : Int
  deriving DecidableEq

/-- The server closes the socket. -/
def Exchange.ends (x : Exchange) : Bool := SslServer.shouldDisconnect x.incoming.received

/-- `time_t` is a `long`. -/
def FitsLong (time : Int) : Prop := -2 ^ 63 ≤ time ∧ time < 2 ^ 63

instance (time : Int) : Decidable (FitsLong time) := inferInstanceAs (Decidable (_ ∧ _))

/-- A request has arrived as a whole. An `SSL_write` that fails has not sent a record. -/
def requestArrives (s : State) (request : Bytes) (rest : List Bytes) (x : Exchange) : State :=
  if asksToLeave request then { s with closed := true, toServer := rest }
  else
    { s with
      toServer := rest
      toClient := if 0 < x.sent_bytes then s.toClient ++ [responseText x.time] else s.toClient
      answered := s.answered ++ [(x.time, cString request)] }

/-- **What an iteration does to the records.** The connection is at its end when the client has left and
everything has been read; TLS may fail at any time, and a record that has nothing for the application may come
at any time. -/
def exchange (s : State) (x : Exchange) : Option State :=
  if FitsLong x.time then
    match x.incoming with
    | .closed => if s.client = .left ∧ s.toServer = [] then some { s with closed := true } else none
    | .fatal => some { s with closed := true }
    | .record payload size arrived =>
      if payload = [] then some { s with closed := true }
      else
        match s.toServer with
        | [] => none
        | request :: rest =>
          if request = payload then
            if size ≤ arrived then
              some (requestArrives s (payload.take messageSize) (leftOver payload ++ rest) x)
            else some { s with closed := true }
          else none
  else none

/-- **The session** of a client. -/
def session : Session State Event Exchange where
  start := init
  client := step
  iterate := exchange
  quit s := { s with closed := true }

/-! ## What a step can do -/

/-- **`Step s e t`** — everything one step of the client can do. -/
inductive Step (s : State) : Event → State → Prop
  | types {line : Bytes} (hclient : s.client = .typing) (hlen : line.length < messageSize)
      (hstays : leaves (requestOf line) = false) :
      Step s (.types line) { s with client := .sending (requestOf line) }
  | leaves {line : Bytes} (hclient : s.client = .typing) (hlen : line.length < messageSize)
      (hleaves : leaves (requestOf line) = true) : Step s (.types line) { s with client := .left }
  | writes {request : Bytes} (hclient : s.client = .sending request) (hbroken : s.broken = false)
      (hne : request ≠ []) :
      Step s .writes
        { s with
          client := .waiting request
          toServer := s.toServer ++ [request]
          asked := s.asked ++ [request] }
  | writeFails {request : Bytes} {fatal : Bool} (hclient : s.client = .sending request) :
      Step s (.writeFails fatal) { s with client := .typing, broken := s.broken || fatal }
  | reads {request payload : Bytes} {rest : List Bytes} (hclient : s.client = .waiting request)
      (hbroken : s.broken = false) (htoClient : s.toClient = payload :: rest) :
      Step s .reads
        { s with
          client := .typing
          toClient := leftOver payload ++ rest
          displayed := s.displayed ++ [cString (payload.take messageSize)] }
  | readFails {request : Bytes} (hclient : s.client = .waiting request) :
      Step s .readFails { s with client := .typing, broken := true }

/-- **The inversion lemma.** -/
theorem Step.of_step {s t : State} {e : Event} (h : step s e = some t) : Step s e t := by
  rcases e with line | _ | fatal | _ | _
  · rcases hclient : s.client with _ | request | request | _
    case typing =>
      simp only [step, hclient] at h
      split at h
      next hlen =>
        cases h
        split
        next hleaves => exact .leaves hclient hlen hleaves
        next hstays => exact .types hclient hlen (Bool.eq_false_iff.mpr hstays)
      next => cases h
    all_goals simp [step, hclient] at h
  · rcases hclient : s.client with _ | request | request | _
    case sending =>
      simp only [step, hclient] at h
      split at h
      next hcan =>
        cases h
        exact .writes hclient hcan.1 hcan.2
      next => cases h
    all_goals simp [step, hclient] at h
  · rcases hclient : s.client with _ | request | request | _
    case sending =>
      simp only [step, hclient] at h
      cases h
      exact .writeFails hclient
    all_goals simp [step, hclient] at h
  · rcases hclient : s.client with _ | request | request | _
    case waiting =>
      rcases htoClient : s.toClient with _ | ⟨payload, rest⟩
      · simp [step, hclient, htoClient] at h
      · simp only [step, hclient, htoClient] at h
        split at h
        next hbroken =>
          cases h
          exact .reads hclient hbroken htoClient
        next => cases h
    all_goals simp [step, hclient] at h
  · rcases hclient : s.client with _ | request | request | _
    case waiting =>
      simp only [step, hclient] at h
      cases h
      exact .readFails hclient
    all_goals simp [step, hclient] at h

/-- **`Exchanged s x t`** — everything one iteration can do: the server finds no request and closes, or a
request has arrived. -/
inductive Exchanged (s : State) (x : Exchange) : State → Prop
  | closes (hnone : x.incoming.request? = none)
      (hwhy : x.incoming = .closed ∧ s.client = .left ∧ s.toServer = [] ∨ x.incoming = .fatal ∨
        ∃ payload size arrived, x.incoming = .record payload size arrived ∧ (payload = [] ∨ arrived < size)) :
      Exchanged s x { s with closed := true }
  | arrives {payload : Bytes} {rest : List Bytes}
      (hrequest : x.incoming.request? = some (payload.take messageSize))
      (htoServer : s.toServer = payload :: rest) (hfits : FitsLong x.time) :
      Exchanged s x (requestArrives s (payload.take messageSize) (leftOver payload ++ rest) x)

theorem Exchanged.of_exchange {s t : State} {x : Exchange} (h : exchange s x = some t) : Exchanged s x t := by
  rcases x with ⟨incoming, time, sent_bytes⟩
  unfold exchange at h
  split at h
  next hfits =>
    rcases incoming with _ | _ | ⟨payload, size, arrived⟩
    · simp only at h
      split at h
      next hend =>
        cases h
        exact .closes rfl (.inl ⟨rfl, hend⟩)
      next => cases h
    · cases h
      exact .closes rfl (.inr (.inl rfl))
    · simp only at h
      split at h
      next hnil =>
        cases h
        refine .closes (if_neg fun hwhole => hwhole.2 hnil)
          (.inr (.inr ⟨payload, size, arrived, rfl, .inl hnil⟩))
      next hne =>
        split at h
        next => cases h
        next request rest htoServer =>
          split at h
          next heq =>
            subst heq
            split at h
            next hwhole =>
              cases h
              exact .arrives (if_pos ⟨hwhole, hne⟩) htoServer hfits
            next hpart =>
              cases h
              refine .closes (if_neg fun hwhole => hpart hwhole.1)
                (.inr (.inr ⟨request, size, arrived, rfl, ?_⟩))
              exact .inr (Nat.not_le.mp hpart)
          next => cases h
  next => cases h

/-- The client does not close the socket of the server. -/
theorem Step.closed {s t : State} {e : Event} (h : Step s e t) : t.closed = s.closed := by
  cases h with
  | types | leaves | writes | writeFails | reads | readFails => rfl

/-- **A socket is closed exactly when the loop drops the client.** -/
theorem Exchanged.closed {s t : State} {x : Exchange} (h : Exchanged s x t) :
    t.closed = (s.closed || x.ends) := by
  rcases h with ⟨hnone, -⟩ | @⟨payload, rest, hrequest, -, -⟩
  · rw [Exchange.ends, SslServer.shouldDisconnect_received, hnone]
    exact (Bool.or_true s.closed).symm
  · rw [Exchange.ends, SslServer.shouldDisconnect_received, hrequest]
    show (requestArrives s _ _ x).closed = (s.closed || asksToLeave (payload.take messageSize))
    unfold requestArrives
    split
    next hleaves =>
      rw [hleaves]
      exact (Bool.or_true s.closed).symm
    next hstays =>
      rw [Bool.eq_false_iff.mpr hstays]
      exact (Bool.or_false s.closed).symm

/-! ## Requests and answers -/

/-- What a client of this program sends: `fgets` has read it, and it is no word that ends the loop. -/
structure Sendable (request : Bytes) : Prop where
  cString : cString request = request
  length : request.length < messageSize
  stays : leaves request = false

theorem sendable_requestOf {line : Bytes} (hlen : line.length < messageSize)
    (hstays : leaves (requestOf line) = false) : Sendable (requestOf line) := by
  refine ⟨Tutorials.MultithreadServer.cString_requestOf line, lt_of_le_of_lt ?_ hlen, hstays⟩
  exact (List.takeWhile_sublist _).length_le.trans (List.takeWhile_sublist _).length_le

theorem leftOver_eq_nil {payload : Bytes} (h : payload.length ≤ messageSize) : leftOver payload = [] :=
  if_pos (List.drop_eq_nil_of_le h)

/-- The server does not find its own words to leave in it. -/
theorem Sendable.not_asksToLeave {request : Bytes} (h : Sendable request) : asksToLeave request = false := by
  have hstays := h.stays
  simp only [leaves, Bool.or_eq_false_iff] at hstays
  rw [asksToLeave, requestIs, requestIs, h.cString, hstays.1.1, hstays.1.2]
  rfl

/-- A request without NUL arrives as it is, and it is all of its record. -/
theorem Sendable.requestArrives {request : Bytes} (h : Sendable request) (s : State) (rest : List Bytes)
    (x : Exchange) :
    requestArrives s (request.take messageSize) (leftOver request ++ rest) x =
      { s with
        toServer := rest
        toClient := if 0 < x.sent_bytes then s.toClient ++ [responseText x.time] else s.toClient
        answered := s.answered ++ [(x.time, request)] } := by
  rw [List.take_of_length_le h.length.le, leftOver_eq_nil h.length.le, SslClient.requestArrives,
    h.not_asksToLeave, h.cString]
  rfl

theorem cString_responseText (time : Int) : cString (responseText time) = responseText time := by
  refine cString_of_notMem ?_
  rw [responseText, List.mem_append, not_or]
  exact ⟨by decide, nul_notMem_intText _⟩

/-- `sprintf` stays within `response_buffer`, and one `SSL_read` gets all of it. -/
theorem length_responseText_lt {time : Int} (h : FitsLong time) : (responseText time).length < messageSize := by
  obtain ⟨hlow, hhigh⟩ := h
  have hlen : (intText time).length ≤ 19 + 1 := length_intText_le (by decide) (by omega)
  have hprefix : (ofText "Server time: ").length = 13 := by decide
  rw [responseText, List.length_append, hprefix, messageSize]
  omega

/-! ## The client is in turn with its answers -/

/-- The text an answer shows. -/
def shown (answer : Int × Bytes) : Bytes := responseText answer.1

/-- What the client is about to send it may send. -/
def MaySend (client : ClientPhase) : Prop := ∀ request, client = .sending request → Sendable request

/-- The client is not in `SSL_read`. -/
def NotWaiting (client : ClientPhase) : Prop := ∀ request, client ≠ .waiting request

/-- **`InTurn lossy s`** — where the last request and its answer are, after what is in `past`; an answer is lost
only when `lossy`. On a broken connection a request may still arrive, but nothing more is shown. -/
inductive InTurn (lossy : Prop) : State → Prop
  | idle {client : ClientPhase} (hclient : NotWaiting client) (hsend : MaySend client) (closed : Bool)
      (past : List (Int × Bytes)) :
      InTurn lossy
        { client := client, broken := false, closed := closed, toServer := [], toClient := []
          asked := past.map Prod.snd, answered := past, displayed := past.map shown }
  | asked {request : Bytes} (hrequest : Sendable request) (closed : Bool) (past : List (Int × Bytes)) :
      InTurn lossy
        { client := .waiting request, broken := false, closed := closed, toServer := [request], toClient := []
          asked := past.map Prod.snd ++ [request], answered := past, displayed := past.map shown }
  | replied {time : Int} (htime : FitsLong time) (request : Bytes) (closed : Bool) (past : List (Int × Bytes)) :
      InTurn lossy
        { client := .waiting request, broken := false, closed := closed, toServer := []
          toClient := [responseText time], asked := past.map Prod.snd ++ [request]
          answered := past ++ [(time, request)], displayed := past.map shown }
  | lost (hlossy : lossy) (time : Int) (request : Bytes) (closed : Bool) (past : List (Int × Bytes)) :
      InTurn lossy
        { client := .waiting request, broken := false, closed := closed, toServer := [], toClient := []
          asked := past.map Prod.snd ++ [request], answered := past ++ [(time, request)]
          displayed := past.map shown }
  | broken {s : State} (hbroken : s.broken = true) (hclient : NotWaiting s.client) (hsend : MaySend s.client)
      (hasked : ∀ request ∈ s.toServer, Sendable request) (hshown : s.displayed <+: s.answered.map shown)
      (htyped : s.answered.map Prod.snd ++ s.toServer <+: s.asked) : InTurn lossy s

section InTurn

variable {lossy : Prop} {s t : State}

theorem notWaiting_typing : NotWaiting .typing := fun _ => ClientPhase.noConfusion

theorem notWaiting_sending (request : Bytes) : NotWaiting (.sending request) := fun _ => ClientPhase.noConfusion

theorem notWaiting_left : NotWaiting .left := fun _ => ClientPhase.noConfusion

theorem maySend_typing : MaySend .typing := fun _ => ClientPhase.noConfusion

theorem maySend_left : MaySend .left := fun _ => ClientPhase.noConfusion

theorem maySend_sending {request : Bytes} (h : Sendable request) : MaySend (.sending request) := by
  intro request' heq
  cases heq
  exact h

theorem inTurn_init : InTurn lossy init := .idle notWaiting_typing maySend_typing false []

/-- **The step lemma for the client.** -/
theorem InTurn.of_step {e : Event} (hs : InTurn lossy s) (h : step s e = some t) : InTurn lossy t := by
  rcases Step.of_step h with @⟨line, hclient, hlen, hstays⟩ | @⟨line, hclient, hlen, hleaves⟩ |
    @⟨request, hclient, hbroken, hne⟩ | @⟨request, fatal, hclient⟩ |
    @⟨request, payload, rest, hclient, hbroken, htoClient⟩ | @⟨request, hclient⟩
  · have hsend := sendable_requestOf hlen hstays
    cases hs with
    | idle _ _ closed past => exact .idle (notWaiting_sending _) (maySend_sending hsend) closed past
    | broken hbroken _ _ hasked hshown htyped =>
        exact .broken hbroken (notWaiting_sending _) (maySend_sending hsend) hasked hshown htyped
    | _ => cases hclient
  · cases hs with
    | idle _ _ closed past => exact .idle notWaiting_left maySend_left closed past
    | broken hbroken _ _ hasked hshown htyped =>
        exact .broken hbroken notWaiting_left maySend_left hasked hshown htyped
    | _ => cases hclient
  · cases hs with
    | idle _ hsend closed past => exact .asked (hsend request hclient) closed past
    | broken hbroken' =>
        rw [hbroken'] at hbroken
        cases hbroken
    | _ => cases hclient
  · cases hs with
    | idle _ _ closed past =>
        rcases fatal with _ | _
        · exact .idle notWaiting_typing maySend_typing closed past
        · refine .broken rfl notWaiting_typing maySend_typing (List.forall_mem_nil _) (List.prefix_refl _) ?_
          rw [List.append_nil]
    | broken hbroken _ _ hasked hshown htyped =>
        refine .broken ?_ notWaiting_typing maySend_typing hasked hshown htyped
        show (s.broken || fatal) = true
        rw [hbroken, Bool.true_or]
    | _ => cases hclient
  · cases hs with
    | idle hnot => exact absurd hclient (hnot request)
    | asked => cases htoClient
    | @replied time htime request' closed past =>
        cases htoClient
        have hlen := (length_responseText_lt htime).le
        rw [List.take_of_length_le hlen, leftOver_eq_nil hlen, cString_responseText]
        have hidle : InTurn lossy _ :=
          .idle notWaiting_typing maySend_typing closed (past ++ [(time, request')])
        rwa [List.map_append, List.map_append] at hidle
    | lost => cases htoClient
    | broken hbroken' =>
        rw [hbroken'] at hbroken
        cases hbroken
  · cases hs with
    | idle hnot => exact absurd hclient (hnot request)
    | asked hrequest closed past =>
        exact .broken rfl notWaiting_typing maySend_typing (List.forall_mem_singleton.mpr hrequest)
          (List.prefix_refl _) (List.prefix_refl _)
    | replied htime request' closed past =>
        refine .broken rfl notWaiting_typing maySend_typing (List.forall_mem_nil _) ?_ ?_
        · rw [List.map_append]
          exact List.prefix_append _ _
        · rw [List.map_append, List.append_nil]
          exact List.prefix_refl _
    | lost hlossy time request' closed past =>
        refine .broken rfl notWaiting_typing maySend_typing (List.forall_mem_nil _) ?_ ?_
        · rw [List.map_append]
          exact List.prefix_append _ _
        · rw [List.map_append, List.append_nil]
          exact List.prefix_refl _
    | broken _ hnot => exact absurd hclient (hnot request)

/-- The server closes the socket, and the records stay where they are. -/
theorem InTurn.closes (hs : InTurn lossy s) : InTurn lossy { s with closed := true } := by
  cases hs with
  | idle hclient hsend closed past => exact .idle hclient hsend true past
  | asked hrequest closed past => exact .asked hrequest true past
  | replied htime request closed past => exact .replied htime request true past
  | lost hlossy time request closed past => exact .lost hlossy time request true past
  | broken hbroken hclient hsend hasked hshown htyped =>
      exact .broken hbroken hclient hsend hasked hshown htyped

/-- **The step lemma for the server.** An answer gets lost only when `SSL_write` fails. -/
theorem InTurn.of_exchanged {x : Exchange} (hs : InTurn lossy s) (hlossy : x.sent_bytes ≤ 0 → lossy)
    (h : Exchanged s x t) : InTurn lossy t := by
  rcases h with _ | @⟨payload, rest, -, htoServer, hfits⟩
  · exact hs.closes
  · cases hs with
    | idle => cases htoServer
    | asked hrequest closed past =>
        cases htoServer
        rw [hrequest.requestArrives]
        by_cases hsent : 0 < x.sent_bytes
        · rw [if_pos hsent]
          exact .replied hfits payload closed past
        · rw [if_neg hsent]
          exact .lost (hlossy (Int.not_lt.mp hsent)) x.time payload closed past
    | replied => cases htoServer
    | lost => cases htoServer
    | broken hbroken hclient hsend hasked hshown htyped =>
        rw [htoServer, List.forall_mem_cons] at hasked
        rw [htoServer] at htyped
        rw [hasked.1.requestArrives]
        refine .broken hbroken hclient hsend hasked.2 ?_ ?_
        · rw [List.map_append]
          exact hshown.trans (List.prefix_append _ _)
        · rw [List.map_append, List.append_assoc]
          exact htyped

/-- What is pending for the server it may have been sent. -/
theorem InTurn.sendable (hs : InTurn lossy s) : ∀ request ∈ s.toServer, Sendable request := by
  cases hs with
  | asked hrequest => exact List.forall_mem_singleton.mpr hrequest
  | broken _ _ _ hasked => exact hasked
  | _ => exact List.forall_mem_nil _

/-- **`InOrder s`** — the `k`-th text shown is the answer to the `k`-th request sent. -/
def InOrder (s : State) : Prop :=
  ∀ (k : ℕ) (text : Bytes), s.displayed[k]? = some text → ∃ time request,
    s.asked[k]? = some request ∧ s.answered[k]? = some (time, request) ∧ text = responseText time

theorem inOrder_of_prefix (hshown : s.displayed <+: s.answered.map shown)
    (htyped : s.answered.map Prod.snd <+: s.asked) : InOrder s := by
  intro k text htext
  have hmap := Tutorials.MultithreadServer.getElem?_of_prefix hshown htext
  rw [List.getElem?_map] at hmap
  obtain ⟨⟨time, request⟩, hanswer, rfl⟩ := Option.map_eq_some_iff.mp hmap
  refine ⟨time, request, Tutorials.MultithreadServer.getElem?_of_prefix htyped ?_, hanswer, rfl⟩
  rw [List.getElem?_map, hanswer]
  rfl

theorem InTurn.inOrder (hs : InTurn lossy s) : InOrder s := by
  cases hs with
  | idle => exact inOrder_of_prefix (List.prefix_refl _) (List.prefix_refl _)
  | asked => exact inOrder_of_prefix (List.prefix_refl _) (List.prefix_append _ _)
  | replied | lost =>
      refine inOrder_of_prefix ?_ ?_
      · rw [List.map_append]
        exact List.prefix_append _ _
      · rw [List.map_append]
        exact List.prefix_refl _
  | broken _ _ _ _ hshown htyped =>
      exact inOrder_of_prefix hshown ((List.prefix_append _ _).trans htyped)

/-- A client that waits has something to wait for, if no answer gets lost. -/
theorem InTurn.exists_pending (hs : InTurn False s) {request : Bytes} (hclient : s.client = .waiting request) :
    s.toServer = [request] ∨ ∃ time, s.toClient = [responseText time] := by
  cases hs with
  | idle hnot => exact absurd hclient (hnot request)
  | asked =>
      cases hclient
      exact .inl rfl
  | @replied time => exact .inr ⟨time, rfl⟩
  | lost hno => exact hno.elim
  | broken _ hnot => exact absurd hclient (hnot request)

/-- **Why a client of this program is closed**: it has left, TLS has failed, or `SSL_read` was called when
there was no whole record for it. -/
theorem InTurn.reason {x : Exchange} (hs : InTurn lossy s) (h : Exchanged s x t) (hends : x.ends = true) :
    x.incoming = .closed ∧ s.client = .left ∨ x.incoming = .fatal ∨
      ∃ payload size arrived, x.incoming = .record payload size arrived ∧ (payload = [] ∨ arrived < size) := by
  rcases h with ⟨-, ⟨hclosed, hleft, -⟩ | hfatal | hpart⟩ | @⟨payload, rest, hrequest, htoServer, -⟩
  · exact .inl ⟨hclosed, hleft⟩
  · exact .inr (.inl hfatal)
  · exact .inr (.inr hpart)
  · have hsendable := hs.sendable payload (by rw [htoServer]; exact List.mem_cons_self)
    rw [Exchange.ends, SslServer.shouldDisconnect_received, hrequest,
      List.take_of_length_le hsendable.length.le] at hends
    have hleaves : asksToLeave payload = true := hends
    rw [hsendable.not_asksToLeave] at hleaves
    cases hleaves

end InTurn

end LinuxNet.Openssl.SslClient
