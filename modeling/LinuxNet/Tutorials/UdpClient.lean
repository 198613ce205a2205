/-
# LinuxNet.Tutorials.UdpClient — `run_client` of `10_peer_to_peer_client_server.c`

The client resolves its server once. Then it reads commands, sends each of them to `*addr_server->ai_addr` and
waits for one datagram; and it has `recvfrom` put the sender of that datagram into `*addr_server->ai_addr`. So
whoever has answered last is asked next: the requests go where they should exactly when nobody else answers
(`requests_resolved_iff`).

An address is one of IPv4, so its length never changes.
-/
import LinuxNet.Tutorials.Conversation

namespace LinuxNet.Tutorials.UdpClient

open LinuxNet.Lib
open LinuxNet.Tutorials.Conversation (messageSize requestOf leaves)

/-- `struct sockaddr_in`. -/
structure Address where
  sin_addr : UInt32
  sin_port : UInt16
  deriving DecidableEq, Repr

/-- What `recvfrom` takes from the socket. -/
structure Datagram where
  sender : Address
  bytes : Bytes
  deriving DecidableEq, Repr

/-- Where the client is. -/
inductive Phase where
  /-- in `fgets` -/
  | typing
  /-- before `sendto` of this request -/
  | sending (request : Bytes)
  /-- in `recvfrom`, after this request -/
  | waiting (request : Bytes)
  /-- after the loop -/
  | left
  deriving DecidableEq, Repr

/-- Where the client is, and `*addr_server->ai_addr`. -/
structure State where
  phase : Phase
  ai_addr : Address
  deriving DecidableEq, Repr

/-- What the client waits for. -/
inductive Event where
  /-- `fgets` stores this line (nothing at the end of the input) -/
  | types (line : Bytes)
  /-- `sendto` answers -/
  | sendto (rc : Int)
  /-- `recvfrom` fails, or takes a datagram -/
  | recvfrom (datagram : Option Datagram)
  deriving DecidableEq

/-- `getaddrinfo` has returned this address. -/
def init (resolved : Address) : State := ⟨.typing, resolved⟩

/-- What follows `recvfrom`. -/
def recvfromReturns (s : State) (request : Bytes) : Option Datagram → State
  | none => { s with phase := .typing }
  | some d =>
    -- the sender is stored before anything is looked at
    let s := { s with ai_addr := d.sender }
    if d.bytes = [] then { s with phase := .typing }
    else { s with phase := if leaves request then .left else .typing }

/-- **One step of `run_client`.** -/
def step (s : State) (e : Event) : Option State :=
  match s.phase with
  | .typing =>
    match e with
    | .types line =>
      if line.length < messageSize then some { s with phase := .sending (requestOf line) } else none
    | .sendto _ | .recvfrom _ => none
  | .sending request =>
    match e with
    | .sendto rc => some { s with phase := if rc ≠ request.length then .typing else .waiting request }
    | .types _ | .recvfrom _ => none
  | .waiting request =>
    match e with
    | .recvfrom datagram => some (recvfromReturns s request datagram)
    | .types _ | .sendto _ => none
  | .left => none

/-- Where a request is sent. -/
def destinations (s : State) (e : Event) (_ : State) : List Address :=
  match e with
  | .sendto _ => [s.ai_addr]
  | .types _ | .recvfrom _ => []

/-! ## What a step can do -/

/-- **`Step s e t`** — everything one step can do. -/
inductive Step (s : State) : Event → State → Prop
  | types {line : Bytes} (hphase : s.phase = .typing) (hlen : line.length < messageSize) :
      Step s (.types line) { s with phase := .sending (requestOf line) }
  | sendFails {request : Bytes} {rc : Int} (hphase : s.phase = .sending request)
      (hshort : rc ≠ request.length) : Step s (.sendto rc) { s with phase := .typing }
  | sends {request : Bytes} {rc : Int} (hphase : s.phase = .sending request) (hall : rc = request.length) :
      Step s (.sendto rc) { s with phase := .waiting request }
  | recvFails {request : Bytes} (hphase : s.phase = .waiting request) :
      Step s (.recvfrom none) { s with phase := .typing }
  | recvs {request : Bytes} {d : Datagram} {phase : Phase} (hphase : s.phase = .waiting request)
      (hnext : phase = .typing ∨ phase = .left) : Step s (.recvfrom (some d)) ⟨phase, d.sender⟩

/-- **The inversion lemma**: a step is one of the cases of `Step`. -/
theorem Step.of_step {s t : State} {e : Event} (h : step s e = some t) : Step s e t := by
  unfold step at h
  rcases hphase : s.phase with _ | request | request | _
  · rw [hphase] at h
    rcases e with line | rc | datagram
    case types =>
      simp only at h
      split at h
      next hlen =>
        cases h
        exact .types hphase hlen
      next => cases h
    all_goals cases h
  · rw [hphase] at h
    rcases e with line | rc | datagram
    case sendto =>
      cases h
      split
      next hshort => exact .sendFails hphase hshort
      next hall => exact .sends hphase (not_not.mp hall)
    all_goals cases h
  · rw [hphase] at h
    rcases e with line | rc | datagram
    case recvfrom =>
      cases h
      rcases datagram with _ | d
      · exact .recvFails hphase
      · simp only [recvfromReturns]
        split
        · exact .recvs hphase (.inl rfl)
        · split
          · exact .recvs hphase (.inr rfl)
          · exact .recvs hphase (.inl rfl)
    all_goals cases h
  · rw [hphase] at h
    cases h

/-! ## The run -/

/-- Some request is sent among these events. -/
def Sends (es : List Event) : Prop := ∃ rc, .sendto rc ∈ es

/-- **The condition**: whoever a datagram comes from before a request is sent is the server. -/
def FromServer (resolved : Address) (es : List Event) : Prop :=
  ∀ d later, .recvfrom (some d) :: later <:+ es → Sends later → d.sender = resolved

section Events

variable {resolved : Address} {e : Event} {es : List Event}

theorem fromServer_nil : FromServer resolved [] := by
  intro d later hsuffix
  cases List.suffix_nil.mp hsuffix

/-- A datagram that is followed by a request, and the later ones. -/
theorem fromServer_recvfrom_iff {d : Datagram} :
    FromServer resolved (.recvfrom (some d) :: es) ↔
      (Sends es → d.sender = resolved) ∧ FromServer resolved es := by
  constructor
  · intro h
    exact ⟨h d es List.suffix_rfl, fun d' later hsuffix => h d' later (hsuffix.trans (List.suffix_cons _ _))⟩
  · rintro ⟨hsender, hlater⟩ d' later hsuffix hsends
    rcases List.suffix_cons_iff.mp hsuffix with heq | hsuffix
    · cases heq
      exact hsender hsends
    · exact hlater d' later hsuffix hsends

/-- Anything else does not matter. -/
theorem fromServer_cons_iff (hother : ∀ d, e ≠ .recvfrom (some d)) :
    FromServer resolved (e :: es) ↔ FromServer resolved es := by
  constructor
  · intro h d later hsuffix
    exact h d later (hsuffix.trans (List.suffix_cons _ _))
  · intro h d later hsuffix hsends
    rcases List.suffix_cons_iff.mp hsuffix with heq | hsuffix
    · cases heq
      exact absurd rfl (hother d)
    · exact h d later hsuffix hsends

/-- When no request is sent any more, it does not matter who answers. -/
theorem fromServer_of_not_sends (hnone : ¬ Sends es) : FromServer resolved es := by
  intro d later hsuffix ⟨rc, hin⟩
  exact absurd ⟨rc, hsuffix.subset (List.mem_cons_of_mem _ hin)⟩ hnone

end Events

/-- Only `sendto` sends a request. -/
theorem sends_types_iff {line : Bytes} {es : List Event} : Sends (.types line :: es) ↔ Sends es := by
  constructor
  · rintro ⟨rc, hin⟩
    rcases List.mem_cons.mp hin with heq | hin
    · cases heq
    · exact ⟨rc, hin⟩
  · rintro ⟨rc, hin⟩
    exact ⟨rc, List.mem_cons_of_mem _ hin⟩

variable {ok : State → Event → Prop} {resolved : Address} {s t : State} {es : List Event}

/-- A client that has another address than the server's is in order only if it sends nothing. -/
theorem resolved_iff_of_ne (h : Run step ok s es t) (haddr : s.ai_addr ≠ resolved)
    (hphase : ∀ request, s.phase ≠ .waiting request) :
    (∀ address ∈ observations step destinations s es, address = resolved) ↔ ¬ Sends es := by
  induction h with
  | nil s =>
      refine iff_of_true (List.forall_mem_nil _) ?_
      rintro ⟨rc, hin⟩
      cases hin
  | @cons s u t e es _ hst _ ih =>
      rw [observations_cons hst, List.forall_mem_append]
      rcases Step.of_step hst with ⟨-, -⟩ | ⟨-, -⟩ | ⟨-, -⟩ | ⟨hwait⟩ | ⟨hwait, -⟩
      case types =>
        rw [sends_types_iff, ih haddr fun request hno => by cases hno]
        exact and_iff_right (List.forall_mem_nil _)
      case sendFails | sends =>
        -- this request goes to the wrong address
        refine iff_of_false (fun hall => ?_) (not_not.mpr ⟨_, List.mem_cons_self⟩)
        exact haddr (hall.1 _ (List.mem_singleton_self _))
      all_goals exact absurd hwait (hphase _)

/-- A client that has the server's address is in order as long as the server answers. -/
theorem resolved_iff_of_eq (h : Run step ok s es t) (haddr : s.ai_addr = resolved) :
    (∀ address ∈ observations step destinations s es, address = resolved) ↔ FromServer resolved es := by
  induction h with
  | nil s => exact iff_of_true (List.forall_mem_nil _) fromServer_nil
  | @cons s u t e es _ hst hrest ih =>
      rw [observations_cons hst, List.forall_mem_append]
      rcases Step.of_step hst with ⟨-, -⟩ | ⟨-, -⟩ | ⟨-, -⟩ | ⟨-⟩ | ⟨-, hnext⟩
      case types | recvFails =>
        rw [fromServer_cons_iff (fun d hno => by cases hno), ih haddr]
        exact and_iff_right (List.forall_mem_nil _)
      case sendFails | sends =>
        rw [fromServer_cons_iff (fun d hno => by cases hno), ih haddr]
        exact and_iff_right (List.forall_mem_singleton.mpr haddr)
      case recvs request d phase _ =>
        have hnowhere : ∀ address ∈ destinations s (.recvfrom (some d)) ⟨phase, d.sender⟩, address = resolved :=
          List.forall_mem_nil _
        rw [fromServer_recvfrom_iff, and_iff_right hnowhere]
        by_cases hsender : d.sender = resolved
        · rw [ih hsender, and_iff_right fun _ => hsender]
        · have hmoved : ∀ request, phase ≠ .waiting request := by
            rintro request rfl
            rcases hnext with hno | hno
            · cases hno
            · cases hno
          rw [resolved_iff_of_ne hrest hsender hmoved]
          constructor
          · intro hnone
            exact ⟨fun hsends => absurd hsends hnone, fromServer_of_not_sends hnone⟩
          · rintro ⟨honly, -⟩ hsends
            exact hsender (honly hsends)

/-- **When the client talks to the server it resolved.** For every sequence of commands, answers of the system
and datagrams: every request is sent to the address `getaddrinfo` has returned, if and only if each datagram
received before a request came from that address. -/
theorem requests_resolved_iff (h : Run step ok (init resolved) es t) :
    (∀ address ∈ observations step destinations (init resolved) es, address = resolved) ↔
      FromServer resolved es :=
  resolved_iff_of_eq h rfl

/-- The server, on `localhost`. -/
def server : Address := ⟨0x7f000001, 45123⟩

/-- Another program on that host. -/
def stranger : Address := ⟨0x7f000001, 40000⟩

/-- A first command is answered by `sender`, and a second one is sent. -/
def twoCommands (sender : Address) : List Event :=
  [.types (ofText "a\n"), .sendto 1, .recvfrom (some ⟨sender, ofText "b"⟩), .types (ofText "c\n"),
    .sendto 1]

theorem exists_run_twoCommands (sender : Address) :
    ∃ t, Run step (fun _ _ => True) (init server) (twoCommands sender) t := by
  have hfirst : Run step (fun _ _ => True) (init server) [.types (ofText "a\n"), .sendto 1] _ :=
    .cons trivial rfl (.cons trivial rfl (.nil _))
  exact ⟨_, hfirst.append (.cons trivial rfl (.cons trivial rfl (.cons trivial rfl (.nil _))))⟩

theorem requests_resolved_iff_answered :
    ∃ t, Run step (fun _ _ => True) (init server) (twoCommands server) t ∧
      FromServer server (twoCommands server) := by
  obtain ⟨t, hrun⟩ := exists_run_twoCommands server
  have hdestinations : observations step destinations (init server) (twoCommands server) =
      [server, server] := by decide
  refine ⟨t, hrun, (requests_resolved_iff hrun).mp ?_⟩
  rw [hdestinations]
  decide

/-- **Whoever answers is asked next.** -/
theorem stranger_asked :
    ¬ ∀ (resolved : Address) (es : List Event) (t : State),
      Run step (fun _ _ => True) (init resolved) es t →
      ∀ address ∈ observations step destinations (init resolved) es, address = resolved := by
  intro hall
  obtain ⟨t, hrun⟩ := exists_run_twoCommands stranger
  have hdestinations : observations step destinations (init server) (twoCommands stranger) =
      [server, stranger] := by decide
  have hasked := hall server _ t hrun stranger (by rw [hdestinations]; decide)
  exact absurd hasked (by decide)

end LinuxNet.Tutorials.UdpClient
