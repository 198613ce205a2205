/-
# LinuxNet.Tutorials.Broadcast — any number of programs of `14_broadcasting.c` on one network

Each program has three threads. One broadcasts every second that its user is active, one shows what others
(and the program itself) have broadcast, and `main` waits for its user to leave. What is broadcast may get lost,
arrive late, in another order or several times, so the network is the messages broadcast so far, and anybody who
listens may get any of them next.

The nickname is put into a buffer of `MESSAGE_SIZE` bytes without a look at its length, and the buffer is sent
as a whole. With a nickname of at most 1013 bytes that is fine for everybody (`Short`). A longer one is written
past the end of the sender's own buffer, and what is sent has no NUL, so that everybody who shows it reads past
the end of theirs: `accesses_inside_iff` says exactly whose accesses go wrong. The bytes in a buffer are here
what is written into it also when more was written than fits; the bytes behind a buffer can be anything.
-/
import LinuxNet.Tutorials.Conversation
import LinuxNet.Lib.CString
import Mathlib.Logic.Function.Basic

namespace LinuxNet.Tutorials.Broadcast

open LinuxNet.Lib
open LinuxNet.Tutorials.Conversation (messageSize requestOf)

/-! ## One program -/

/-- `argv[1]`, a C string. -/
structure Nickname where
  text : Bytes
  noNul : (0 : UInt8) ∉ text

/-- What `sprintf` writes, less the NUL. -/
def activeText (nick_name : Nickname) : Bytes := nick_name.text ++ ofText " is active"

/-- `broadcast_message` after `memset` and `sprintf`. -/
def broadcastMessage (nick_name : Nickname) : Bytes :=
  (memcpy (List.replicate messageSize 0) (activeText nick_name ++ [0])).take messageSize

/-- Where `broadcast_receiver_thread_func` is. -/
inductive Receiver where
  /-- in `setup_broadcast_receiver` -/
  | settingUp
  /-- before `recvfrom` -/
  | listening
  /-- the set-up has failed -/
  | returned
  deriving DecidableEq, Repr

/-- Where `broadcast_sender_thread_func` is. -/
inductive Sender where
  /-- in `setup_broadcast_sender` -/
  | settingUp
  /-- before `memset` and `sprintf` -/
  | composing
  /-- before `sendto` of this message -/
  | sending (broadcast_message : Bytes)
  /-- the set-up has failed -/
  | returned
  deriving DecidableEq, Repr

/-- The threads of a program; `running` until `main` returns. -/
structure Program where
  running : Bool
  receiver : Receiver
  sender : Sender
  deriving DecidableEq, Repr

/-- `main` has created both threads. -/
def Program.start : Program := ⟨true, .settingUp, .settingUp⟩

/-- `setup_broadcast_receiver`, for what `socket`, `setsockopt` and `bind` answer. -/
def setupBroadcastReceiver (fd optRc bindRc : Int) : Int :=
  if fd < 0 then -1 else if optRc ≠ 0 then -1 else if bindRc < 0 then -1 else 0

/-- `setup_broadcast_sender`, for what `socket` and `setsockopt` answer. -/
def setupBroadcastSender (fd optRc : Int) : Int :=
  if fd < 0 then -1 else if optRc ≠ 0 then -1 else 0

/-- Whether `main` leaves its loop after this line. -/
def leaves (line : Bytes) : Bool := requestOf line == ofText "exit" || requestOf line == ofText "quit"

/-! ## All programs and the network -/

variable {ι : Type*}

/-- The programs, and what has been broadcast so far, each with the program that did it. -/
structure State (ι : Type*) where
  program : ι → Program
  air : List (ι × Bytes)

/-- Every program has started. -/
def init (ι : Type*) : State ι where
  program _ := .start
  air := []

/-- What happens next. -/
inductive Event (ι : Type*) where
  /-- the set-up of the receiver; `socket`, `setsockopt` and `bind` answer -/
  | receiverSetUp (i : ι) (fd optRc bindRc : Int)
  /-- `recvfrom` takes what this program has broadcast; `behind` stands behind `buffer` -/
  | takes (i source : ι) (datagram behind : Bytes)
  /-- `recvfrom` fails -/
  | recvfromFails (i : ι)
  /-- the set-up of the sender; `socket` and `setsockopt` answer -/
  | senderSetUp (i : ι) (fd optRc : Int)
  /-- `memset` and `sprintf` -/
  | composes (i : ι)
  /-- `sendto` answers -/
  | sendto (i : ι) (sent_bytes : Int)
  /-- `fgets` stores this line (nothing at the end of the input) -/
  | types (i : ι) (line : Bytes)

section Step

variable [DecidableEq ι]

/-- The state with another value for one program. -/
def State.set (s : State ι) (i : ι) (program : Program) : State ι :=
  { s with program := Function.update s.program i program }

/-- **One step of a program.** -/
def step (nick : ι → Nickname) (s : State ι) : Event ι → Option (State ι)
  | .receiverSetUp i fd optRc bindRc =>
    let p := s.program i
    if p.running ∧ p.receiver = .settingUp then
      some (s.set i { p with
        receiver := if setupBroadcastReceiver fd optRc bindRc ≠ 0 then .returned else .listening })
    else none
  | .takes i _ _ _ | .recvfromFails i =>
    let p := s.program i
    if p.running ∧ p.receiver = .listening then some s else none
  | .senderSetUp i fd optRc =>
    let p := s.program i
    if p.running ∧ p.sender = .settingUp then
      some (s.set i { p with sender := if setupBroadcastSender fd optRc ≠ 0 then .returned else .composing })
    else none
  | .composes i =>
    let p := s.program i
    if p.running ∧ p.sender = .composing then
      some (s.set i { p with sender := .sending (broadcastMessage (nick i)) })
    else none
  | .sendto i sent_bytes =>
    let p := s.program i
    match p.sender with
    | .sending broadcast_message =>
      if p.running then
        let s := s.set i { p with sender := .composing }
        -- a datagram is sent as a whole or not at all
        some (if sent_bytes ≤ 0 then s else { s with air := (i, broadcast_message) :: s.air })
      else none
    | .settingUp | .composing | .returned => none
  | .types i line =>
    let p := s.program i
    if p.running ∧ line.length < messageSize then
      some (if leaves line then s.set i { p with running := false } else s)
    else none

/-- What is taken has been broadcast. -/
def Guard (s : State ι) : Event ι → Prop
  | .takes _ source datagram _ => (source, datagram) ∈ s.air
  | .receiverSetUp .. | .recvfromFails _ | .senderSetUp .. | .composes _ | .sendto .. | .types .. => True

instance (s : State ι) (e : Event ι) : Decidable (Guard s e) := by
  unfold Guard
  split <;> infer_instance

/-- The accesses to `buffer` and to `broadcast_message` in a step, each with its program. -/
def accesses (nick : ι → Nickname) (_ : State ι) (e : Event ι) (_ : State ι) : List (ι × Access) :=
  match e with
  | .takes i _ datagram behind =>
    [(i, .write 0 messageSize), (i, .write 0 datagram.length)] ++
      -- an empty datagram is reported as a failure
      if datagram = [] then [] else [(i, readString (bufferMemory messageSize datagram behind) 0)]
  | .recvfromFails i => [(i, .write 0 messageSize)]
  | .composes i => [(i, .write 0 messageSize), (i, .write 0 ((activeText (nick i)).length + 1))]
  | .sendto i _ => [(i, .read 0 messageSize)]
  | .receiverSetUp .. | .senderSetUp .. | .types .. => []

/-- The text that is shown of a datagram. -/
def received (datagram behind : Bytes) : Bytes := cString (bufferMemory messageSize datagram behind)

end Step

/-! ## What is broadcast -/

/-- The nicknames that fit. -/
def Short (nick_name : Nickname) : Prop := nick_name.text.length ≤ 1013

instance (nick_name : Nickname) : Decidable (Short nick_name) := inferInstanceAs (Decidable (_ ≤ _))

section Message

variable {nick_name : Nickname}

theorem length_activeText : (activeText nick_name).length = nick_name.text.length + 10 := by
  rw [activeText, List.length_append]
  rfl

theorem nul_notMem_activeText : (0 : UInt8) ∉ activeText nick_name := by
  rw [activeText, List.mem_append, not_or]
  exact ⟨nick_name.noNul, by decide⟩

theorem short_iff : Short nick_name ↔ (activeText nick_name).length + 1 ≤ messageSize := by
  rw [Short, length_activeText, messageSize]
  omega

/-- The text of a short nickname stands in the buffer with its NUL, the rest is zero. -/
theorem broadcastMessage_of_short (h : Short nick_name) :
    broadcastMessage nick_name = bufferMemory messageSize (activeText nick_name) [] := by
  have hle := short_iff.mp h
  have hzeros : messageSize - (activeText nick_name).length =
      messageSize - ((activeText nick_name).length + 1) + 1 := by omega
  rw [broadcastMessage, memcpy, List.length_append, List.length_singleton, List.drop_replicate,
    List.take_of_length_le, bufferMemory, List.append_nil, hzeros, List.replicate_succ, List.append_assoc,
    List.singleton_append]
  rw [List.length_append, List.length_append, List.length_singleton, List.length_replicate]
  omega

/-- Of a longer one the buffer holds the beginning. -/
theorem broadcastMessage_of_not_short (h : ¬ Short nick_name) :
    broadcastMessage nick_name = (activeText nick_name).take messageSize := by
  have hlt : messageSize ≤ (activeText nick_name).length := by
    have hno := mt short_iff.mpr h
    omega
  rw [broadcastMessage, memcpy, List.append_assoc, List.take_append_of_le_length hlt]

theorem length_broadcastMessage : (broadcastMessage nick_name).length = messageSize := by
  by_cases h : Short nick_name
  · have hle := short_iff.mp h
    rw [broadcastMessage_of_short h, bufferMemory, List.append_nil, List.length_append, List.length_replicate]
    omega
  · have hno := mt short_iff.mpr h
    rw [broadcastMessage_of_not_short h, List.length_take]
    omega

/-- **There is a NUL in the message exactly when the nickname is short.** -/
theorem nul_mem_broadcastMessage_iff : (0 : UInt8) ∈ broadcastMessage nick_name ↔ Short nick_name := by
  constructor
  · intro hin
    by_contra h
    rw [broadcastMessage_of_not_short h] at hin
    exact nul_notMem_activeText (List.mem_of_mem_take hin)
  · intro h
    have hle := short_iff.mp h
    rw [broadcastMessage_of_short h, bufferMemory, List.append_nil, List.mem_append, List.mem_replicate]
    exact .inr ⟨by omega, rfl⟩

theorem broadcastMessage_ne_nil : broadcastMessage nick_name ≠ [] := by
  apply List.ne_nil_of_length_pos
  rw [length_broadcastMessage]
  decide

/-- Showing the message of a program stays in the buffer exactly when its nickname is short. -/
theorem readString_broadcastMessage_iff (behind : Bytes) :
    (readString (bufferMemory messageSize (broadcastMessage nick_name) behind) 0).Inside messageSize ↔
      Short nick_name := by
  rw [readString_bufferMemory_iff (Nat.le_of_eq length_broadcastMessage), length_broadcastMessage,
    or_iff_right (Nat.lt_irrefl messageSize), nul_mem_broadcastMessage_iff]

/-- The message of a short nickname is shown as it was meant. -/
theorem received_of_short (h : Short nick_name) (behind : Bytes) :
    received (broadcastMessage nick_name) behind = activeText nick_name := by
  have hroom : (activeText nick_name).length < messageSize := short_iff.mp h
  rw [received, cString_bufferMemory (.inr (nul_mem_broadcastMessage_iff.mpr h)), broadcastMessage_of_short h,
    cString_bufferMemory (.inl hroom), cString_of_notMem nul_notMem_activeText]

end Message

/-! ## What a step can do -/

section Inversion

variable {nick : ι → Nickname} [DecidableEq ι] {s t : State ι} {e : Event ι}

@[simp] theorem State.set_air (i : ι) (p : Program) : (s.set i p).air = s.air := rfl

theorem State.set_program (i j : ι) (p : Program) :
    (s.set i p).program j = if j = i then p else s.program j := Function.update_apply ..

/-- **`Step nick s e t`** — what one step can do to the messages, on the air and about to be sent. -/
inductive Step (nick : ι → Nickname) (s : State ι) : Event ι → State ι → Prop
  | moves {i : ι} {p : Program} {e : Event ι}
      (hquiet : ∀ m, p.sender = .sending m → (s.program i).sender = .sending m) :
      Step nick s e (s.set i p)
  | stays {e : Event ι} : Step nick s e s
  | composes {i : ι} :
      Step nick s (.composes i)
        (s.set i { s.program i with sender := .sending (broadcastMessage (nick i)) })
  | sends {i : ι} {m : Bytes} {sent_bytes : Int} (hsender : (s.program i).sender = .sending m)
      (hpos : 0 < sent_bytes) :
      Step nick s (.sendto i sent_bytes)
        { s.set i { s.program i with sender := .composing } with air := (i, m) :: s.air }

/-- **The inversion lemma.** -/
theorem Step.of_step (h : step nick s e = some t) : Step nick s e t := by
  rcases e with ⟨i, fd, optRc, bindRc⟩ | ⟨i, source, datagram, behind⟩ | i | ⟨i, fd, optRc⟩ | i |
    ⟨i, sent_bytes⟩ | ⟨i, line⟩
  case receiverSetUp =>
    obtain ⟨-, ⟨⟩⟩ := Option.ite_none_right_eq_some.mp h
    exact .moves fun m hm => hm
  case takes =>
    obtain ⟨-, ⟨⟩⟩ := Option.ite_none_right_eq_some.mp h
    exact .stays
  case recvfromFails =>
    obtain ⟨-, ⟨⟩⟩ := Option.ite_none_right_eq_some.mp h
    exact .stays
  case senderSetUp =>
    obtain ⟨-, ⟨⟩⟩ := Option.ite_none_right_eq_some.mp h
    refine .moves fun m hm => ?_
    simp only at hm
    split at hm <;> cases hm
  case composes =>
    obtain ⟨-, ⟨⟩⟩ := Option.ite_none_right_eq_some.mp h
    exact .composes
  case sendto =>
    simp only [step] at h
    split at h
    next m hsender =>
      obtain ⟨-, ⟨⟩⟩ := Option.ite_none_right_eq_some.mp h
      split
      next => exact .moves fun m hm => by cases hm
      next hpos => exact .sends hsender (Int.not_le.mp hpos)
    all_goals cases h
  case types =>
    obtain ⟨-, ⟨⟩⟩ := Option.ite_none_right_eq_some.mp h
    split
    · exact .moves fun m hm => hm
    · exact .stays

end Inversion

/-! ## Whose messages are on the air -/

section Origin

variable {nick : ι → Nickname} [DecidableEq ι] {s t : State ι} {e : Event ι} {es : List (Event ι)}

/-- **`Origin nick es s`** — after the events `es` every message is the one of the program it comes from, and
that program has broadcast it. -/
structure Origin (nick : ι → Nickname) (es : List (Event ι)) (s : State ι) : Prop where
  composed : ∀ i m, (s.program i).sender = .sending m → m = broadcastMessage (nick i)
  sent : ∀ i m, (i, m) ∈ s.air → m = broadcastMessage (nick i) ∧ ∃ rc, 0 < rc ∧ .sendto i rc ∈ es

omit [DecidableEq ι] in
theorem origin_init : Origin nick [] (init ι) where
  composed i m h := by cases h
  sent i m h := by cases h

/-- **The step lemma.** -/
theorem Origin.step (horigin : Origin nick es s) (h : step nick s e = some t) :
    Origin nick (es ++ [e]) t := by
  have hair : ∀ i m, (i, m) ∈ s.air → m = broadcastMessage (nick i) ∧ ∃ rc, 0 < rc ∧
      .sendto i rc ∈ es ++ [e] := by
    intro i m hm
    obtain ⟨heq, rc, hpos, hin⟩ := horigin.sent i m hm
    exact ⟨heq, rc, hpos, List.mem_append_left _ hin⟩
  cases Step.of_step h with
  | @moves i p _ hquiet =>
      refine ⟨fun j m hm => ?_, hair⟩
      rw [State.set_program] at hm
      split at hm
      next heq =>
        subst heq
        exact horigin.composed j m (hquiet m hm)
      next => exact horigin.composed j m hm
  | stays => exact ⟨horigin.composed, hair⟩
  | @composes i =>
      refine ⟨fun j m hm => ?_, hair⟩
      rw [State.set_program] at hm
      split at hm
      next heq =>
        cases hm
        rw [heq]
      next => exact horigin.composed j m hm
  | @sends i m rc hsender hpos =>
      refine ⟨fun j m' hm => ?_, fun j m' hm => ?_⟩
      · rw [show State.program _ j = _ from State.set_program i j _] at hm
        split at hm
        next => cases hm
        next => exact horigin.composed j m' hm
      · rcases List.mem_cons.mp hm with heq | hm
        · cases heq
          exact ⟨horigin.composed i m hsender, rc, hpos, List.mem_append_right _ (List.mem_singleton_self _)⟩
        · exact hair j m' hm

/-- **The run lemma.** -/
theorem origin_of_run (h : Run (step nick) Guard (init ι) es t) : Origin nick es t :=
  h.invariant_events (I := Origin nick) (fun _ _ _ _ horigin _ hst => horigin.step hst) origin_init

end Origin

/-! ## What goes wrong, and where -/

section Runs

variable {nick : ι → Nickname} [DecidableEq ι] {s t : State ι} {e : Event ι} {es : List (Event ι)}

/-- Nothing in this event takes the accesses of the program past the end of a buffer. -/
def Spares (nick : ι → Nickname) (i : ι) : Event ι → Prop
  | .takes j source _ _ => j = i → Short (nick source)
  | .composes j => j = i → Short (nick j)
  | .receiverSetUp .. | .recvfromFails _ | .senderSetUp .. | .sendto .. | .types .. => True

omit [DecidableEq ι] in
/-- The accesses of one program in one step. -/
theorem accesses_inside_iff_spares (horigin : Origin nick es s) (hguard : Guard s e) (i : ι) :
    (∀ a ∈ accesses nick s e t, a.1 = i → a.2.Inside messageSize) ↔ Spares nick i e := by
  have hzeroed : (Access.write 0 messageSize).Inside messageSize := inside_write.mpr (Nat.zero_add _).le
  rcases e with _ | ⟨j, source, datagram, behind⟩ | j | _ | j | ⟨j, rc⟩ | _
  case takes =>
    obtain ⟨rfl, -⟩ := horigin.sent source datagram hguard
    have hwritten : (Access.write 0 (broadcastMessage (nick source)).length).Inside messageSize := by
      rw [length_broadcastMessage]
      exact hzeroed
    rw [accesses, if_neg broadcastMessage_ne_nil, List.forall_mem_append, List.forall_mem_cons,
      List.forall_mem_singleton, List.forall_mem_singleton, readString_broadcastMessage_iff, Spares]
    exact and_iff_right ⟨fun _ => hzeroed, fun _ => hwritten⟩
  case composes =>
    have hwritten : (Access.write 0 ((activeText (nick j)).length + 1)).Inside messageSize ↔
        Short (nick j) := by
      rw [inside_write, Nat.zero_add, short_iff]
    rw [accesses, List.forall_mem_cons, List.forall_mem_singleton, hwritten, Spares]
    exact and_iff_right fun _ => hzeroed
  case recvfromFails =>
    refine iff_of_true (fun a ha _ => ?_) trivial
    rw [List.mem_singleton.mp ha]
    exact hzeroed
  case sendto =>
    refine iff_of_true (fun a ha _ => ?_) trivial
    rw [List.mem_singleton.mp ha]
    exact inside_read.mpr (Nat.zero_add _).le
  all_goals exact iff_of_true (fun a ha => by cases ha) trivial

/-- **Who is hurt by a long nickname**: in every run of any number of programs, all accesses of one program to
its buffers stay inside exactly when its own nickname is short (or it never got to broadcast) and so is every
nickname it has got a message from. -/
theorem accesses_inside_iff (h : Run (step nick) Guard (init ι) es t) (i : ι) :
    (∀ a ∈ observations (step nick) (accesses nick) (init ι) es, a.1 = i → a.2.Inside messageSize) ↔
      (.composes i ∈ es → Short (nick i)) ∧
        ∀ source datagram behind, .takes i source datagram behind ∈ es → Short (nick source) := by
  have hall : (∀ a ∈ observations (step nick) (accesses nick) (init ι) es, a.1 = i → a.2.Inside messageSize) ↔
      ∀ e ∈ es, Spares nick i e :=
    h.forall_observations_iff_events (I := Origin nick) (Q := Spares nick i)
      (fun _ _ _ _ horigin hok hst => ⟨accesses_inside_iff_spares horigin hok i, horigin.step hst⟩) origin_init
  rw [hall]
  constructor
  · intro hspares
    exact ⟨fun hin => hspares _ hin rfl, fun source datagram behind hin => hspares _ hin rfl⟩
  · rintro ⟨hcomposes, htakes⟩ e hin
    unfold Spares
    split
    next j source datagram behind =>
      rintro rfl
      exact htakes source datagram behind hin
    next j =>
      rintro rfl
      exact hcomposes hin
    all_goals trivial

/-- The second of two programs listens to the first. -/
def listens (nick : Fin 2 → Nickname) : List (Event (Fin 2)) :=
  [.senderSetUp 0 3 0, .composes 0, .sendto 0 1024, .receiverSetUp 1 3 0 0] ++
    .takes 1 0 (broadcastMessage (nick 0)) [] :: []

theorem run_listens (nick : Fin 2 → Nickname) :
    ∃ t, Run (step nick) Guard (init (Fin 2)) (listens nick) t := by
  refine ⟨_, .cons trivial rfl (.cons trivial rfl (.cons trivial rfl (.cons trivial rfl
    (.cons ?_ rfl (.nil _)))))⟩
  exact List.mem_cons_self

/-- A name of this many letters. -/
def letters (n : ℕ) : Nickname :=
  ⟨List.replicate n 97, fun h => absurd (List.eq_of_mem_replicate h) (by decide)⟩

/-- A name of 1014 letters is one too many. -/
theorem accesses_inside_iff_letters :
    ¬ ∀ a ∈ observations (step fun _ => letters 1014) (accesses fun _ => letters 1014) (init (Fin 2))
      (listens fun _ => letters 1014), a.1 = 1 → a.2.Inside messageSize := by
  obtain ⟨t, hrun⟩ := run_listens fun _ => letters 1014
  rw [accesses_inside_iff hrun 1]
  rintro ⟨-, hshort⟩
  have hle : (List.replicate 1014 (97 : UInt8)).length ≤ 1013 :=
    hshort 0 (broadcastMessage (letters 1014)) [] (List.mem_append_right _ List.mem_cons_self)
  rw [List.length_replicate] at hle
  omega

/-- **What is shown is meant**: whatever the network does, a message that is taken comes from a program that
has broadcast before, and if the nickname of that program is short, the text shown is that it is active. -/
theorem received_of_run {before after : List (Event ι)} {i source : ι} {datagram behind : Bytes}
    (h : Run (step nick) Guard (init ι) (before ++ .takes i source datagram behind :: after) t) :
    (∃ rc, 0 < rc ∧ .sendto source rc ∈ before) ∧
      (Short (nick source) → received datagram behind = activeText (nick source)) := by
  obtain ⟨s, hbefore, hafter⟩ := h.exists_of_append
  rcases hafter with _ | ⟨hguard, -, -⟩
  obtain ⟨rfl, hsent⟩ := (origin_of_run hbefore).sent source datagram hguard
  exact ⟨hsent, fun hshort => received_of_short hshort behind⟩

theorem received_of_run_letters :
    received (broadcastMessage (letters 1013)) [] = activeText (letters 1013) := by
  obtain ⟨t, hrun⟩ := run_listens fun _ => letters 1013
  apply (received_of_run hrun).2
  show (List.replicate 1013 (97 : UInt8)).length ≤ 1013
  rw [List.length_replicate]

end Runs

end LinuxNet.Tutorials.Broadcast
