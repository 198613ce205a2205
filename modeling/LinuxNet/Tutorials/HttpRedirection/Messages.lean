/-
# LinuxNet.Tutorials.HttpRedirection.Messages — what is sent, what is received, and what the caller sees of it

A run of `perform_http_request` sends requests and receives replies, one of each on every level it gets that
far on (`messages`). Each reply is copied to the start of the caller's buffer, over what is there, and nothing
is put behind it. So the buffer holds the replies one on top of the other (`response_eq`), and the last one is
read from it as it was received exactly when none before it was longer (`final_reply_iff`). This is so as long
as the names fit into what they are printed into; one that does not may be printed over `response` itself.
-/
import LinuxNet.Tutorials.HttpRedirection.Frame

namespace LinuxNet.Tutorials.HttpRedirection

open LinuxNet.Lib LinuxNet.Posix

/-! ## Requests and replies -/

/-- What has been sent as a whole, and what has been received when the receive loop ended. -/
inductive Message where
  | request (text : Bytes)
  | reply (text : Bytes)
  deriving DecidableEq, Repr

/-- The requests among some messages. -/
def requestsIn (ms : List Message) : List Bytes :=
  ms.filterMap fun
    | .request text => some text
    | .reply _ => none

/-- The replies among them. -/
def repliesIn (ms : List Message) : List Bytes :=
  ms.filterMap fun
    | .reply text => some text
    | .request _ => none

@[simp] theorem requestsIn_append (ms ms' : List Message) :
    requestsIn (ms ++ ms') = requestsIn ms ++ requestsIn ms' := List.filterMap_append

@[simp] theorem repliesIn_append (ms ms' : List Message) :
    repliesIn (ms ++ ms') = repliesIn ms ++ repliesIn ms' := List.filterMap_append

/-! What one more message adds. -/

section Concat

variable (ms : List Message) (text : Bytes)

theorem requestsIn_request : requestsIn (ms ++ [.request text]) = requestsIn ms ++ [text] :=
  requestsIn_append ms _

theorem repliesIn_request : repliesIn (ms ++ [.request text]) = repliesIn ms :=
  (repliesIn_append ms _).trans (List.append_nil _)

theorem requestsIn_reply : requestsIn (ms ++ [.reply text]) = requestsIn ms :=
  (requestsIn_append ms _).trans (List.append_nil _)

theorem repliesIn_reply : repliesIn (ms ++ [.reply text]) = repliesIn ms ++ [text] :=
  repliesIn_append ms _

end Concat

/-- The message a step completes. -/
def messages (s : State) (e : Event) (_ : State) : List Message :=
  match s.phase with
  | .calling _ _ _ | .returned _ => []
  | .sending c http_sent_bytes =>
    match e with
    | .send sent_bytes =>
      if 0 < sent_bytes ∧ c.httpRequest.length ≤ http_sent_bytes + sent_bytes.toNat then
        [.request c.httpRequest]
      else []
    | .opens _ | .recv _ _ => []
  | .receiving _ http_response =>
    match e with
    | .recv received _ => if received.received ≤ 0 then [.reply http_response] else []
    | .opens _ | .send _ => []

section Runs

variable (next : State → Event → Option State) (s : State) (es : List Event)

/-- The requests sent in a run with these steps. -/
def requests : List Bytes := requestsIn (observations next messages s es)

/-- The replies received in a run with these steps. -/
def repliesOf : List Bytes := repliesIn (observations next messages s es)

end Runs

/-! What the steps complete, one lemma per way a step can end. -/

section Steps

variable {s : State} {c : Connection}

theorem messages_calling {host_name path : Bytes} {redirect_count : ℕ}
    (hphase : s.phase = .calling host_name path redirect_count) (e : Event) (t : State) :
    messages s e t = [] := by
  rw [messages, hphase]

theorem messages_sends {http_sent_bytes : ℕ} {sent_bytes : Int} (hphase : s.phase = .sending c http_sent_bytes)
    (hmore : 0 < sent_bytes → http_sent_bytes + sent_bytes.toNat < c.httpRequest.length) (t : State) :
    messages s (.send sent_bytes) t = [] := by
  rw [messages, hphase]
  exact if_neg fun h => (hmore h.1).not_ge h.2

theorem messages_sendsLast {http_sent_bytes : ℕ} {sent_bytes : Int}
    (hphase : s.phase = .sending c http_sent_bytes) (hpos : 0 < sent_bytes)
    (hall : c.httpRequest.length ≤ http_sent_bytes + sent_bytes.toNat) (t : State) :
    messages s (.send sent_bytes) t = [.request c.httpRequest] := by
  rw [messages, hphase]
  exact if_pos ⟨hpos, hall⟩

theorem messages_receives {http_response : Bytes} {received : Received}
    (hphase : s.phase = .receiving c http_response) (hpos : 0 < received.received) (behind : Bytes)
    (t : State) : messages s (.recv received behind) t = [] := by
  rw [messages, hphase]
  exact if_neg (Int.not_le.mpr hpos)

theorem messages_ends {http_response : Bytes} {received : Received}
    (hphase : s.phase = .receiving c http_response) (hend : received.received ≤ 0) (behind : Bytes)
    (t : State) : messages s (.recv received behind) t = [.reply http_response] := by
  rw [messages, hphase]
  exact if_pos hend

end Steps

/-! ## The buffer of the caller -/

/-- The buffer after some messages: the replies, each copied over those before it. -/
def Copied (response : Option Bytes) (ms : List Message) (s : State) : Prop :=
  s.response = response.map ((repliesIn ms).foldl memcpy)

/-- A step that completes no reply leaves the buffer alone. -/
theorem Copied.quiet {response : Option Bytes} {ms ms' : List Message} {s t : State}
    (hs : Copied response ms s) (hms : repliesIn ms' = []) (ht : t.response = s.response) :
    Copied response (ms ++ ms') t := by
  rw [Copied, repliesIn_append, hms, List.append_nil, ht]
  exact hs

/-- A reply is copied over what is there. -/
theorem Copied.reply {response : Option Bytes} {ms : List Message} {s t : State} {http_response : Bytes}
    (hs : Copied response ms s) (ht : t.response = s.response.map (memcpy · http_response)) :
    Copied response (ms ++ [.reply http_response]) t := by
  rw [Copied, repliesIn_reply, ht, hs, Option.map_map]
  congr 1
  funext buffer
  exact (List.foldl_concat memcpy buffer http_response (repliesIn ms)).symm

theorem copied_of_step {response : Option Bytes} {ms : List Message} {s t : State} {e : Event}
    (hs : Copied response ms s) (h : step s e = some t) : Copied response (ms ++ messages s e t) t := by
  rcases Step.of_step h with ⟨hphase, -⟩ | ⟨hphase, -, -⟩ | ⟨hphase, -, -⟩ | ⟨hphase, -, -, -⟩ |
    ⟨hphase, -, -, -, -⟩ | ⟨hphase, -, -, -, -⟩ | ⟨hphase, hfail⟩ | ⟨hphase, -, hmore⟩ | ⟨hphase, hpos, hall⟩ |
    ⟨hphase, hpos⟩ | ⟨hphase, hend, -⟩ | ⟨hphase, hend, -⟩
  case sendFails =>
    rw [messages_sends hphase fun hpos => absurd hfail (Int.not_le.mpr hpos)]
    exact hs.quiet rfl rfl
  case sends =>
    rw [messages_sends hphase fun _ => hmore]
    exact hs.quiet rfl rfl
  case sendsLast =>
    rw [messages_sendsLast hphase hpos hall]
    exact hs.quiet rfl rfl
  case receives =>
    rw [messages_receives hphase hpos]
    exact hs.quiet rfl rfl
  case redirects =>
    rw [messages_ends hphase hend]
    exact hs.reply rfl
  case finishes =>
    rw [messages_ends hphase hend]
    exact hs.reply rfl
  all_goals
    rw [messages_calling hphase]
    exact hs.quiet rfl rfl

/-- **The buffer holds the replies one on top of the other.** -/
theorem response_eq {ok : State → Event → Prop} {host_name path : Bytes} {response : Option Bytes}
    {redirect_count : ℕ} {es : List Event} {t : State}
    (h : Run step ok (init host_name path response redirect_count) es t) :
    t.response =
      response.map ((repliesOf step (init host_name path response redirect_count) es).foldl memcpy) := by
  refine h.invariant_observations (I := Copied response) ?_ ?_
  · intro ms s e t hs _ hstep
    exact copied_of_step hs hstep
  · show response = response.map id
    rw [Option.map_id]
    rfl

/-- A call that returns `HTTP_SUCCESSUL` has received a reply. -/
theorem repliesOf_ne_nil {ok : State → Event → Prop} {s t : State} {es : List Event}
    (h : Run step ok s es t) (hs : s.phase ≠ .returned .successul) (ht : t.phase = .returned .successul) :
    repliesOf step s es ≠ [] := by
  induction h with
  | nil => exact absurd ht hs
  | @cons s u t e es _ hst hrest ih =>
      rw [repliesOf, observations_cons hst, repliesIn_append]
      by_cases hu : u.phase = .returned .successul
      · apply List.append_ne_nil_of_left_ne_nil
        rcases Step.of_step hst with ⟨-, -⟩ | ⟨-, -, -⟩ | ⟨-, -, -⟩ | ⟨-, -, -, -⟩ | ⟨-, -, -, -, -⟩ |
          ⟨-, -, -, -, -⟩ | ⟨-, -⟩ | ⟨-, -, -⟩ | ⟨-, -, -⟩ | ⟨-, -⟩ | ⟨-, -, -⟩ | ⟨hphase, hend, -⟩
        case finishes =>
          rw [messages_ends hphase hend]
          exact List.cons_ne_nil _ _
        all_goals cases hu
      · exact List.append_ne_nil_of_right_ne_nil _ (ih hu ht)

/-! ## Several calls on one buffer -/

/-- A reply without NUL that leaves room for one. -/
def Plain (reply : Bytes) : Prop := (0 : UInt8) ∉ reply ∧ reply.length < messageSize

/-- **`Calls next ok response replies`** — some calls with these steps, one after the other, have left
`response` in a buffer that was zeroed before the first of them; `replies` is what they received, oldest
first. -/
inductive Calls (next : State → Event → Option State) (ok : State → Event → Prop) : Bytes → List Bytes → Prop
  | zeroed : Calls next ok zeroedResponse []
  | call {response response' : Bytes} {replies : List Bytes} {host_name path : Bytes} {redirect_count : ℕ}
      {es : List Event} {t : State} {result : HttpResult} (hbefore : Calls next ok response replies)
      (hrun : Run next ok (init host_name path (some response) redirect_count) es t)
      (hreturned : t.phase = .returned result) (hresponse : t.response = some response') :
      Calls next ok response'
        (replies ++ repliesOf next (init host_name path (some response) redirect_count) es)

/-- The system answers what it may, and the names fit. -/
def AllowedFit (s : State) (e : Event) : Prop := Allowed s e ∧ NamesFit s e

instance (s : State) (e : Event) : Decidable (AllowedFit s e) :=
  inferInstanceAs (Decidable (Allowed s e ∧ NamesFit s e))

/-- As long as the names fit, a run is one of `step`, with the same replies. -/
theorem run_of_allowedFit {frame : State → Event → Option State} {s t : State} {es : List Event}
    (h : Run (stepInFrame frame) AllowedFit s es t) :
    Run step AllowedFit s es t ∧ repliesOf (stepInFrame frame) s es = repliesOf step s es := by
  rw [run_stepInFrame_iff fun _ _ hok => hok.2] at h
  exact ⟨h, congrArg repliesIn (h.observations_eq fun _ _ hok => stepInFrame_eq hok.2)⟩

theorem Calls.response_eq {frame : State → Event → Option State} {response : Bytes} {replies : List Bytes}
    (h : Calls (stepInFrame frame) AllowedFit response replies) :
    response = replies.foldl memcpy zeroedResponse := by
  induction h with
  | zeroed => rfl
  | @call response response' replies host_name path redirect_count es t result _ hrun _ hresponse ih =>
      obtain ⟨hrun, hreplies⟩ := run_of_allowedFit hrun
      have hcopied := HttpRedirection.response_eq hrun
      rw [hresponse, Option.map_some] at hcopied
      rw [hreplies, Option.some.inj hcopied, List.foldl_append, ← ih]

/-- **When the caller sees the final reply.** After any calls on one buffer that was zeroed once, and any
redirections, as long as the names fit and whatever lies behind the buffers: when a call returns
`HTTP_SUCCESSUL`, the string in the buffer is the last reply that call received if and only if no reply before
it, of this call or of an earlier one, was longer. -/
theorem final_reply_iff {frame : State → Event → Option State} {response : Bytes} {earlier : List Bytes}
    (hcalls : Calls (stepInFrame frame) AllowedFit response earlier)
    {host_name path : Bytes} {redirect_count : ℕ} {es : List Event} {t : State}
    (h : Run (stepInFrame frame) AllowedFit (init host_name path (some response) redirect_count) es t)
    (hreturned : t.phase = .returned .successul)
    (hplain : ∀ reply ∈
      earlier ++ repliesOf (stepInFrame frame) (init host_name path (some response) redirect_count) es,
      Plain reply) :
    ∃ before last buffer,
      repliesOf (stepInFrame frame) (init host_name path (some response) redirect_count) es =
        before ++ [last] ∧
      t.response = some buffer ∧
      (cString buffer = last ↔ ∀ reply ∈ earlier ++ before, reply.length ≤ last.length) := by
  obtain ⟨h, hreplies⟩ := run_of_allowedFit h
  rw [hreplies] at hplain ⊢
  have hrunning : (init host_name path (some response) redirect_count).phase ≠ .returned .successul := by
    intro hno
    cases hno
  obtain ⟨before, last, hsplit⟩ :=
    (List.eq_nil_or_concat' _).resolve_left (repliesOf_ne_nil h hrunning hreturned)
  have hbuffer : t.response = some (memcpy (before.foldl memcpy response) last) := by
    rw [HttpRedirection.response_eq h, hsplit, Option.map_some, List.foldl_concat]
  refine ⟨before, last, _, hsplit, hbuffer, ?_⟩
  rw [hsplit, ← List.append_assoc] at hplain
  obtain ⟨hbefore, hlast⟩ := List.forall_mem_append.mp hplain
  rw [cString_memcpy_eq_iff (hlast last (List.mem_singleton_self last)).1, hcalls.response_eq,
    ← List.foldl_append]
  exact getD_copies_eq_zero_iff (fun reply hreply => (hbefore reply hreply).1) messageSize last.length

/-- A page that is answered as a whole. -/
def page (body : String) : Bytes := ofText "HTTP/1.1 200 OK\r\n\r\n" ++ ofText body

/-- A call for `/200`, answered with this page. -/
def pageEvents (body : String) : List Event :=
  [reached 1 3, .send 59, .recv (.data (page body)) [], .recv (.data []) []]

/-- The call of `main` for `/200`, with this in its buffer. -/
def pageCall (response : Bytes) : State := mainCall (ofText "/200") response

theorem final_reply_iff_page :
    ∃ t buffer, Run (stepInFrame debugFrame) AllowedFit (pageCall zeroedResponse) (pageEvents "hello") t ∧
      t.response = some buffer ∧ cString buffer = page "hello" := by
  have hexec : (execOk (stepInFrame debugFrame) AllowedFit (pageCall zeroedResponse) (pageEvents "hello")).any
      (fun t => t.phase = .returned .successul) = true := by decide
  have hreplies : repliesOf (stepInFrame debugFrame) (pageCall zeroedResponse) (pageEvents "hello") =
      [] ++ [page "hello"] := by decide
  have hplain : ∀ reply ∈ [] ++ repliesOf (stepInFrame debugFrame) (pageCall zeroedResponse)
      (pageEvents "hello"), Plain reply := by
    rw [hreplies]
    intro reply hreply
    rw [List.mem_singleton.mp hreply]
    exact ⟨by decide, by decide⟩
  obtain ⟨t, hrun, ht⟩ := exists_run_of_exec_any hexec
  obtain ⟨before, last, buffer, hsplit, hbuffer, hiff⟩ :=
    final_reply_iff .zeroed hrun (of_decide_eq_true ht) hplain
  have hparts : before ++ [last] = [] ++ [page "hello"] := hsplit.symm.trans hreplies
  obtain ⟨rfl, hlast⟩ := List.append_inj' hparts rfl
  obtain rfl := List.singleton_inj.mp hlast
  exact ⟨t, buffer, hrun, hbuffer, hiff.mpr (List.forall_mem_nil _)⟩

/-- **A shorter page leaves the end of a longer one** behind it. -/
theorem longer_reply_shows :
    ¬ ∀ (response : Bytes) (earlier : List Bytes), Calls (stepInFrame debugFrame) Allowed response earlier →
      ∀ (host_name path : Bytes) (redirect_count : ℕ) (es : List Event) (t : State),
      Run (stepInFrame debugFrame) Allowed (init host_name path (some response) redirect_count) es t →
      t.phase = .returned .successul →
      (∀ reply ∈ earlier ++ repliesOf (stepInFrame debugFrame)
        (init host_name path (some response) redirect_count) es, Plain reply) →
      ∀ last buffer, (repliesOf (stepInFrame debugFrame)
        (init host_name path (some response) redirect_count) es).getLast? = some last →
        t.response = some buffer → cString buffer = last := by
  intro hall
  set after := memcpy zeroedResponse (page "hello") with hafter
  have hfirst : (execOk (stepInFrame debugFrame) AllowedFit (pageCall zeroedResponse)
      (pageEvents "hello")).any (fun t => t.phase = .returned .successul) = true := by decide
  have hsecond : (execOk (stepInFrame debugFrame) AllowedFit (pageCall after) (pageEvents "")).any
      (fun t => t.phase = .returned .successul) = true := by decide
  have hreplies : repliesOf step (pageCall zeroedResponse) (pageEvents "hello") = [page "hello"] := by decide
  have hreplies' : repliesOf step (pageCall after) (pageEvents "") = [page ""] := by decide
  obtain ⟨t, hrun, ht⟩ := exists_run_of_exec_any hfirst
  obtain ⟨u, hrun', hu⟩ := exists_run_of_exec_any hsecond
  obtain ⟨hstep, hsame⟩ := run_of_allowedFit hrun
  obtain ⟨hstep', hsame'⟩ := run_of_allowedFit hrun'
  have hresponse : t.response = some after := by
    rw [pageCall, mainCall] at hstep
    rw [response_eq hstep, ← mainCall, ← pageCall, hreplies]
    rfl
  have hresponse' : u.response = some (memcpy after (page "")) := by
    rw [pageCall, mainCall] at hstep'
    rw [response_eq hstep', ← mainCall, ← pageCall, hreplies']
    rfl
  have hcalls : Calls (stepInFrame debugFrame) Allowed after
      ([] ++ repliesOf (stepInFrame debugFrame) (pageCall zeroedResponse) (pageEvents "hello")) :=
    .call .zeroed (hrun.mono fun _ _ hok => hok.1) (of_decide_eq_true ht) hresponse
  rw [hsame, hreplies, List.nil_append] at hcalls
  have hplain : ∀ reply ∈ [page "hello"] ++ repliesOf (stepInFrame debugFrame) (pageCall after)
      (pageEvents ""), Plain reply := by
    rw [hsame', hreplies', List.cons_append, List.nil_append, List.forall_mem_cons, List.forall_mem_singleton]
    exact ⟨⟨by decide, by decide⟩, by decide, by decide⟩
  have hlast : (repliesOf (stepInFrame debugFrame) (pageCall after) (pageEvents "")).getLast? =
      some (page "") := by
    rw [hsame', hreplies']
    rfl
  have hread := hall after _ hcalls _ _ _ _ u (hrun'.mono fun _ _ hok => hok.1) (of_decide_eq_true hu) hplain
    (page "") _ hlast hresponse'
  -- the second page ends where the text of the first one goes on
  have hnext : after.getD (page "").length 0 = 104 := by decide
  rw [cString_memcpy_eq_iff (by decide), hnext] at hread
  cases hread

end LinuxNet.Tutorials.HttpRedirection
