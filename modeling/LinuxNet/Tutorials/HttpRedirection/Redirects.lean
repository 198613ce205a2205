/-
# LinuxNet.Tutorials.HttpRedirection.Redirects — when a redirection is followed, and how often

The reply is searched as a text: `Redirection` says of a text that it is one that is followed, and
`LocationValue` which host is then asked. A reply with a NUL in its buffer is searched up to its first NUL
(`newHttpHost_eq_some_iff`).

A redirection costs one of the `MAX_REDIRECTION + 1` calls there are, so a chain ends, and it ends with
`HTTP_NOT_FOUND` exactly when every call there is was used up by a redirection (`redirects_bounded`). That is so
as long as the names fit: a request that is printed beyond `http_request` can change `redirect_count` itself
(`not_bounded`).
-/
import LinuxNet.Tutorials.HttpRedirection.Messages

namespace LinuxNet.Tutorials.HttpRedirection

open LinuxNet.Lib LinuxNet.Posix

/-! ## What is searched for -/

/-- The text between the first `Location: ` and the end of that line. -/
def LocationValue (text value : Bytes) : Prop :=
  ∃ i, FirstAt locationText text i ∧ FirstAt crlf (text.drop (i + locationText.length)) value.length ∧
    value <+: text.drop (i + locationText.length)

/-- **`Redirection text`** — a text with `301 Moved Permanently` in it and, behind its first `Location: `, the
end of a line. -/
def Redirection (text : Bytes) : Prop :=
  movedText <:+: text ∧ ∃ i, FirstAt locationText text i ∧ crlf <:+: text.drop (i + locationText.length)

/-- Where the search ends there is a value. -/
theorem exists_locationValue_iff {text : Bytes} :
    (∃ value, LocationValue text value) ↔
      ∃ i, FirstAt locationText text i ∧ crlf <:+: text.drop (i + locationText.length) := by
  constructor
  · rintro ⟨value, i, hfirst, hcut, -⟩
    refine ⟨i, hfirst, ?_⟩
    rw [← find_isSome_iff, find_eq_some_iff.mpr hcut]
    rfl
  · rintro ⟨i, hfirst, hcrlf⟩
    obtain ⟨len, hlen⟩ := Option.isSome_iff_exists.mp (find_isSome_iff.mpr hcrlf)
    have hle := find_le_length hlen
    refine ⟨(text.drop (i + locationText.length)).take len, i, hfirst, ?_, List.take_prefix _ _⟩
    rw [List.length_take, Nat.min_eq_left hle]
    exact find_eq_some_iff.mp hlen

/-- Where the value of `Location: ` starts, in a text that says it has moved. -/
theorem locationStart_eq_some_iff {mem : Bytes} {start : ℕ} :
    locationStart mem = some start ↔ movedText <:+: cString mem ∧
      ∃ i, FirstAt locationText (cString mem) i ∧ i + locationText.length = start := by
  rw [locationStart]
  split
  next hmoved =>
    rw [and_iff_right (find_isSome_iff.mp hmoved), Option.map_eq_some_iff]
    exact exists_congr fun i => and_congr_left' find_eq_some_iff
  next hmoved =>
    refine iff_of_false (fun hsome => ?_) fun h => hmoved (find_isSome_iff.mpr h.1)
    cases hsome

/-- A part of the string in memory is cut out of the string. -/
theorem take_drop_cString {mem : Bytes} {start len : ℕ}
    (h : len ≤ ((cString mem).drop start).length) :
    (mem.drop start).take len = ((cString mem).drop start).take len := by
  have hprefix : (cString mem).drop start <+: mem.drop start := (List.takeWhile_prefix _).drop start
  obtain ⟨behind, hbehind⟩ := hprefix
  rw [← hbehind, List.take_append_of_le_length h]

/-- **The new host** is the value of the first `Location: ` of a text that says it has moved. -/
theorem newHttpHost_eq_some_iff {mem value : Bytes} :
    newHttpHost mem = some value ↔ movedText <:+: cString mem ∧ LocationValue (cString mem) value := by
  rw [newHttpHost, Option.bind_eq_some_iff]
  constructor
  · rintro ⟨start, hstart, hhost⟩
    obtain ⟨hmoved, i, hfirst, rfl⟩ := locationStart_eq_some_iff.mp hstart
    obtain ⟨len, hlen, rfl⟩ := Option.map_eq_some_iff.mp hhost
    rw [newHttpHostLen, strstr, cString_drop (find_add_length_le (find_eq_some_iff.mpr hfirst))] at hlen
    have hle := find_le_length hlen
    rw [take_drop_cString hle]
    refine ⟨hmoved, i, hfirst, ?_, List.take_prefix _ _⟩
    rw [List.length_take, Nat.min_eq_left hle]
    exact find_eq_some_iff.mp hlen
  · rintro ⟨hmoved, i, hfirst, hcut, hvalue⟩
    refine ⟨i + locationText.length, locationStart_eq_some_iff.mpr ⟨hmoved, i, hfirst, rfl⟩, ?_⟩
    rw [newHttpHostLen, strstr, cString_drop (find_add_length_le (find_eq_some_iff.mpr hfirst)),
      find_eq_some_iff.mpr hcut, Option.map_some, take_drop_cString hvalue.length_le,
      ← List.prefix_iff_eq_take.mp hvalue]

/-- A reply is followed exactly when it is a redirection. -/
theorem newHttpHost_isSome_iff {mem : Bytes} :
    (newHttpHost mem).isSome = true ↔ Redirection (cString mem) := by
  rw [Option.isSome_iff_exists, Redirection, ← exists_locationValue_iff, ← exists_and_left]
  exact exists_congr fun value => newHttpHost_eq_some_iff

/-! ## The chain -/

/-- The reply, with what is received now, is a text in its buffer. -/
def Phase.Plain : Phase → Received → Prop
  | .receiving _ http_response, received => HttpRedirection.Plain (http_response ++ received.bytes)
  | .calling _ _ _, _ | .sending _ _, _ | .returned _, _ => True

/-- The assumption on the servers: replies have no NUL and are shorter than `MESSAGE_SIZE`. -/
def PlainReplies (s : State) : Event → Prop
  | .recv received _ => s.phase.Plain received
  | .opens _ | .send _ => True

instance (reply : Bytes) : Decidable (Plain reply) := inferInstanceAs (Decidable (_ ∧ _))

instance : (phase : Phase) → (received : Received) → Decidable (phase.Plain received)
  | .receiving _ http_response, received =>
    inferInstanceAs (Decidable (HttpRedirection.Plain (http_response ++ received.bytes)))
  | .calling _ _ _, _ | .sending _ _, _ | .returned _, _ => isTrue trivial

instance (s : State) : (e : Event) → Decidable (PlainReplies s e)
  | .recv received _ => inferInstanceAs (Decidable (s.phase.Plain received))
  | .opens _ | .send _ => isTrue trivial

/-- The string in the buffer of a reply is the reply. -/
theorem cString_responseMemory {http_response : Bytes} (hplain : Plain http_response) (behind : Bytes) :
    cString (responseMemory http_response behind) = http_response := by
  rw [responseMemory, cString_bufferMemory (.inl hplain.2), cString_of_notMem hplain.1]

/-- The level a chain that began at `redirect_count` has come to: each reply was a redirection and has led one
level further. `waiting` requests have no reply yet. -/
structure Followed (redirect_count : ℕ) (ms : List Message) (level waiting : ℕ) : Prop where
  level_eq : level = redirect_count + (repliesIn ms).length
  requests_eq : (requestsIn ms).length = (repliesIn ms).length + waiting
  redirections : ∀ reply ∈ repliesIn ms, Redirection reply

/-- The outcome of a chain: `HTTP_NOT_FOUND` exactly when every call there is was used up by a redirection. -/
structure Settled (redirect_count : ℕ) (ms : List Message) (result : HttpResult) : Prop where
  answered : (repliesIn ms).length = (requestsIn ms).length
  few : (requestsIn ms).length ≤ maxRedirection + 1 - redirect_count
  notFound_iff : result = .notFound ↔
    (requestsIn ms).length = maxRedirection + 1 - redirect_count ∧ ∀ reply ∈ repliesIn ms, Redirection reply

/-- What has been sent and received where the function is. -/
def Chain (redirect_count : ℕ) (ms : List Message) (s : State) : Prop :=
  match s.phase with
  | .calling _ _ level => Followed redirect_count ms level 0 ∧
      (level = redirect_count ∨ level ≤ maxRedirection + 1)
  | .sending c _ => Followed redirect_count ms c.redirect_count 0 ∧ c.redirect_count ≤ maxRedirection
  | .receiving c http_response => Followed redirect_count ms c.redirect_count 1 ∧
      c.redirect_count ≤ maxRedirection ∧ Plain http_response
  | .returned result => Settled redirect_count ms result

section Chain

variable {redirect_count level : ℕ} {ms : List Message}

/-- A request is sent on a level. -/
theorem Followed.request (h : Followed redirect_count ms level 0) (text : Bytes) :
    Followed redirect_count (ms ++ [.request text]) level 1 := by
  obtain ⟨hlevel, hcount, hall⟩ := h
  refine ⟨?_, ?_, ?_⟩
  · rw [repliesIn_request]
    exact hlevel
  · rw [requestsIn_request, repliesIn_request, List.length_append, hcount]
    rfl
  · rw [repliesIn_request]
    exact hall

/-- A redirection leads to the next level. -/
theorem Followed.redirected (h : Followed redirect_count ms level 1) {reply : Bytes}
    (hreply : Redirection reply) : Followed redirect_count (ms ++ [.reply reply]) (level + 1) 0 := by
  obtain ⟨hlevel, hcount, hall⟩ := h
  refine ⟨?_, ?_, ?_⟩
  · rw [repliesIn_reply, List.length_append, List.length_singleton, hlevel, Nat.add_assoc]
  · rw [requestsIn_reply, repliesIn_reply, List.length_append, hcount]
    rfl
  · rw [repliesIn_reply, List.forall_mem_append, List.forall_mem_singleton]
    exact ⟨hall, hreply⟩

/-- One call too many: every call there is was used up. -/
theorem Followed.exhausted (h : Followed redirect_count ms level 0)
    (hlevel : level = redirect_count ∨ level ≤ maxRedirection + 1) (hmany : maxRedirection < level) :
    Settled redirect_count ms .notFound := by
  obtain ⟨hcome, hcount, hall⟩ := h
  have hused : (requestsIn ms).length = maxRedirection + 1 - redirect_count := by omega
  exact ⟨hcount.symm, hused.le, iff_of_true rfl ⟨hused, hall⟩⟩

/-- A call that fails before its request is sent. -/
theorem Followed.failed (h : Followed redirect_count ms level 0) (hfew : level ≤ maxRedirection) :
    Settled redirect_count ms .unknown := by
  obtain ⟨hcome, hcount, -⟩ := h
  refine ⟨hcount.symm, by omega, iff_of_false (fun hno => by cases hno) ?_⟩
  rintro ⟨hused, -⟩
  omega

/-- A reply that is no redirection is the last one. -/
theorem Followed.finished (h : Followed redirect_count ms level 1) (hfew : level ≤ maxRedirection)
    {reply : Bytes} (hreply : ¬ Redirection reply) :
    Settled redirect_count (ms ++ [.reply reply]) .successul := by
  obtain ⟨hcome, hcount, -⟩ := h
  refine ⟨?_, ?_, iff_of_false (fun hno => by cases hno) ?_⟩
  · rw [requestsIn_reply, repliesIn_reply, List.length_append, hcount]
    rfl
  · rw [requestsIn_reply]
    omega
  · rintro ⟨-, hall⟩
    rw [repliesIn_reply, List.forall_mem_append, List.forall_mem_singleton] at hall
    exact hreply hall.2

end Chain

/-- **The step lemma**: a level is gone through from its request to its reply. -/
theorem chain_of_step {redirect_count : ℕ} {ms : List Message} {s t : State} {e : Event}
    (hs : Chain redirect_count ms s) (hplain : PlainReplies s e) (h : step s e = some t) :
    Chain redirect_count (ms ++ messages s e t) t := by
  unfold Chain at hs
  rcases Step.of_step h with ⟨hphase, hmany⟩ | ⟨hphase, hfew, -⟩ | ⟨hphase, husable, -⟩ |
    ⟨hphase, husable, -, -⟩ | ⟨hphase, husable, -, -, -⟩ | ⟨hphase, husable, -, -, -⟩ | ⟨hphase, hfail⟩ |
    ⟨hphase, -, hmore⟩ | ⟨hphase, hpos, hall⟩ | ⟨hphase, hpos⟩ | ⟨hphase, hend, hhost⟩ | ⟨hphase, hend, hnone⟩
  all_goals rw [hphase] at hs
  case tooMany =>
    rw [messages_calling hphase, List.append_nil]
    exact hs.1.exhausted hs.2 hmany
  case noService =>
    rw [messages_calling hphase, List.append_nil]
    exact hs.1.failed hfew
  case unresolved | noSocket | noConnection =>
    rw [messages_calling hphase, List.append_nil]
    exact hs.1.failed husable.few
  case connects =>
    rw [messages_calling hphase, List.append_nil]
    exact ⟨hs.1, husable.few⟩
  case sendFails =>
    rw [messages_sends hphase fun hpos => absurd hfail (Int.not_le.mpr hpos), List.append_nil]
    exact hs.1.failed hs.2
  case sends =>
    rw [messages_sends hphase fun _ => hmore, List.append_nil]
    exact hs
  case sendsLast =>
    rw [messages_sendsLast hphase hpos hall]
    exact ⟨hs.1.request _, hs.2, List.not_mem_nil, by decide⟩
  case receives =>
    rw [messages_receives hphase hpos, List.append_nil]
    simp only [PlainReplies, hphase] at hplain
    exact ⟨hs.1, hs.2.1, hplain⟩
  case redirects c http_response behind new_http_host received =>
    obtain ⟨hfollowed, hfew, htext⟩ := hs
    have hmoved : (newHttpHost (responseMemory http_response behind)).isSome = true := by
      rw [hhost]
      rfl
    rw [newHttpHost_isSome_iff, cString_responseMemory htext] at hmoved
    rw [messages_ends hphase hend]
    exact ⟨hfollowed.redirected hmoved, .inr (Nat.succ_le_succ hfew)⟩
  case finishes c http_response behind received =>
    obtain ⟨hfollowed, hfew, htext⟩ := hs
    have hstays : ¬ (newHttpHost (responseMemory http_response behind)).isSome = true := by
      rw [hnone]
      exact Bool.noConfusion
    rw [newHttpHost_isSome_iff, cString_responseMemory htext] at hstays
    rw [messages_ends hphase hend]
    exact hfollowed.finished hfew hstays

/-- Nowhere more requests have been sent than there are calls. -/
theorem Chain.few {redirect_count : ℕ} {ms : List Message} {s : State} (h : Chain redirect_count ms s) :
    (requestsIn ms).length ≤ maxRedirection + 1 - redirect_count := by
  unfold Chain at h
  rcases hphase : s.phase with ⟨host_name, path, level⟩ | ⟨c, http_sent_bytes⟩ | ⟨c, http_response⟩ | result
  all_goals rw [hphase] at h
  · obtain ⟨⟨hcome, hcount, -⟩, hlevel⟩ := h
    omega
  · obtain ⟨⟨hcome, hcount, -⟩, hfew⟩ := h
    omega
  · obtain ⟨⟨hcome, hcount, -⟩, hfew, -⟩ := h
    omega
  · exact h.few

theorem chain_init (host_name path : Bytes) (response : Option Bytes) (redirect_count : ℕ) :
    Chain redirect_count [] (init host_name path response redirect_count) :=
  ⟨⟨rfl, rfl, List.forall_mem_nil _⟩, .inl rfl⟩

/-! ## The end of the chain -/

/-- No request is longer than `limit`, and the reply is a text in its buffer. -/
def Short (limit : ℕ) (s : State) : Prop :=
  match s.phase with
  | .calling host_name path _ => (requestText path host_name).length ≤ limit
  | .sending c _ => c.httpRequest.length ≤ limit
  | .receiving _ http_response => Plain http_response
  | .returned _ => True

/-- How many answers are left to wait for, at most. -/
def Phase.patience (limit : ℕ) : Phase → ℕ
  | .calling _ _ level => (maxRedirection + 1 - level) * (limit + messageSize + 2) + 1
  | .sending c http_sent_bytes =>
    (maxRedirection - c.redirect_count) * (limit + messageSize + 2) + messageSize + 2 +
      (limit - http_sent_bytes)
  | .receiving c http_response =>
    (maxRedirection - c.redirect_count) * (limit + messageSize + 2) + 1 + (messageSize - http_response.length)
  | .returned _ => 0

/-- A name cut out of a reply is shorter than the reply. -/
theorem length_newHttpHost_le {http_response behind value : Bytes} (hplain : Plain http_response)
    (h : newHttpHost (responseMemory http_response behind) = some value) : value.length < messageSize := by
  obtain ⟨-, i, -, -, hvalue⟩ := newHttpHost_eq_some_iff.mp h
  rw [cString_responseMemory hplain] at hvalue
  have hle := hvalue.length_le
  rw [List.length_drop] at hle
  exact lt_of_le_of_lt (hle.trans (Nat.sub_le _ _)) hplain.2

/-- **Every answer leaves fewer to wait for.** -/
theorem patience_of_step {limit : ℕ} (hlimit : messageSize + 45 ≤ limit) {s t : State} {e : Event}
    (hs : Short limit s) (hplain : PlainReplies s e) (h : step s e = some t) :
    Short limit t ∧ t.phase.patience limit < s.phase.patience limit := by
  unfold Short at hs
  rcases Step.of_step h with ⟨hphase, -⟩ | ⟨hphase, -, -⟩ | ⟨hphase, -, -⟩ | ⟨hphase, -, -, -⟩ |
    ⟨hphase, -, -, -, -⟩ | ⟨hphase, husable, -, -, -⟩ | ⟨hphase, -⟩ | ⟨hphase, hpos, hmore⟩ |
    ⟨hphase, -, -⟩ | ⟨hphase, hpos⟩ | ⟨hphase, -, hhost⟩ | ⟨hphase, -, -⟩
  all_goals rw [hphase] at hs ⊢
  case tooMany | noService | unresolved | noSocket | noConnection => exact ⟨trivial, Nat.succ_pos _⟩
  case connects host_name path redirect_count a s_port =>
    have hlevel : maxRedirection + 1 - redirect_count = maxRedirection - redirect_count + 1 :=
      Nat.succ_sub husable.few
    refine ⟨hs, ?_⟩
    simp only [Phase.patience]
    rw [hlevel, Nat.succ_mul]
    omega
  case sendFails => exact ⟨trivial, by simp only [Phase.patience]; omega⟩
  case sends c http_sent_bytes sent_bytes =>
    refine ⟨hs, ?_⟩
    simp only [Phase.patience]
    omega
  case sendsLast =>
    refine ⟨⟨List.not_mem_nil, by decide⟩, ?_⟩
    simp only [Phase.patience, List.length_nil]
    omega
  case receives c http_response behind received =>
    simp only [PlainReplies, hphase] at hplain
    refine ⟨hplain, ?_⟩
    have hlen := hplain.2
    have hreceived := length_pos_of_received_pos hpos
    rw [List.length_append] at hlen
    simp only [Phase.patience, List.length_append]
    omega
  case redirects c http_response behind new_http_host received =>
    have hlen := length_newHttpHost_le hs hhost
    refine ⟨?_, ?_⟩
    · show (requestText _ _).length ≤ limit
      have hroot : (ofText "/").length = 1 := rfl
      rw [length_requestText, hroot]
      omega
    · have hroom := hs.2
      simp only [Phase.patience, Nat.add_sub_add_right]
      omega
  case finishes => exact ⟨trivial, by simp only [Phase.patience]; omega⟩

/-- A function that waits for nothing has returned. -/
theorem returned_of_stuck {frame : State → Event → Option State} {s : State}
    (hstuck : ∀ e, stepInFrame frame s e = none) : ∃ result, s.phase = .returned result := by
  rcases hphase : s.phase with ⟨host_name, path, redirect_count⟩ | ⟨c, http_sent_bytes⟩ |
    ⟨c, http_response⟩ | result
  · -- without a service nothing is printed
    have hfit : NamesFit s (.opens ⟨true, none, 0, 0, 0, 0⟩) := by
      rw [NamesFit, hphase]
      intro s_port husable
      cases husable.service
    have hnone := hstuck (.opens ⟨true, none, 0, 0, 0, 0⟩)
    rw [stepInFrame_eq hfit] at hnone
    simp [step, hphase] at hnone
  · have hnone := hstuck (.send 0)
    rw [stepInFrame_eq (e := .send 0) trivial] at hnone
    simp [step, hphase] at hnone
  · have hnone := hstuck (.recv .failed [])
    rw [stepInFrame_eq (e := .recv .failed []) trivial] at hnone
    simp [step, hphase] at hnone
  · exact ⟨result, rfl⟩

/-- Replies are texts in their buffer, and the names fit. -/
def PlainFit (s : State) (e : Event) : Prop := PlainReplies s e ∧ NamesFit s e

instance (s : State) (e : Event) : Decidable (PlainFit s e) :=
  inferInstanceAs (Decidable (PlainReplies s e ∧ NamesFit s e))

/-- **Redirections are followed a bounded number of times**, in a function with the steps `next`, called with
this `redirect_count`, under what `ok` assumes: it comes to its end, having sent at most
`MAX_REDIRECTION + 1 - redirect_count` requests, and it returns `HTTP_NOT_FOUND` if and only if it has sent
exactly that many and each of their replies was a redirection. -/
structure Bounded (next : State → Event → Option State) (ok : State → Event → Prop) (start : State)
    (redirect_count : ℕ) : Prop where
  ends : ∃ bound, ∀ es t, Run next ok start es t → es.length ≤ bound
  returns : ∀ es t, Run next ok start es t → (∀ e, next t e = none) → ∃ result, t.phase = .returned result
  few : ∀ es t, Run next ok start es t →
    (requests next start es).length ≤ maxRedirection + 1 - redirect_count
  outcome : ∀ es t result, Run next ok start es t → t.phase = .returned result →
    (repliesOf next start es).length = (requests next start es).length ∧
      (result = .notFound ↔ (requests next start es).length = maxRedirection + 1 - redirect_count ∧
        ∀ reply ∈ repliesOf next start es, Redirection reply)

/-- **The chain of redirections is bounded, as long as the names fit.** From every `redirect_count`, whatever
the resolver, the sockets and the servers answer and whatever lies behind the buffers, as long as replies have
no NUL and are shorter than `MESSAGE_SIZE`. -/
theorem redirects_bounded (frame : State → Event → Option State) (host_name path : Bytes)
    (response : Option Bytes) (redirect_count : ℕ) :
    Bounded (stepInFrame frame) PlainFit (init host_name path response redirect_count) redirect_count := by
  set start := init host_name path response redirect_count with hstart
  have hstep {es : List Event} {t : State} (h : Run (stepInFrame frame) PlainFit start es t) :
      Run step PlainFit start es t ∧
        observations (stepInFrame frame) messages start es = observations step messages start es := by
    rw [run_stepInFrame_iff fun _ _ hok => hok.2] at h
    exact ⟨h, h.observations_eq fun _ _ hok => stepInFrame_eq hok.2⟩
  have hchain {es : List Event} {t : State} (h : Run (stepInFrame frame) PlainFit start es t) :
      Chain redirect_count (observations (stepInFrame frame) messages start es) t := by
    obtain ⟨h, heq⟩ := hstep h
    rw [heq]
    refine h.invariant_observations (I := Chain redirect_count) ?_ (chain_init _ _ _ _)
    intro ms s e t hs hok hst
    exact chain_of_step hs hok.1 hst
  refine ⟨?_, fun _ _ _ => returned_of_stuck, fun es t h => (hchain h).few, fun es t result h hreturned => ?_⟩
  · set limit := (requestText path host_name).length + (messageSize + 45) with hlimit
    have hshort : Short limit start := Nat.le_add_right _ _
    refine ⟨start.phase.patience limit, fun es t h => ?_⟩
    have hle := (hstep h).1.length_add_le (I := Short limit)
      (fun s e t hs hok hst => patience_of_step (Nat.le_add_left _ _) hs hok.1 hst) hshort
    exact (Nat.le_add_right _ _).trans hle
  · have hsettled := hchain h
    rw [Chain, hreturned] at hsettled
    exact ⟨hsettled.answered, hsettled.notFound_iff⟩

/-- A reply that redirects to this host. -/
def redirectsTo (host_name : Bytes) : Bytes := movedText ++ crlf ++ locationText ++ host_name ++ crlf

/-- The last call there is, redirected to another host. -/
def lastRedirected : List Event :=
  [reached 1 3, .send 59, .recv (.data (redirectsTo (ofText "a"))) [], .recv (.data []) [], reached 2 4]

theorem redirects_bounded_lastRedirected :
    ∃ t, Run (stepInFrame debugFrame) PlainFit (init cppHostname (ofText "/301") none maxRedirection)
        lastRedirected t ∧
      t.phase = .returned .notFound ∧
      (requests (stepInFrame debugFrame) (init cppHostname (ofText "/301") none maxRedirection)
        lastRedirected).length = 1 := by
  have hexec : (execOk (stepInFrame debugFrame) PlainFit
      (init cppHostname (ofText "/301") none maxRedirection) lastRedirected).any
        (fun t => t.phase = .returned .notFound) = true := by decide
  obtain ⟨t, hrun, ht⟩ := exists_run_of_exec_any hexec
  have hreturned := of_decide_eq_true ht
  have hbounded := redirects_bounded debugFrame cppHostname (ofText "/301") none maxRedirection
  exact ⟨t, hrun, hreturned, ((hbounded.outcome _ _ _ hrun hreturned).2.mp rfl).1⟩

/-- A host of 984 bytes: the line end behind it in the request is printed over `redirect_count`. -/
def longHost : Bytes := List.replicate 984 97

/-- `/301` is redirected to a host that is too long, and that one redirects to itself. -/
def redirectedTooFar : List Event :=
  [reached 1 3, .send 59, .recv (.data (redirectsTo longHost)) [], .recv (.data []) [],
    reached 2 4, .send 1029, .recv (.data (redirectsTo longHost)) [], .recv (.data []) [], reached 3 5]

/-- **A long name ends the chain too early**: `HTTP_NOT_FOUND` after two requests. -/
theorem not_bounded :
    ¬ ∀ (host_name path : Bytes) (response : Option Bytes) (redirect_count : ℕ),
      Bounded (stepInFrame debugFrame) PlainReplies (init host_name path response redirect_count)
        redirect_count := by
  intro hall
  have hexec : (execOk (stepInFrame debugFrame) PlainReplies (init cppHostname (ofText "/301") none 0)
      redirectedTooFar).any (fun t => t.phase = .returned .notFound) = true := by decide +kernel
  have hrequests : (requests (stepInFrame debugFrame) (init cppHostname (ofText "/301") none 0)
      redirectedTooFar).length = 2 := by decide +kernel
  obtain ⟨t, hrun, ht⟩ := exists_run_of_exec_any hexec
  have hbounded := hall cppHostname (ofText "/301") none 0
  have hused := ((hbounded.outcome _ _ _ hrun (of_decide_eq_true ht)).2.mp rfl).1
  rw [hrequests] at hused
  cases hused

end LinuxNet.Tutorials.HttpRedirection
