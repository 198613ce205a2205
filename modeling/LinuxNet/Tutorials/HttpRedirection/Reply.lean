/-
# LinuxNet.Tutorials.HttpRedirection.Reply — is an HTTP reply taken for what it says?

`perform_http_request` does not take a reply apart. It searches the whole of it for two texts, wherever they
stand: in the status line, in a header line or in the body (`Reply.taken_iff`). What is behind the second one
is the name it asks next, with the path `/`; and whatever is not taken for a redirection is a success.

`Reply` is a reply as the protocol has it, so that what the function does can be compared with what the reply
says: `reply_classified_iff` for the answer of the function, `location_followed_iff` for the request it sends
next.
-/
import LinuxNet.Tutorials.HttpRedirection.Redirects

namespace LinuxNet.Tutorials.HttpRedirection

open LinuxNet.Lib LinuxNet.Posix

/-! ## HTTP replies -/

/-- The colon. -/
def colon : UInt8 := 58

/-- A blank. -/
def blank : UInt8 := 32

/-- A letter as a small one. -/
def lower (b : UInt8) : UInt8 := if 65 ≤ b ∧ b ≤ 90 then b + 32 else b

/-- A header field. -/
structure Field where
  name : Bytes
  /-- the white space behind the colon -/
  gap : Bytes
  value : Bytes
  name_ok : ∀ b ∈ name, b ≠ 0 ∧ b ≠ cr ∧ b ≠ lf ∧ b ≠ colon
  gap_ok : ∀ b ∈ gap, b = blank ∨ b = 9
  value_ok : ∀ b ∈ value, b ≠ 0 ∧ b ≠ cr

/-- Its line. -/
def Field.line (f : Field) : Bytes := f.name ++ colon :: (f.gap ++ f.value)

/-- Names of fields are the same in capital and small letters. -/
def Field.IsLocation (f : Field) : Prop := f.name.map lower = ofText "location"

instance (f : Field) : Decidable f.IsLocation := inferInstanceAs (Decidable (_ = _))

/-- **`Reply`** — a status line, header fields, a blank line and any body. -/
structure Reply where
  version : Bytes
  code : ℕ
  reason : Bytes
  fields : List Field
  body : Bytes
  version_ok : ∀ b ∈ version, b ≠ 0 ∧ b ≠ cr ∧ b ≠ lf ∧ b ≠ blank
  code_ok : 100 ≤ code ∧ code < 1000
  reason_ok : ∀ b ∈ reason, b ≠ 0 ∧ b ≠ cr

/-- The status line. -/
def Reply.statusLine (r : Reply) : Bytes := r.version ++ blank :: (natText r.code ++ blank :: r.reason)

/-- The lines before the blank one. -/
def Reply.headLines (r : Reply) : List Bytes := r.statusLine :: r.fields.map Field.line

/-- Lines, each with its end. -/
def headText (lines : List Bytes) : Bytes := lines.flatMap (· ++ crlf)

/-- What is received. -/
def Reply.bytes (r : Reply) : Bytes := headText r.headLines ++ crlf ++ r.body

/-- The reply says that the page has moved, and where to. -/
def Reply.Moved (r : Reply) : Prop := r.code = 301 ∧ ∃ f ∈ r.fields, f.IsLocation

/-! ## What is found in a reply -/

/-- What is looked for in a line. -/
structure InLine (needle : Bytes) : Prop where
  no_cr : cr ∉ needle
  no_lf : lf ∉ needle
  ne_nil : needle ≠ []

theorem inLine_movedText : InLine movedText := ⟨by decide, by decide, by decide⟩

theorem inLine_locationText : InLine locationText := ⟨by decide, by decide, by decide⟩

section Search

variable {needle : Bytes}

/-- A search does not see beyond the end of a line until it has passed it. -/
theorem find_append_crlf (h : InLine needle) (a b : Bytes) :
    find needle (a ++ crlf ++ b) = (find needle a).or ((find needle b).map (· + (a.length + 2))) := by
  have hnil : find needle [] = none := if_neg h.ne_nil
  have hlf : find needle (lf :: b) = (find needle b).map (· + 1) := by
    have hcons := find_append_cons h.no_lf h.ne_nil [] b
    rw [List.nil_append, hnil, Option.none_or] at hcons
    exact hcons
  have hsplit : a ++ crlf ++ b = a ++ cr :: (lf :: b) := List.append_assoc a crlf b
  rw [hsplit, find_append_cons h.no_cr h.ne_nil, hlf, Option.map_map]
  congr 2
  funext i
  show i + 1 + (a.length + 1) = i + (a.length + 2)
  omega

theorem isInfix_append_crlf_iff (h : InLine needle) (a b : Bytes) :
    needle <:+: a ++ crlf ++ b ↔ needle <:+: a ∨ needle <:+: b := by
  rw [← find_isSome_iff, find_append_crlf h, Option.isSome_or, Option.isSome_map, Bool.or_eq_true,
    find_isSome_iff, find_isSome_iff]

/-- What stands in the head stands in one of its lines. -/
theorem isInfix_headText_iff (h : InLine needle) (lines : List Bytes) :
    needle <:+: headText lines ↔ ∃ line ∈ lines, needle <:+: line := by
  induction lines with
  | nil =>
      refine iff_of_false (fun hnil => h.ne_nil (List.infix_nil.mp hnil)) ?_
      rintro ⟨line, hline, -⟩
      cases hline
  | cons line lines ih =>
      have hcons : headText (line :: lines) = line ++ crlf ++ headText lines := List.flatMap_cons
      rw [hcons, isInfix_append_crlf_iff h, ih, List.exists_mem_cons_iff]

end Search

/-- What is behind an end of line does not depend on what is before it. -/
theorem drop_append_crlf (a b : Bytes) (i n : ℕ) :
    (a ++ crlf ++ b).drop (i + (a.length + 2) + n) = b.drop (i + n) := by
  have hlen : i + (a.length + 2) + n = (a ++ crlf).length + (i + n) := by
    rw [List.length_append]
    show i + (a.length + 2) + n = a.length + 2 + (i + n)
    omega
  rw [hlen, List.drop_length_add_append]

/-- Behind a `Location: ` that stands before an end of line there is a value, and any other one is looked for
behind that end. -/
theorem exists_locationValue_append_crlf_iff (a b : Bytes) :
    (∃ value, LocationValue (a ++ crlf ++ b) value) ↔
      locationText <:+: a ∨ ∃ value, LocationValue b value := by
  rw [exists_locationValue_iff, exists_locationValue_iff, ← find_isSome_iff]
  simp only [← find_eq_some_iff, find_append_crlf inLine_locationText]
  rcases hfirst : find locationText a with _ | i
  · rw [Option.isSome_none, Option.none_or, or_iff_right Bool.noConfusion]
    constructor
    · rintro ⟨i, hi, hcrlf⟩
      obtain ⟨j, hj, rfl⟩ := Option.map_eq_some_iff.mp hi
      rw [drop_append_crlf] at hcrlf
      exact ⟨j, hj, hcrlf⟩
    · rintro ⟨j, hj, hcrlf⟩
      refine ⟨j + (a.length + 2), Option.map_eq_some_iff.mpr ⟨j, hj, rfl⟩, ?_⟩
      rw [drop_append_crlf]
      exact hcrlf
  · refine iff_of_true ⟨i, rfl, ?_⟩ (.inl rfl)
    have hle := find_add_length_le hfirst
    rw [List.append_assoc, List.drop_append_of_le_length hle]
    exact List.infix_append' _ _ _

/-- `needle` stands in the head or in the body. -/
def Reply.Mentions (r : Reply) (needle : Bytes) : Prop :=
  (∃ line ∈ r.headLines, needle <:+: line) ∨ needle <:+: cString r.body

/-- `Location: ` stands in the head or, with the end of a line behind it, in the body. -/
def Reply.NamesLocation (r : Reply) : Prop :=
  (∃ line ∈ r.headLines, locationText <:+: line) ∨ ∃ value, LocationValue (cString r.body) value

/-- **What is taken for a redirection.** -/
def Reply.Taken (r : Reply) : Prop := r.Mentions movedText ∧ r.NamesLocation

section Text

theorem nul_notMem_natText (n : ℕ) : (0 : UInt8) ∉ natText n := by
  intro h
  exact absurd (isDigit_of_mem_natText h) (by decide)

variable (r : Reply)

theorem Reply.nul_notMem_statusLine : (0 : UInt8) ∉ r.statusLine := by
  have hversion : (0 : UInt8) ∉ r.version := fun h => (r.version_ok 0 h).1 rfl
  have hreason : (0 : UInt8) ∉ r.reason := fun h => (r.reason_ok 0 h).1 rfl
  have hblank : (0 : UInt8) ≠ blank := by decide
  simp only [statusLine, List.mem_append, List.mem_cons, hversion, hreason, hblank,
    nul_notMem_natText r.code, or_self, not_false_iff]

theorem Field.nul_notMem_line (f : Field) : (0 : UInt8) ∉ f.line := by
  have hname : (0 : UInt8) ∉ f.name := fun h => (f.name_ok 0 h).1 rfl
  have hvalue : (0 : UInt8) ∉ f.value := fun h => (f.value_ok 0 h).1 rfl
  have hgap : (0 : UInt8) ∉ f.gap := by
    intro h
    rcases f.gap_ok 0 h with hblank | htab
    · exact absurd hblank (by decide)
    · exact absurd htab (by decide)
  have hcolon : (0 : UInt8) ≠ colon := by decide
  simp only [line, List.mem_append, List.mem_cons, hname, hvalue, hgap, hcolon, or_self, not_false_iff]

theorem Reply.nul_notMem_head : (0 : UInt8) ∉ headText r.headLines ++ crlf := by
  have hcrlf : (0 : UInt8) ∉ crlf := by decide
  have hlines : ∀ line ∈ r.headLines, (0 : UInt8) ∉ line := by
    rw [headLines, List.forall_mem_cons, List.forall_mem_map]
    exact ⟨r.nul_notMem_statusLine, fun f _ => f.nul_notMem_line⟩
  rw [List.mem_append, headText, List.mem_flatMap, not_or]
  refine ⟨?_, hcrlf⟩
  rintro ⟨line, hline, hzero⟩
  rcases List.mem_append.mp hzero with hzero | hzero
  · exact hlines line hline hzero
  · exact hcrlf hzero

/-- Of a reply the string functions see its head, and its body up to a NUL. -/
theorem Reply.cString_bytes : cString r.bytes = headText r.headLines ++ crlf ++ cString r.body :=
  cString_append r.nul_notMem_head _

/-- **What is taken for a redirection**, wherever the two texts stand. -/
theorem Reply.taken_iff : r.Taken ↔ Redirection (cString r.bytes) := by
  rw [Redirection, ← exists_locationValue_iff, r.cString_bytes, exists_locationValue_append_crlf_iff,
    isInfix_append_crlf_iff inLine_movedText, isInfix_headText_iff inLine_movedText,
    isInfix_headText_iff inLine_locationText]
  rfl

end Text

/-! ## What the function does with a reply -/

/-- There is a NUL in the buffer of the reply. -/
def Terminated (http_response : Bytes) : Prop :=
  http_response.length < messageSize ∨ (0 : UInt8) ∈ http_response

/-- The end of a reply is where the function calls itself or returns. -/
theorem reply_cases {s t : State} {c : Connection} {http_response behind : Bytes} {received : Received}
    (hphase : s.phase = .receiving c http_response) (hterm : Terminated http_response)
    (hend : received.received ≤ 0) (h : step s (.recv received behind) = some t) :
    (∃ host_name, movedText <:+: cString http_response ∧ LocationValue (cString http_response) host_name ∧
      t.phase = .calling host_name (ofText "/") (c.redirect_count + 1)) ∨
    (¬ Redirection (cString http_response) ∧ t.phase = .returned .successul) := by
  have htext : cString (responseMemory http_response behind) = cString http_response :=
    cString_bufferMemory hterm behind
  cases Step.of_step h with
  | receives hphase' hpos => exact absurd hend (Int.not_le.mpr hpos)
  | redirects hphase' _ hhost =>
      rw [hphase] at hphase'
      cases hphase'
      obtain ⟨hmoved, hvalue⟩ := newHttpHost_eq_some_iff.mp hhost
      rw [htext] at hmoved hvalue
      exact .inl ⟨_, hmoved, hvalue, rfl⟩
  | finishes hphase' _ hnone =>
      rw [hphase] at hphase'
      cases hphase'
      refine .inr ⟨fun hred => ?_, rfl⟩
      rw [← htext, ← newHttpHost_isSome_iff, hnone] at hred
      cases hred

/-! ## The answer of the function -/

/-- **When a reply is classified by its status.** For every reply that ends in its buffer, on every level: the
function calls itself exactly if the status is 301 and there is a `Location` header, and returns
`HTTP_SUCCESSUL` only if the status is 200, if and only if either the reply is such a one and the two texts
are found in it, or they are not and its status is 200. -/
theorem reply_classified_iff {r : Reply} (hterm : Terminated r.bytes) {s t : State} {c : Connection}
    {received : Received} {behind : Bytes} (hphase : s.phase = .receiving c r.bytes)
    (hend : received.received ≤ 0) (h : step s (.recv received behind) = some t) :
    ((∃ host_name path redirect_count, t.phase = .calling host_name path redirect_count) ↔ r.Moved) ∧
      (t.phase = .returned .successul → r.code = 200) ↔
    r.Taken ∧ r.Moved ∨ ¬ r.Taken ∧ r.code = 200 := by
  rcases reply_cases hphase hterm hend h with ⟨host_name, hmoved, hvalue, ht⟩ | ⟨hstays, ht⟩
  · have htaken : r.Taken := by
      rw [Reply.taken_iff, Redirection, ← exists_locationValue_iff]
      exact ⟨hmoved, host_name, hvalue⟩
    have hcalls : ∃ host_name path redirect_count, t.phase = .calling host_name path redirect_count :=
      ⟨_, _, _, ht⟩
    have hrunning : t.phase ≠ .returned .successul := by
      rw [ht]
      intro hno
      cases hno
    rw [iff_true_left hcalls, and_iff_left fun hno => absurd hno hrunning, and_iff_right htaken,
      or_iff_left fun hno => hno.1 htaken]
  · have htaken : ¬ r.Taken := mt r.taken_iff.mp hstays
    have hcalls : ¬ ∃ host_name path redirect_count, t.phase = .calling host_name path redirect_count := by
      rintro ⟨host_name, path, redirect_count, hno⟩
      rw [ht] at hno
      cases hno
    rw [iff_false_left hcalls, or_iff_right fun hno => htaken hno.1, and_iff_right htaken]
    constructor
    · rintro ⟨-, hcode⟩
      exact hcode ht
    · intro hcode
      refine ⟨fun hmoved => ?_, fun _ => hcode⟩
      rw [hmoved.1] at hcode
      cases hcode

/-- What is said of each byte of a text is checked byte by byte. -/
theorem forall_mem_of_all {p : UInt8 → Prop} [DecidablePred p] {text : Bytes}
    (h : text.all (fun b => p b) = true) : ∀ b ∈ text, p b := by
  intro b hb
  exact of_decide_eq_true (List.all_eq_true.mp h b hb)

/-- The state in which a reply of `httpstat.us` is all there. -/
def atReply (reply : Bytes) : State := ⟨.receiving firstConnection reply, none, []⟩

/-- `Location: ` in front of a value. -/
def locationField (value : Bytes) (hvalue : ∀ b ∈ value, b ≠ 0 ∧ b ≠ cr) : Field where
  name := ofText "Location"
  gap := [blank]
  value := value
  name_ok := forall_mem_of_all (by decide)
  gap_ok := forall_mem_of_all (by decide)
  value_ok := hvalue

/-- A reply that has moved, with these header fields. -/
def movedReply (fields : List Field) : Reply where
  version := ofText "HTTP/1.1"
  code := 301
  reason := ofText "Moved Permanently"
  fields := fields
  body := []
  version_ok := forall_mem_of_all (by decide)
  code_ok := by decide
  reason_ok := forall_mem_of_all (by decide)

/-- A page has moved. -/
def movedPage : Reply :=
  movedReply [locationField (ofText "http://example.org/a") (forall_mem_of_all (by decide))]

theorem reply_classified_iff_movedPage :
    ∃ t, step (atReply movedPage.bytes) (.recv (.data []) []) = some t ∧
      ((∃ host_name path redirect_count, t.phase = .calling host_name path redirect_count) ↔ movedPage.Moved) ∧
      (t.phase = .returned .successul → movedPage.code = 200) := by
  have hmoved : movedPage.Moved := ⟨rfl, _, List.mem_cons_self, by decide⟩
  have hmentions : movedPage.Mentions movedText := .inl (by decide)
  have hlocation : movedPage.NamesLocation := .inl (by decide)
  have hstep : step (atReply movedPage.bytes) (.recv (.data []) []) =
      some (recvReturns (atReply movedPage.bytes) firstConnection movedPage.bytes (.data []) []) := rfl
  exact ⟨_, hstep, (reply_classified_iff (.inl (by decide)) rfl le_rfl hstep).mpr
    (.inl ⟨⟨hmentions, hlocation⟩, hmoved⟩)⟩

/-- There is no such page. -/
def missingPage : Reply where
  version := ofText "HTTP/1.1"
  code := 404
  reason := ofText "Not Found"
  fields := []
  body := []
  version_ok := forall_mem_of_all (by decide)
  code_ok := by decide
  reason_ok := forall_mem_of_all (by decide)

/-- **A missing page is a success.** -/
theorem missing_successul :
    ¬ ∀ r : Reply, Terminated r.bytes → ∀ (s t : State) (c : Connection) (received : Received) (behind : Bytes),
      s.phase = .receiving c r.bytes → received.received ≤ 0 → step s (.recv received behind) = some t →
      ((∃ host_name path redirect_count, t.phase = .calling host_name path redirect_count) ↔ r.Moved) ∧
        (t.phase = .returned .successul → r.code = 200) := by
  intro hall
  have hterm : Terminated missingPage.bytes := .inl (by decide)
  have hsuccess : (recvReturns (atReply missingPage.bytes) firstConnection missingPage.bytes (.data [])
      []).phase = .returned .successul := by decide
  obtain ⟨-, hcode⟩ := hall missingPage hterm (atReply missingPage.bytes) _ firstConnection (.data []) [] rfl
    le_rfl rfl
  cases hcode hsuccess

/-! ## The request that is sent next -/

/-- The value of `Location: ` is what it is. -/
theorem LocationValue.unique {text value value' : Bytes} (h : LocationValue text value)
    (h' : LocationValue text value') : value = value' := by
  obtain ⟨i, hfirst, hcut, hvalue⟩ := h
  obtain ⟨i', hfirst', hcut', hvalue'⟩ := h'
  have hi : i = i' := Option.some.inj ((find_eq_some_iff.mpr hfirst).symm.trans (find_eq_some_iff.mpr hfirst'))
  subst hi
  have hlen : value.length = value'.length :=
    Option.some.inj ((find_eq_some_iff.mpr hcut).symm.trans (find_eq_some_iff.mpr hcut'))
  rw [List.prefix_iff_eq_take.mp hvalue, List.prefix_iff_eq_take.mp hvalue', hlen]

/-- A call that is connected looks up its host and asks for its path. -/
theorem request_of_calling {s t : State} {host_name path : Bytes} {redirect_count http_sent_bytes : ℕ}
    {a : Answers} {c : Connection} (hphase : s.phase = .calling host_name path redirect_count)
    (h : step s (.opens a) = some t) (ht : t.phase = .sending c http_sent_bytes) :
    c.httpRequest = requestText path host_name ∧
      ∃ port, t.trace = [.connect a.http_sock a.con_rc, .socket a.http_sock,
        .getaddrinfo host_name port (some a.http_addr)] ++ s.trace := by
  rcases Step.of_step h with ⟨-, -⟩ | ⟨-, -, -⟩ | ⟨-, -, -⟩ | ⟨-, -, -, -⟩ | ⟨-, -, -, -, -⟩ |
    ⟨hphase', -, -, -, -⟩
  case connects =>
    rw [hphase] at hphase'
    cases hphase'
    cases ht
    exact ⟨rfl, _, rfl⟩
  all_goals cases ht

/-- A call for the start page of `host_name` looks up `host` and asks for `/path` exactly when the path is empty
and the hosts are the same. -/
theorem request_followed_iff {s t : State} {host_name host path : Bytes} {redirect_count http_sent_bytes : ℕ}
    {a : Answers} {c : Connection} (hphase : s.phase = .calling host_name [slash] redirect_count)
    (h : step s (.opens a) = some t) (ht : t.phase = .sending c http_sent_bytes) :
    (∃ port, t.trace = [.connect a.http_sock a.con_rc, .socket a.http_sock,
        .getaddrinfo host port (some a.http_addr)] ++ s.trace) ∧
      c.httpRequest = requestText (slash :: path) host ↔
    path = [] ∧ host_name = host := by
  obtain ⟨hrequest, port, htrace⟩ := request_of_calling hphase h ht
  rw [hrequest, htrace]
  constructor
  · rintro ⟨⟨port', htrace'⟩, hsame⟩
    obtain ⟨hconnect, -⟩ := List.append_inj htrace' rfl
    obtain rfl : host_name = host := by
      simp only [List.cons.injEq, Call.getaddrinfo.injEq] at hconnect
      exact hconnect.2.2.1.1
    -- requests for one host are as long as their paths
    have hlen := congrArg List.length hsame
    rw [length_requestText, length_requestText, List.length_cons, List.length_nil, List.length_cons] at hlen
    exact ⟨List.length_eq_zero_iff.mp (by omega), rfl⟩
  · rintro ⟨rfl, rfl⟩
    exact ⟨⟨port, rfl⟩, rfl⟩

/-- The reply has moved permanently to `http://HOST/PATH`. -/
structure Reply.MovedTo (r : Reply) (host path : Bytes) : Prop where
  code : r.code = 301
  reason : r.reason = ofText "Moved Permanently"
  location : ∃ f ∈ r.fields, f.IsLocation ∧ f.value = ofText "http://" ++ host ++ slash :: path
  host_ok : slash ∉ host

/-- Its status line is what is searched for. -/
theorem Reply.MovedTo.moved {r : Reply} {host path : Bytes} (h : r.MovedTo host path) :
    movedText <:+: cString r.bytes := by
  have hcode : movedText = natText 301 ++ blank :: ofText "Moved Permanently" := by decide
  have hstatus : movedText <:+: r.statusLine := by
    rw [Reply.statusLine, h.code, h.reason, hcode]
    exact ⟨r.version ++ [blank], [], by simp⟩
  rw [r.cString_bytes, isInfix_append_crlf_iff inLine_movedText, isInfix_headText_iff inLine_movedText]
  exact .inl ⟨r.statusLine, List.mem_cons_self, hstatus⟩

/-- What stands behind `Location: ` in the header itself is an address, and no host. -/
theorem Reply.MovedTo.not_host {r : Reply} {host path text : Bytes} (h : r.MovedTo host path)
    (hheader : LocationValue text (ofText "http://" ++ host ++ slash :: path)) : ¬ LocationValue text host := by
  intro hhost
  have hslash : slash ∈ ofText "http://" ++ host ++ slash :: path :=
    List.mem_append_right _ List.mem_cons_self
  rw [hheader.unique hhost] at hslash
  exact h.host_ok hslash

/-- **When a redirection goes where the header says.** For every reply that ends in its buffer and has moved
permanently to `http://HOST/PATH`, on every level: the next call is for `HOST` and `/PATH`, and the request it
sends is the one for them, if and only if `PATH` is empty and `HOST` alone stands behind the first `Location: `
of the reply. -/
theorem location_followed_iff {r : Reply} {host path : Bytes} (hr : r.MovedTo host path)
    (hterm : Terminated r.bytes) {s t : State} {c : Connection} {received : Received} {behind : Bytes}
    (hphase : s.phase = .receiving c r.bytes) (hend : received.received ≤ 0)
    (h : step s (.recv received behind) = some t) :
    (t.phase = .calling host (slash :: path) (c.redirect_count + 1) ↔
      path = [] ∧ LocationValue (cString r.bytes) host) ∧
    ∀ a u c', step t (.opens a) = some u → u.phase = .sending c' 0 →
      ((∃ port, u.trace = [.connect a.http_sock a.con_rc, .socket a.http_sock,
          .getaddrinfo host port (some a.http_addr)] ++ t.trace) ∧
        c'.httpRequest = requestText (slash :: path) host ↔
      path = [] ∧ LocationValue (cString r.bytes) host) := by
  have hroot : ofText "/" = [slash] := by decide
  rcases reply_cases hphase hterm hend h with ⟨host_name, -, hvalue, ht⟩ | ⟨hstays, ht⟩
  · rw [hroot] at ht
    have hhost : path = [] ∧ host_name = host ↔ path = [] ∧ LocationValue (cString r.bytes) host := by
      refine and_congr_right fun _ => ⟨fun hsame => ?_, hvalue.unique⟩
      rw [← hsame]
      exact hvalue
    refine ⟨?_, fun a u c' hopens hu => ?_⟩
    · rw [ht, ← hhost]
      constructor
      · intro hcall
        cases hcall
        exact ⟨rfl, rfl⟩
      · rintro ⟨rfl, rfl⟩
        rfl
    · rw [request_followed_iff ht hopens hu, hhost]
  · -- a reply that is not followed has no value
    have hnone : ¬ LocationValue (cString r.bytes) host := by
      intro hvalue
      exact hstays ⟨hr.moved, exists_locationValue_iff.mp ⟨host, hvalue⟩⟩
    refine ⟨iff_of_false (fun hcall => ?_) fun hno => hnone hno.2, fun a u c' hopens _ => ?_⟩
    · rw [ht] at hcall
      cases hcall
    · simp [step, ht] at hopens

/-- A page has moved to the start of `example.org`, and another field says so first. -/
def movedHost : Reply :=
  movedReply [{ locationField (ofText "example.org") (forall_mem_of_all (by decide)) with
      name := ofText "Content-Location"
      name_ok := forall_mem_of_all (by decide) },
    locationField (ofText "http://example.org/") (forall_mem_of_all (by decide))]

theorem location_followed_iff_movedHost :
    ∃ t, step (atReply movedHost.bytes) (.recv (.data []) []) = some t ∧
      t.phase = .calling (ofText "example.org") [slash] 1 := by
  have hr : movedHost.MovedTo (ofText "example.org") [] :=
    ⟨rfl, rfl, ⟨_, List.mem_cons_of_mem _ List.mem_cons_self, by decide, by decide⟩, by decide⟩
  have hfirst : find locationText (cString movedHost.bytes) = some 40 := by decide
  have hcut : find crlf ((cString movedHost.bytes).drop (40 + locationText.length)) = some 11 := by decide
  have hvalue : LocationValue (cString movedHost.bytes) (ofText "example.org") :=
    ⟨40, find_eq_some_iff.mp hfirst, find_eq_some_iff.mp hcut, by decide⟩
  have hstep : step (atReply movedHost.bytes) (.recv (.data []) []) =
      some (recvReturns (atReply movedHost.bytes) firstConnection movedHost.bytes (.data []) []) := rfl
  exact ⟨_, hstep, (location_followed_iff hr (.inl (by decide)) rfl le_rfl hstep).1.mpr ⟨rfl, hvalue⟩⟩

/-- **The whole address is looked up as a name**, and the path is lost. -/
theorem address_looked_up :
    ¬ ∀ (r : Reply) (host path : Bytes), r.MovedTo host path → Terminated r.bytes →
      ∀ (s t : State) (c : Connection) (received : Received) (behind : Bytes),
      s.phase = .receiving c r.bytes → received.received ≤ 0 → step s (.recv received behind) = some t →
      t.phase = .calling host (slash :: path) (c.redirect_count + 1) := by
  intro hall
  have hr : movedPage.MovedTo (ofText "example.org") (ofText "a") :=
    ⟨rfl, rfl, ⟨_, List.mem_cons_self, by decide, by decide⟩, by decide⟩
  have hterm : Terminated movedPage.bytes := .inl (by decide)
  have hcall : (recvReturns (atReply movedPage.bytes) firstConnection movedPage.bytes (.data []) []).phase =
      .calling (ofText "http://example.org/a") (ofText "/") 1 := by decide
  have hfollowed := hall movedPage _ _ hr hterm (atReply movedPage.bytes) _ firstConnection (.data []) [] rfl
    le_rfl rfl
  have hsame := hcall.symm.trans hfollowed
  have hlen := congrArg List.length (Phase.calling.inj hsame).1
  exact absurd hlen (by decide)

end LinuxNet.Tutorials.HttpRedirection
