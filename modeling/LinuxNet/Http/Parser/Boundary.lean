/-
# LinuxNet.Http.Parser.Boundary — what the length, the body and the blank line are worth

Three questions about every byte string, not only about well-formed requests.

* When does the parser throw, and how long is the body when it does not (`parse_throws_iff`)? Only the
  last `Content-Length` line of the head counts, and of its value only the number it starts with.
* Which bytes does the body consist of (`body_prefix_iff`)? It is resized before it is read, so what was
  announced and not received is filled up with zeros.
* Which line ends the head (`headers_before_empty_iff`)? One CR is taken off every header line, which
  makes a bare LF as good a line end as CR LF, but the loop stops at the line `"\r"` only.
-/
import LinuxNet.Http.Parser.Parse

namespace LinuxNet.Http.Parser

open LinuxNet.Lib LinuxNet.Cpp

/-! ## The lines of the head -/

/-- The lines after the first one, as `getline` gives them. -/
def laterLines (raw : Bytes) : List Bytes := (lines lf raw).tail.map Prod.fst

/-- The lines the loop goes through: those after the first one and before the first lone CR. -/
def headLines (raw : Bytes) : List Bytes := (laterLines raw).takeWhile (· ≠ [cr])

theorem headFields_eq_filterMap (raw : Bytes) :
    headFields raw = (headLines raw).filterMap headerField := by
  rw [headFields, fieldsOf, headLines, laterLines, List.takeWhile_map, List.filterMap_map]
  rfl

/-- What remains of the text after the colon: without one CR at its end and one space at its start. -/
def trimmed (text : Bytes) : Bytes := eraseSpace (popCr text)

/-- The CR at the end of a line is none of the bytes before its colon. -/
theorem splitFirst_popCr (line : Bytes) :
    splitFirst colon (popCr line) = (splitFirst colon line).map fun p => (p.1, popCr p.2) := by
  induction line with
  | nil => rfl
  | cons b line ih =>
      rcases line with _ | ⟨c, line⟩
      · by_cases hb : b = cr
        · subst hb
          rfl
        · have hkeep : popCr [b] = [b] := if_neg (by simpa using hb)
          rw [hkeep, splitFirst]
          split
          · rfl
          · rfl
      · have hcons : popCr (b :: c :: line) = b :: popCr (c :: line) := by
          rw [popCr, popCr, List.getLast?_cons_cons]
          split
          · rfl
          · rfl
        rw [hcons, splitFirst, splitFirst, ih]
        split
        · rfl
        · rw [Option.map_map, Option.map_map]
          rfl

theorem headerField_eq (line : Bytes) :
    headerField line = (splitFirst colon line).map fun p => (p.1, trimmed p.2) := by
  rw [headerField, splitFirst_popCr, Option.map_map]
  rfl

/-- Every line with a colon is a header line. -/
theorem headerField_eq_none_iff {line : Bytes} : headerField line = none ↔ colon ∉ line := by
  rw [headerField_eq, Option.map_eq_none_iff, splitFirst_eq_none_iff]

/-! ## The announced length -/

/-- The text after the colon in the last line of the head whose text before its first colon is
`Content-Length`. -/
def lengthText (raw : Bytes) : Option Bytes :=
  lastValue contentLength ((headLines raw).filterMap (splitFirst colon))

/-- **A length that cannot be used**: there is no digit after white space and a sign, or the number is
not within the range of `int`, or it is negative. -/
def Unreadable (val : Bytes) : Prop :=
  leadingNumber val = none ∨
    (∃ n, leadingNumber val = some n ∧ (n < -2 ^ 31 ∨ 2 ^ 31 ≤ n)) ∨
    ∃ n, leadingNumber val = some n ∧ n < 0

theorem lastValue_headFields (raw : Bytes) :
    lastValue contentLength (headFields raw) = (lengthText raw).map trimmed := by
  have hfields : headFields raw =
      ((headLines raw).filterMap (splitFirst colon)).map fun p => (p.1, trimmed p.2) := by
    rw [headFields_eq_filterMap, List.map_filterMap]
    exact List.filterMap_congr fun line _ => headerField_eq line
  rw [hfields, lastValue_map]
  rfl

theorem readable_iff {val : Bytes} : ¬ Unreadable val ↔ ∃ n : ℕ, stoi val = .ok n := by
  unfold Unreadable
  constructor
  · intro h
    push Not at h
    obtain ⟨hsome, hrange, hneg⟩ := h
    obtain ⟨n, hn⟩ := Option.ne_none_iff_exists'.mp hsome
    obtain ⟨m, rfl⟩ := Int.eq_ofNat_of_zero_le (hneg n hn)
    exact ⟨m, stoi_eq_ok_iff.mpr ⟨hn, hrange _ hn⟩⟩
  · rintro ⟨n, hn⟩
    obtain ⟨hnumber, hlow, hhigh⟩ := stoi_eq_ok_iff.mp hn
    rintro (hnone | ⟨m, hm, hrange⟩ | ⟨m, hm, hneg⟩)
    · rw [hnone] at hnumber
      cases hnumber
    · rw [hnumber] at hm
      cases hm
      omega
    · rw [hnumber] at hm
      cases hm
      omega

section Parsed

variable {lim : Limits} {raw : Bytes} {request : HTTPRequest}

/-- What was parsed has its body from `readBody`. -/
theorem readBody_of_parse (h : parse lim raw = .ok request) :
    readBody lim (assign ∅ (headFields raw)) (afterHead raw) = .ok request.mBody := by
  rw [parse_eq] at h
  rcases hbody : readBody lim (assign ∅ (headFields raw)) (afterHead raw) with exn | body
  · rw [hbody] at h
    cases h
  · rw [hbody] at h
    cases h
    rfl

/-- A parsed request, field by field. -/
theorem fields_of_parse (h : parse lim raw = .ok request) :
    request.mMethod = (methodAndPath raw).1 ∧ request.mPath = (methodAndPath raw).2 ∧
      request.mHeaders = assign ∅ (headFields raw) := by
  have hread := readBody_of_parse h
  rw [parse_eq, hread] at h
  have heq := (Except.ok.inj h).symm
  exact ⟨congrArg HTTPRequest.mMethod heq, congrArg HTTPRequest.mPath heq,
    congrArg HTTPRequest.mHeaders heq⟩

theorem lookup_contentLength (raw : Bytes) :
    (assign ∅ (headFields raw)).lookup contentLength = (lengthText raw).map trimmed := by
  rw [lookup_assign, Finmap.lookup_empty, Option.or_none, lastValue_headFields]

/-- Without an announced length there is no body. -/
theorem mBody_of_none (h : parse lim raw = .ok request) (hnone : lengthText raw = none) :
    request.mBody = [] := by
  have hread := readBody_of_parse h
  have hlookup := lookup_contentLength raw
  rw [hnone] at hlookup
  rw [readBody_none lim hlookup] at hread
  exact (Except.ok.inj hread).symm

/-- **The body is as long as announced**, and consists of the bytes after the head and of zeros. -/
theorem mBody_of_some (h : parse lim raw = .ok request) {text : Bytes}
    (htext : lengthText raw = some text) :
    stoi (trimmed text) = .ok request.mBody.length ∧
      request.mBody = (afterHead raw).take request.mBody.length ++
        List.replicate (request.mBody.length - (afterHead raw).length) 0 := by
  have hlookup := lookup_contentLength raw
  have hlast := lastValue_headFields raw
  rw [htext] at hlookup hlast
  obtain ⟨n, hn⟩ := (parse_ok_iff lim raw).mp ⟨request, h⟩ _ hlast
  have hread := readBody_of_parse h
  rw [readBody_nat lim hlookup hn] at hread
  have hbody := (Except.ok.inj hread).symm
  have hlen : request.mBody.length = n := by
    rw [hbody, List.length_append, List.length_take, List.length_replicate]
    omega
  rw [hlen]
  exact ⟨hn, hbody⟩

/-- The number that was announced. -/
theorem leadingNumber_of_some (h : parse lim raw = .ok request) {text : Bytes}
    (htext : lengthText raw = some text) :
    leadingNumber (trimmed text) = some (request.mBody.length : Int) :=
  (stoi_eq_ok_iff.mp (mBody_of_some h htext).1).1

end Parsed

/-- **Exactly when parsing fails**: the last `Content-Length` line of the head has a length that cannot be
used. Otherwise the body has the length it announces, and without such a line there is none. -/
theorem parse_throws_iff (lim : Limits) (raw : Bytes) :
    ((∃ exn, parse lim raw = .error exn) ↔
        ∃ text, lengthText raw = some text ∧ Unreadable (trimmed text)) ∧
      ∀ request, parse lim raw = .ok request →
        (∀ text, lengthText raw = some text →
          leadingNumber (trimmed text) = some (request.mBody.length : Int)) ∧
        (lengthText raw = none → request.mBody = []) := by
  refine ⟨?_, ?_⟩
  · have hok : (∃ request, parse lim raw = .ok request) ↔
        ¬ ∃ text, lengthText raw = some text ∧ Unreadable (trimmed text) := by
      rw [parse_ok_iff, lastValue_headFields]
      constructor
      · rintro hall ⟨text, htext, hbad⟩
        exact readable_iff.mpr (hall _ (by rw [htext]; rfl)) hbad
      · intro hnone val hval
        obtain ⟨text, htext, rfl⟩ := Option.map_eq_some_iff.mp hval
        exact readable_iff.mp fun hbad => hnone ⟨text, htext, hbad⟩
    have hsplit : (∃ exn, parse lim raw = .error exn) ↔ ¬ ∃ request, parse lim raw = .ok request := by
      rcases parse lim raw with exn | request
      · simp
      · simp
    rw [hsplit, hok, not_not]
  · intro request h
    exact ⟨fun text htext => leadingNumber_of_some h htext, mBody_of_none h⟩

/-- A value like `" +1x"` is read, one that is out of range is not. -/
example : leadingNumber (trimmed (ofText "  +1x\r")) = some 1 := by decide

/-! ## The bytes of the body -/

/-- **When the body is made of received bytes**: exactly when no more bytes are announced than there are
after the head. -/
theorem body_prefix_iff (lim : Limits) (raw : Bytes) (request : HTTPRequest)
    (h : parse lim raw = .ok request) :
    request.mBody <+: afterHead raw ↔
      ∀ text n, lengthText raw = some text → leadingNumber (trimmed text) = some n →
        n ≤ (afterHead raw).length := by
  rcases htext : lengthText raw with _ | text
  · rw [mBody_of_none h htext]
    simp
  · have hn := leadingNumber_of_some h htext
    constructor
    · rintro hprefix text' m htext' hm
      cases htext'
      rw [hn] at hm
      cases hm
      have hle := hprefix.length_le
      omega
    · intro hall
      have hle := hall text _ rfl hn
      -- no zeros have to be filled in
      have hzero : request.mBody.length - (afterHead raw).length = 0 := by omega
      rw [(mBody_of_some h htext).2, hzero, List.replicate_zero, List.append_nil]
      exact List.take_prefix _ _

/-- Two bytes are announced and received. -/
def completeRequest : Bytes := ofText "POST /a HTTP/1.1\r\nContent-Length: 2\r\n\r\nhi"

/-- They are the body. -/
theorem body_prefix_iff_complete : ∃ request,
    parse intLimits completeRequest = .ok request ∧ request.mBody <+: afterHead completeRequest := by
  have htext : lengthText completeRequest = some (ofText " 2\r") := by decide
  have hlast : lastValue contentLength (headFields completeRequest) = some (ofText "2") := by decide
  have htwo : stoi (ofText "2") = .ok (2 : ℕ) := rfl
  obtain ⟨request, h⟩ := exists_parse_of_some intLimits hlast htwo
  refine ⟨request, h, (body_prefix_iff intLimits completeRequest request h).mpr ?_⟩
  intro text n htext' hn
  rw [htext] at htext'
  cases htext'
  have hnumber : leadingNumber (trimmed (ofText " 2\r")) = some 2 := by decide
  rw [hnumber] at hn
  cases hn
  decide

/-- Ten bytes are announced, two are there. -/
def paddedRequest : Bytes := ofText "POST /a HTTP/1.1\r\nContent-Length: 10\r\n\r\nhi"

/-- **The parser invents bytes**: the body of this request has eight bytes nobody sent. -/
theorem body_not_received :
    ¬ ∀ (lim : Limits) (raw : Bytes) (request : HTTPRequest), parse lim raw = .ok request →
      request.mBody <+: afterHead raw := by
  intro hall
  have htext : lengthText paddedRequest = some (ofText " 10\r") := by decide
  have hlast : lastValue contentLength (headFields paddedRequest) = some (ofText "10") := by decide
  have hten : stoi (ofText "10") = .ok (10 : ℕ) := rfl
  obtain ⟨request, h⟩ := exists_parse_of_some intLimits hlast hten
  have hnumber : leadingNumber (trimmed (ofText " 10\r")) = some 10 := by decide
  have hlen := leadingNumber_of_some h htext
  rw [hnumber] at hlen
  have hafter : (afterHead paddedRequest).length = 2 := by decide
  have hle := (hall intLimits paddedRequest request h).length_le
  have hlong : (10 : Int) = request.mBody.length := Option.some.inj hlen
  omega

/-! ## The line that ends the head -/

/-- LF alone, or CR LF. -/
def IsEmptyLine (line : Bytes) : Prop := line = [] ∨ line = [cr]

instance : DecidablePred IsEmptyLine := fun line =>
  inferInstanceAs (Decidable (line = [] ∨ line = [cr]))

/-- How many lines there are between the request line and the first empty line after it. -/
def firstEmpty (raw : Bytes) : ℕ := (laterLines raw).findIdx fun line => decide (IsEmptyLine line)

/-- **`SourceLine raw key val i`** — the entry `key: val` was made by line `i` after the first, and by no
line of the head behind it. -/
def SourceLine (raw key val : Bytes) (i : ℕ) : Prop :=
  (headLines raw)[i]?.bind headerField = some (key, val) ∧
    ∀ j, i < j → ∀ val', (headLines raw)[j]?.bind headerField ≠ some (key, val')

section Parsed

variable {lim : Limits} {raw : Bytes} {request : HTTPRequest}

theorem lookup_of_parse (h : parse lim raw = .ok request) (key : Bytes) :
    request.mHeaders.lookup key = lastValue key ((headLines raw).filterMap headerField) := by
  rw [(fields_of_parse h).2.2, lookup_assign, Finmap.lookup_empty, Option.or_none,
    headFields_eq_filterMap]

/-- Every entry was made by some line. -/
theorem exists_sourceLine (h : parse lim raw = .ok request) {key val : Bytes}
    (hentry : request.mHeaders.lookup key = some val) : ∃ i, SourceLine raw key val i := by
  rw [lookup_of_parse h] at hentry
  exact exists_source hentry

/-- Every header line leaves an entry. -/
theorem exists_entry (h : parse lim raw = .ok request) {line key val : Bytes}
    (hline : line ∈ headLines raw) (hfield : headerField line = some (key, val)) :
    ∃ val', request.mHeaders.lookup key = some val' := by
  rw [lookup_of_parse h]
  apply exists_lastValue
  exact List.mem_map.mpr ⟨(key, val), List.mem_filterMap.mpr ⟨line, hline, hfield⟩, rfl⟩

end Parsed

/-- **When no byte behind the first empty line becomes a header**: exactly when no line from there to the
lone CR (or to the end, when there is none) has a colon in it. -/
theorem headers_before_empty_iff (lim : Limits) (raw : Bytes) (request : HTTPRequest)
    (h : parse lim raw = .ok request) :
    (∀ key val, request.mHeaders.lookup key = some val →
        ∃ i, i < firstEmpty raw ∧ SourceLine raw key val i) ↔
      ∀ line ∈ (headLines raw).drop (firstEmpty raw), colon ∉ line := by
  constructor
  · intro hbefore line hline
    rw [← headerField_eq_none_iff, Option.eq_none_iff_forall_ne_some]
    rintro ⟨key, val⟩ hfield
    obtain ⟨k, hk⟩ := List.getElem?_of_mem hline
    rw [List.getElem?_drop] at hk
    obtain ⟨val', hentry⟩ := exists_entry h (List.mem_of_getElem? hk) hfield
    -- the line that made the entry stands before the empty line, this one behind it
    obtain ⟨i, hi, -, hlast⟩ := hbefore key val' hentry
    apply hlast (firstEmpty raw + k) (by omega) val
    rw [hk]
    exact hfield
  · intro hnone key val hentry
    obtain ⟨i, hi, hlast⟩ := exists_sourceLine h hentry
    refine ⟨i, ?_, hi, hlast⟩
    by_contra hge
    obtain ⟨line, hline, hfield⟩ := Option.bind_eq_some_iff.mp hi
    obtain ⟨k, rfl⟩ : ∃ k, i = firstEmpty raw + k := ⟨i - firstEmpty raw, by omega⟩
    rw [← List.getElem?_drop] at hline
    have hcolon := hnone line (List.mem_of_getElem? hline)
    rw [← headerField_eq_none_iff, hfield] at hcolon
    cases hcolon

/-- A head whose lines end in CR LF, the last of them without colon. -/
def strictRequest : Bytes := ofText "GET / HTTP/1.1\r\nA: b\nC: d\r\n\r\nX: y"

/-- What looks like a header behind it is none. -/
theorem headers_before_empty_iff_strict : ∃ request, parse intLimits strictRequest = .ok request ∧
    ∀ key val, request.mHeaders.lookup key = some val →
      ∃ i, i < firstEmpty strictRequest ∧ SourceLine strictRequest key val i := by
  have hlast : lastValue contentLength (headFields strictRequest) = none := by decide
  obtain ⟨request, h⟩ := exists_parse_of_none intLimits hlast
  refine ⟨request, h, (headers_before_empty_iff intLimits strictRequest request h).mpr ?_⟩
  have hdrop : (headLines strictRequest).drop (firstEmpty strictRequest) = [] := by decide
  rw [hdrop]
  intro line hline
  cases hline

/-- The blank line of this request is a bare LF. -/
def smuggledRequest : Bytes := ofText "GET / HTTP/1.1\nA: b\n\nX: y"

/-- **The body becomes a header**: the entry `X: y` comes from the line after the blank one. -/
theorem headers_behind_empty :
    ¬ ∀ (lim : Limits) (raw : Bytes) (request : HTTPRequest),
      (∀ line, (lines lf raw).head?.map Prod.fst = some line → ¬ IsEmptyLine line) →
      parse lim raw = .ok request →
      ∀ key val, request.mHeaders.lookup key = some val →
        ∃ i, i < firstEmpty raw ∧ SourceLine raw key val i := by
  intro hall
  have hlast : lastValue contentLength (headFields smuggledRequest) = none := by decide
  obtain ⟨request, h⟩ := exists_parse_of_none intLimits hlast
  have hfirst : ∀ line, (lines lf smuggledRequest).head?.map Prod.fst = some line →
      ¬ IsEmptyLine line := by
    intro line hline
    have hhead : (lines lf smuggledRequest).head?.map Prod.fst = some (ofText "GET / HTTP/1.1") := by
      decide
    rw [hhead] at hline
    cases hline
    decide
  have hentry : request.mHeaders.lookup (ofText "X") = some (ofText "y") := by
    rw [lookup_of_parse h]
    decide
  obtain ⟨i, hi, hsource, -⟩ := hall intLimits smuggledRequest request hfirst h _ _ hentry
  -- there is one line before the empty one, and it is another header
  have hone : firstEmpty smuggledRequest = 1 := by decide
  obtain rfl : i = 0 := by omega
  exact absurd hsource (by decide)

end LinuxNet.Http.Parser
