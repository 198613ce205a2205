/-
# LinuxNet.Http.Parser.Decode — reading a written request back

A message is a first line, field lines and an empty line, each ended by CR LF, and then the rest. The
position of the parser in it is carried line by line (`headFields_message`, `afterHead_message`): a
field line is none of the lines that end the head because it is not empty.

`WireRequest` is what a client may send: the tokens, names and values that can be written, and a body
that is announced. `parse_wireRequest`: the parser reads back exactly what was written, whatever bytes
follow.
-/
import LinuxNet.Http.Parser.Parse

namespace LinuxNet.Http.Parser

open LinuxNet.Lib LinuxNet.Cpp

/-! ## Messages -/

/-- A first line, field lines, an empty line, and the rest. -/
def message (first : Bytes) (fieldLines : List Bytes) (rest : Bytes) : Bytes :=
  first ++ (crlf ++ (fieldLines.flatMap (· ++ crlf) ++ (crlf ++ rest)))

/-- A line that can stand in the head: no LF in it, and not empty. -/
def IsFieldLine (line : Bytes) : Prop := lf ∉ line ∧ line ≠ []

/-- A line up to its CR LF. -/
theorem lines_crlf {line : Bytes} (hline : lf ∉ line) (rest : Bytes) :
    lines lf (line ++ (crlf ++ rest)) = (line ++ [cr], rest) :: lines lf rest := by
  have hcr : lf ∉ line ++ [cr] := by
    rw [List.mem_append, not_or]
    exact ⟨hline, by decide⟩
  have h := lines_append hcr rest
  rw [List.append_assoc] at h
  exact h

theorem popCr_append (line : Bytes) : popCr (line ++ [cr]) = line := by
  simp [popCr]

theorem headerField_cr (line : Bytes) :
    headerField (line ++ [cr]) = (splitFirst colon line).map fun p => (p.1, eraseSpace p.2) := by
  rw [headerField, popCr_append]

theorem headerField_colon {name : Bytes} (hname : colon ∉ name) (val : Bytes) :
    headerField (name ++ colon :: val ++ [cr]) = some (name, eraseSpace val) := by
  rw [headerField_cr, splitFirst_append hname]
  rfl

theorem isFieldLine_colon {name text : Bytes} (hname : lf ∉ name) (htext : lf ∉ text) :
    IsFieldLine (name ++ colon :: text) := by
  have hcolon : lf ≠ colon := by decide
  exact ⟨by simp [hname, htext, hcolon], by simp⟩

/-- Lines that are read back one by one. -/
theorem filterMap_headerField {entries : List (Bytes × Bytes)} {line : Bytes × Bytes → Bytes}
    (h : ∀ p ∈ entries, headerField (line p ++ [cr]) = some p) :
    (entries.map line).filterMap (fun l => headerField (l ++ [cr])) = entries := by
  have hsome : ∀ p ∈ entries, ((fun l => headerField (l ++ [cr])) ∘ line) p = some p := h
  rw [List.filterMap_map, List.filterMap_congr hsome, List.filterMap_some]

/-- **The head of a message** is its field lines, and what follows it is the rest. -/
theorem fieldsOf_restOf_lines {fieldLines : List Bytes} (h : ∀ line ∈ fieldLines, IsFieldLine line)
    (rest : Bytes) :
    fieldsOf (lines lf (fieldLines.flatMap (· ++ crlf) ++ (crlf ++ rest))) =
        fieldLines.filterMap (fun line => headerField (line ++ [cr])) ∧
      restOf (lines lf (fieldLines.flatMap (· ++ crlf) ++ (crlf ++ rest))) = rest := by
  induction fieldLines with
  | nil =>
      have hnil : lines lf (crlf ++ rest) = ([cr], rest) :: lines lf rest :=
        lines_crlf List.not_mem_nil rest
      rw [List.flatMap_nil, List.nil_append, hnil]
      exact ⟨rfl, rfl⟩
  | cons line fieldLines ih =>
      obtain ⟨⟨hline, hne⟩, hmore⟩ := List.forall_mem_cons.mp h
      obtain ⟨hfields, hrest⟩ := ih hmore
      -- a line with something before its CR does not end the head
      have hlone : line ++ [cr] ≠ [cr] := by
        intro heq
        exact hne (by simpa using heq)
      rw [List.flatMap_cons, List.append_assoc, List.append_assoc, lines_crlf hline,
        fieldsOf_cons _ _ hlone, restOf_cons _ _ hlone, hfields, hrest]
      refine ⟨?_, rfl⟩
      cases hfield : headerField (line ++ [cr]) <;> simp [hfield]

section Message

variable {first : Bytes} (hfirst : lf ∉ first) {fieldLines : List Bytes}
  (h : ∀ line ∈ fieldLines, IsFieldLine line) (rest : Bytes)

include hfirst

theorem lines_message (fieldLines : List Bytes) (rest : Bytes) :
    lines lf (message first fieldLines rest) =
      (first ++ [cr], fieldLines.flatMap (· ++ crlf) ++ (crlf ++ rest)) ::
        lines lf (fieldLines.flatMap (· ++ crlf) ++ (crlf ++ rest)) :=
  lines_crlf hfirst _

theorem methodAndPath_message (fieldLines : List Bytes) (rest : Bytes) :
    methodAndPath (message first fieldLines rest) = firstLine (first ++ [cr]) := by
  rw [methodAndPath, lines_message hfirst]
  rfl

include h

theorem headFields_message : headFields (message first fieldLines rest) =
    fieldLines.filterMap fun line => headerField (line ++ [cr]) := by
  rw [headFields, lines_message hfirst]
  exact (fieldsOf_restOf_lines h rest).1

theorem afterHead_message : afterHead (message first fieldLines rest) = rest := by
  rw [afterHead, lines_message hfirst]
  exact (fieldsOf_restOf_lines h rest).2

end Message

/-! ## Tokens of the first line -/

/-- A word that can be read back with `>>`. -/
def IsToken (word : Bytes) : Prop := word ≠ [] ∧ ∀ b ∈ word, isSpace b = false

instance (word : Bytes) : Decidable (IsToken word) :=
  decidable_of_iff (word ≠ [] ∧ word.all fun b => !isSpace b) (by simp [IsToken])

theorem IsToken.lf_notMem {word : Bytes} (h : IsToken word) : lf ∉ word := by
  intro hmem
  have hspace : isSpace lf = true := by decide
  rw [h.2 lf hmem] at hspace
  cases hspace

/-- The first two tokens of a line are its method and its path, whatever follows. -/
theorem firstLine_tokens {method path : Bytes} (hmethod : IsToken method) (hpath : IsToken path)
    {sp : UInt8} (hsp : isSpace sp = true) (rest : Bytes) :
    firstLine (method ++ space :: (path ++ sp :: rest)) = (method, path) := by
  have hspace : isSpace space = true := by decide
  have hlone : method ++ space :: (path ++ sp :: rest) ≠ [cr] := by
    intro h
    have hmem : space ∈ [cr] := by
      rw [← h]
      simp
    exact absurd hmem (by decide)
  rw [firstLine, if_pos hlone, extractToken_append hmethod.1 hmethod.2 hspace]
  simp only
  rw [extractToken_space hspace, extractToken_append hpath.1 hpath.2 hsp]

/-- Two tokens and a text, as they stand in a first line. -/
theorem lf_notMem_words {method path rest : Bytes} (hmethod : IsToken method) (hpath : IsToken path)
    (hrest : lf ∉ rest) : lf ∉ method ++ space :: (path ++ space :: rest) := by
  have hspace : lf ≠ space := by decide
  simp [hmethod.lf_notMem, hpath.lf_notMem, hrest, hspace]

theorem methodAndPath_words {method path rest : Bytes} (hmethod : IsToken method)
    (hpath : IsToken path) (hrest : lf ∉ rest) (fieldLines : List Bytes) (body : Bytes) :
    methodAndPath (message (method ++ space :: (path ++ space :: rest)) fieldLines body) =
      (method, path) := by
  rw [methodAndPath_message (lf_notMem_words hmethod hpath hrest), List.append_assoc,
    List.cons_append, List.append_assoc, List.cons_append]
  exact firstLine_tokens hmethod hpath (by decide) _

/-! ## Requests on the wire -/

/-- **`WireRequest`** — a request as a client writes it. -/
structure WireRequest where
  method : Bytes
  path : Bytes
  headers : List (Bytes × Bytes)
  body : Bytes
  method_token : IsToken method
  path_token : IsToken path
  names : ∀ p ∈ headers, colon ∉ p.1 ∧ lf ∉ p.1
  values : ∀ p ∈ headers, lf ∉ p.2
  /-- the body is announced, and where nothing is announced there is none -/
  framed : contentLength ∉ headers.map Prod.fst ∧ body = [] ∨
    lastValue contentLength headers = some (natText body.length)

namespace WireRequest

/-- `METHOD SP PATH SP HTTP/1.1`. -/
def requestLine (w : WireRequest) : Bytes :=
  w.method ++ space :: (w.path ++ space :: ofText "HTTP/1.1")

/-- `name: value`. -/
def fieldLine (p : Bytes × Bytes) : Bytes := p.1 ++ colon :: space :: p.2

/-- The bytes of the request. -/
def bytes (w : WireRequest) : Bytes :=
  w.requestLine ++ crlf ++ w.headers.flatMap (fun p => fieldLine p ++ crlf) ++ crlf ++ w.body

theorem bytes_append (w : WireRequest) (tail : Bytes) :
    w.bytes ++ tail = message w.requestLine (w.headers.map fieldLine) (w.body ++ tail) := by
  simp [bytes, message, List.flatMap_map]

theorem lf_notMem_requestLine (w : WireRequest) : lf ∉ w.requestLine := by
  have hversion : lf ∉ ofText "HTTP/1.1" := by decide
  exact lf_notMem_words w.method_token w.path_token hversion

theorem isFieldLine_fieldLine {p : Bytes × Bytes} (hname : lf ∉ p.1) (hval : lf ∉ p.2) :
    IsFieldLine (fieldLine p) := by
  apply isFieldLine_colon hname
  rw [List.mem_cons, not_or]
  exact ⟨by decide, hval⟩

theorem headerField_fieldLine {p : Bytes × Bytes} (hname : colon ∉ p.1) :
    headerField (fieldLine p ++ [cr]) = some p := by
  show headerField (p.1 ++ colon :: space :: p.2 ++ [cr]) = some p
  rw [headerField_colon hname]
  rfl

theorem isFieldLine_headers (w : WireRequest) :
    ∀ line ∈ w.headers.map fieldLine, IsFieldLine line := by
  intro line hline
  obtain ⟨p, hp, rfl⟩ := List.mem_map.mp hline
  exact isFieldLine_fieldLine (w.names p hp).2 (w.values p hp)

/-- The fields of the head are the headers. -/
theorem headFields_eq (w : WireRequest) (tail : Bytes) : headFields (w.bytes ++ tail) = w.headers := by
  rw [bytes_append, headFields_message w.lf_notMem_requestLine w.isFieldLine_headers]
  apply filterMap_headerField
  intro p hp
  exact headerField_fieldLine (w.names p hp).1

theorem afterHead_eq (w : WireRequest) (tail : Bytes) :
    afterHead (w.bytes ++ tail) = w.body ++ tail := by
  rw [bytes_append, afterHead_message w.lf_notMem_requestLine w.isFieldLine_headers]

theorem methodAndPath_eq (w : WireRequest) (tail : Bytes) :
    methodAndPath (w.bytes ++ tail) = (w.method, w.path) := by
  have hversion : lf ∉ ofText "HTTP/1.1" := by decide
  rw [bytes_append, requestLine, methodAndPath_words w.method_token w.path_token hversion]

/-- The body is read back from the bytes after the head. -/
theorem readBody_eq (lim : Limits) (w : WireRequest) (hlen : w.body.length ≤ 2 ^ 31 - 1)
    (tail : Bytes) : readBody lim (assign ∅ w.headers) (w.body ++ tail) = .ok w.body := by
  have hlookup : (assign ∅ w.headers).lookup contentLength = lastValue contentLength w.headers := by
    rw [lookup_assign, Finmap.lookup_empty, Option.or_none]
  rcases w.framed with ⟨hout, hbody⟩ | hlast
  · rw [lastValue_eq_none hout] at hlookup
    rw [readBody_none lim hlookup, hbody]
  · rw [hlast] at hlookup
    have hstoi : stoi (natText w.body.length) = .ok w.body.length := stoi_natText (by omega)
    exact readBody_self lim hlookup hstoi tail

/-- What the parser makes of a request. -/
def request (w : WireRequest) : HTTPRequest where
  mMethod := w.method
  mPath := w.path
  mHeaders := assign ∅ w.headers
  mBody := w.body

theorem parse_bytes (w : WireRequest) (lim : Limits) (hlen : w.body.length ≤ 2 ^ 31 - 1) (tail : Bytes) :
    parse lim (w.bytes ++ tail) = .ok w.request := by
  rw [parse_eq, w.headFields_eq, w.afterHead_eq, w.methodAndPath_eq, w.readBody_eq lim hlen]
  rfl

/-- Only a body whose length is an `int` can be read. -/
theorem length_of_parse {lim : Limits} {w : WireRequest} {request : HTTPRequest}
    (h : parse lim w.bytes = .ok request) : w.body.length ≤ 2 ^ 31 - 1 := by
  have hread := (parse_ok_iff lim w.bytes).mp ⟨request, h⟩
  have hfields : headFields w.bytes = w.headers := by
    have hall := w.headFields_eq []
    rwa [List.append_nil] at hall
  rcases w.framed with ⟨-, hbody⟩ | hlast
  · rw [hbody]
    exact Nat.zero_le _
  · obtain ⟨n, hn⟩ := hread _ (by rw [hfields]; exact hlast)
    rw [stoi_natText_eq] at hn
    split at hn
    next => cases hn
    next => omega

theorem parse_bytes_self (w : WireRequest) (lim : Limits) (hlen : w.body.length ≤ 2 ^ 31 - 1) :
    parse lim w.bytes = .ok w.request := by
  have hall := w.parse_bytes lim hlen []
  rwa [List.append_nil] at hall

/-- A request that can be parsed is parsed as it was meant. -/
theorem eq_of_parse {lim : Limits} {w : WireRequest} {request : HTTPRequest}
    (h : parse lim w.bytes = .ok request) : request = w.request := by
  have hmeant := w.parse_bytes_self lim (length_of_parse h)
  rw [h] at hmeant
  exact Except.ok.inj hmeant

end WireRequest

/-- **The parser undoes the writing of a request**, and the bytes after it have no influence. -/
theorem parse_wireRequest (lim : Limits) (w : WireRequest) (hlen : w.body.length ≤ 2 ^ 31 - 1)
    (tail : Bytes) :
    ∃ request, parse lim (w.bytes ++ tail) = .ok request ∧
      request.mMethod = w.method ∧ request.mPath = w.path ∧ request.mBody = w.body ∧
      ∀ name, request.mHeaders.lookup name = lastValue name w.headers := by
  refine ⟨w.request, w.parse_bytes lim hlen tail, rfl, rfl, rfl, ?_⟩
  intro name
  show (assign ∅ w.headers).lookup name = lastValue name w.headers
  rw [lookup_assign, Finmap.lookup_empty, Option.or_none]

/-- `GET /a HTTP/1.1` with a field that is announced twice, and the body `hi`. -/
def sampleRequest : WireRequest where
  method := ofText "GET"
  path := ofText "/a"
  headers := [(ofText "X", ofText "a:b"), (contentLength, ofText "9"), (contentLength, ofText "2")]
  body := ofText "hi"
  method_token := by decide
  path_token := by decide
  names := by decide
  values := by decide
  framed := by decide

/-- It is read back although more bytes follow. -/
theorem parse_sampleRequest : ∃ request,
    parse intLimits (sampleRequest.bytes ++ ofText "more") = .ok request ∧
      request.mMethod = ofText "GET" ∧ request.mPath = ofText "/a" ∧ request.mBody = ofText "hi" ∧
      ∀ name, request.mHeaders.lookup name = lastValue name sampleRequest.headers :=
  parse_wireRequest _ sampleRequest (by decide) _

end LinuxNet.Http.Parser
