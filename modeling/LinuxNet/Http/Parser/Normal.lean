/-
# LinuxNet.Http.Parser.Normal — what every parsed request has in common

`HTTPParser::parse` takes almost anything: bare LF, stray CR, empty names, a `Content-Length` that only
starts with a number. What it returns is more regular than what it was given. `Normal` says how:
method and path are tokens, no name has a colon in it, nothing has a LF in it, and the body is exactly as
long as the `Content-Length` in the map announces.

That is all it takes for the request to be written as a proper message and read back as it is, in
whatever order its headers are written (`parse_encode`).
-/
import LinuxNet.Http.Parser.Decode
import LinuxNet.Http.Parser.Boundary

namespace LinuxNet.Http.Parser

open LinuxNet.Lib LinuxNet.Cpp

/-! ## The regularity of parsed requests -/

/-- **`Normal`** — the invariant of parse results. -/
structure Normal (request : HTTPRequest) : Prop where
  method_token : request.mPath ≠ [] → IsToken request.mMethod
  path_token : request.mPath ≠ [] → IsToken request.mPath
  key_colon : ∀ key val, request.mHeaders.lookup key = some val → colon ∉ key
  key_lf : ∀ key val, request.mHeaders.lookup key = some val → lf ∉ key
  val_lf : ∀ key val, request.mHeaders.lookup key = some val → lf ∉ val
  /-- the body is announced, and where nothing is announced there is none -/
  framed : request.mHeaders.lookup contentLength = none ∧ request.mBody = [] ∨
    ∃ val, request.mHeaders.lookup contentLength = some val ∧ stoi val = .ok request.mBody.length

/-- A line with a path in it has a method in front of it, and both are tokens. -/
theorem isToken_firstLine {line : Bytes} (h : (firstLine line).2 ≠ []) :
    IsToken (firstLine line).1 ∧ IsToken (firstLine line).2 := by
  rw [firstLine] at h ⊢
  split at h
  next hline =>
    rw [if_pos hline]
    have hmethod : (extractToken line).1 ≠ [] := by
      intro hnil
      apply h
      show (extractToken (extractToken line).2).1 = []
      rw [extractToken_snd_of_nil hnil]
      rfl
    exact ⟨⟨hmethod, fun b hb => isSpace_of_mem_extractToken hb⟩,
      ⟨h, fun b hb => isSpace_of_mem_extractToken hb⟩⟩
  next => exact absurd rfl h

theorem isToken_methodAndPath {raw : Bytes} (h : (methodAndPath raw).2 ≠ []) :
    IsToken (methodAndPath raw).1 ∧ IsToken (methodAndPath raw).2 := by
  unfold methodAndPath at h ⊢
  rcases hhead : (lines lf raw).head? with _ | p
  · rw [hhead] at h
    exact absurd rfl h
  · rw [hhead] at h
    exact isToken_firstLine h

theorem lf_notMem_headLines {raw line : Bytes} (h : line ∈ headLines raw) : lf ∉ line := by
  have hlater : line ∈ laterLines raw := (List.takeWhile_sublist _).subset h
  obtain ⟨p, hp, rfl⟩ := List.mem_map.mp hlater
  exact notMem_of_mem_lines (List.mem_of_mem_tail hp)

theorem trimmed_subset (text : Bytes) : trimmed text ⊆ text := by
  have hcr : popCr text ⊆ text := by
    unfold popCr
    split
    · exact List.dropLast_subset text
    · exact List.Subset.refl text
  have hspace : eraseSpace (popCr text) ⊆ popCr text := by
    unfold eraseSpace
    split
    · exact List.tail_subset (popCr text)
    · exact List.Subset.refl (popCr text)
  exact List.Subset.trans hspace hcr

/-- A header line without LF has a name without colon, and neither name nor value has a LF. -/
theorem headerField_regular {line key val : Bytes} (hline : lf ∉ line)
    (h : headerField line = some (key, val)) : colon ∉ key ∧ lf ∉ key ∧ lf ∉ val := by
  rw [headerField_eq] at h
  obtain ⟨⟨key', text⟩, hcut, heq⟩ := Option.map_eq_some_iff.mp h
  cases heq
  obtain ⟨rfl, hcolon⟩ := splitFirst_eq_some_iff.mp hcut
  rw [List.mem_append, List.mem_cons, not_or, not_or] at hline
  obtain ⟨hkey, -, htext⟩ := hline
  exact ⟨hcolon, hkey, fun hmem => htext (trimmed_subset text hmem)⟩

/-- Every entry of the map is regular, because the line that made it is. -/
theorem entry_regular {lim : Limits} {raw : Bytes} {request : HTTPRequest}
    (h : parse lim raw = .ok request) {key val : Bytes}
    (hentry : request.mHeaders.lookup key = some val) : colon ∉ key ∧ lf ∉ key ∧ lf ∉ val := by
  obtain ⟨i, hi, -⟩ := exists_sourceLine h hentry
  obtain ⟨line, hline, hfield⟩ := Option.bind_eq_some_iff.mp hi
  exact headerField_regular (lf_notMem_headLines (List.mem_of_getElem? hline)) hfield

/-- **Every parsed request is normal.** -/
theorem normal_of_parse {lim : Limits} {raw : Bytes} {request : HTTPRequest}
    (h : parse lim raw = .ok request) : Normal request := by
  obtain ⟨hmethod, hpath, hheaders⟩ := fields_of_parse h
  have htoken : request.mPath ≠ [] → IsToken request.mMethod ∧ IsToken request.mPath := by
    rw [hmethod, hpath]
    exact isToken_methodAndPath
  have hlookup : request.mHeaders.lookup contentLength = (lengthText raw).map trimmed := by
    rw [hheaders, lookup_contentLength]
  refine ⟨fun hpath => (htoken hpath).1, fun hpath => (htoken hpath).2,
    fun key val hentry => (entry_regular h hentry).1,
    fun key val hentry => (entry_regular h hentry).2.1,
    fun key val hentry => (entry_regular h hentry).2.2, ?_⟩
  rcases htext : lengthText raw with _ | text
  · rw [htext] at hlookup
    exact .inl ⟨hlookup, mBody_of_none h htext⟩
  · rw [htext] at hlookup
    exact .inr ⟨trimmed text, hlookup, (mBody_of_some h htext).1⟩

/-! ## Writing it back -/

/-- `METHOD SP PATH SP HTTP/1.1`, one `name: value` for each header, an empty line, and the body. -/
def encode (request : HTTPRequest) (order : IterationOrder request.mHeaders) : Bytes :=
  request.mMethod ++ [space] ++ request.mPath ++ [space] ++ ofText "HTTP/1.1" ++ crlf ++
    order.entries.flatMap (fun p => p.1 ++ ofText ": " ++ p.2 ++ crlf) ++ crlf ++ request.mBody

section Encode

variable {request : HTTPRequest} (order : IterationOrder request.mHeaders)

theorem encode_eq_message : encode request order =
    message (request.mMethod ++ space :: (request.mPath ++ space :: ofText "HTTP/1.1"))
      (order.entries.map WireRequest.fieldLine) request.mBody := by
  have hcolon : ofText ": " = [colon, space] := by decide
  simp [encode, message, List.flatMap_map, WireRequest.fieldLine, hcolon]

variable (hnormal : Normal request)

include hnormal

theorem isFieldLine_entries :
    ∀ line ∈ order.entries.map WireRequest.fieldLine, IsFieldLine line := by
  intro line hline
  obtain ⟨⟨key, val⟩, hp, rfl⟩ := List.mem_map.mp hline
  have hentry := order.mem_entries.mp hp
  exact WireRequest.isFieldLine_fieldLine (hnormal.key_lf key val hentry)
    (hnormal.val_lf key val hentry)

/-- The header lines are read back as the entries, in their order. -/
theorem fields_entries :
    (order.entries.map WireRequest.fieldLine).filterMap (fun line => headerField (line ++ [cr])) =
      order.entries := by
  apply filterMap_headerField
  intro p hp
  exact WireRequest.headerField_fieldLine (hnormal.key_colon p.1 p.2 (order.mem_entries.mp hp))

/-- The body is read back, because it is as long as announced. -/
theorem readBody_normal (lim : Limits) :
    readBody lim request.mHeaders request.mBody = .ok request.mBody := by
  rcases hnormal.framed with ⟨hnone, hbody⟩ | ⟨val, hval, hlen⟩
  · rw [readBody_none lim hnone, hbody]
  · have hread := readBody_self lim hval hlen []
    rwa [List.append_nil] at hread

theorem parse_encode_of_normal (lim : Limits) (hpath : request.mPath ≠ []) :
    parse lim (encode request order) = .ok request := by
  have hmethod := hnormal.method_token hpath
  have htoken := hnormal.path_token hpath
  have hversion : lf ∉ ofText "HTTP/1.1" := by decide
  have hfirst := lf_notMem_words hmethod htoken hversion
  have hwords : methodAndPath (encode request order) = (request.mMethod, request.mPath) := by
    rw [encode_eq_message, methodAndPath_words hmethod htoken hversion]
  have hlines := isFieldLine_entries order hnormal
  rw [parse_eq, hwords, encode_eq_message, headFields_message hfirst hlines,
    afterHead_message hfirst hlines, fields_entries order hnormal, order.assign_eq,
    readBody_normal hnormal]
  rfl

end Encode

/-- **Parsing is stable under writing back**: a parsed request that has a path is read back as it is, in
whatever order its headers were written. -/
theorem parse_encode (lim : Limits) (raw : Bytes) (request : HTTPRequest)
    (h : parse lim raw = .ok request) (hpath : request.mPath ≠ [])
    (order : IterationOrder request.mHeaders) :
    parse lim (encode request order) = .ok request :=
  parse_encode_of_normal order (normal_of_parse h) lim hpath

/-- Bare LF, an empty name, a CR inside a value, and an announced byte that is not there. -/
def irregularRequest : Bytes := ofText "  GET\t/a\n: x\r\r\nContent-Length:  +1x"

/-- It is parsed, and read back. -/
theorem parse_encode_irregular : ∃ request,
    parse intLimits irregularRequest = .ok request ∧ request.mPath = ofText "/a" ∧
      ∀ order, parse intLimits (encode request order) = .ok request := by
  have hlast : lastValue contentLength (headFields irregularRequest) = some (ofText " +1x") := by
    decide
  have hwords : methodAndPath irregularRequest = (ofText "GET", ofText "/a") := by decide
  have hone : stoi (ofText " +1x") = .ok (1 : ℕ) := rfl
  obtain ⟨request, h⟩ := exists_parse_of_some intLimits hlast hone
  have hpath : request.mPath = ofText "/a" := by
    rw [(fields_of_parse h).2.1, hwords]
  have hne : request.mPath ≠ [] := by
    rw [hpath]
    decide
  exact ⟨request, h, hpath, parse_encode intLimits irregularRequest request h hne⟩

end LinuxNet.Http.Parser
