/-
# LinuxNet.Http.Parser.Framing — the parser reads the server's own responses

`HTTPResponse::to_string` and `HTTPParser::parse` were written apart. They agree on framing all the
same: a response is a message, its status stands where a request has its path, and of the one or two
`Content-Length` lines it has the last is the one `to_string` wrote, which is the length of the body
(`parse_toString`).
-/
import LinuxNet.Http.Parser.Decode
import LinuxNet.Http.Response

namespace LinuxNet.Http.Parser

open LinuxNet.Lib LinuxNet.Cpp HTTPResponse

/-- A header `to_string` can write: `key` ends at the colon, and `val` is on one line and does not begin
with the space the parser would take off. -/
structure HeaderWritable (key val : Bytes) : Prop where
  key_colon : colon ∉ key
  key_lf : lf ∉ key
  val_lf : lf ∉ val
  val_space : val.head? ≠ some space

theorem eraseSpace_of_ne {val : Bytes} (h : val.head? ≠ some space) : eraseSpace val = val := if_neg h

theorem notMem_natText {b : UInt8} (hb : isDigit b = false) (n : ℕ) : b ∉ natText n := by
  intro hmem
  rw [isDigit_of_mem_natText hmem] at hb
  cases hb

theorem headerWritable_contentLength (n : ℕ) : HeaderWritable contentLength (natText n) := by
  refine ⟨by decide, by decide, notMem_natText (by decide) n, ?_⟩
  intro h
  exact notMem_natText (by decide) n (List.mem_of_mem_head? h)

theorem isToken_intText (n : Int) : IsToken (intText n) := by
  refine ⟨intText_ne_nil n, fun b hb => ?_⟩
  rcases mem_intText hb with rfl | hdigit
  · decide
  · exact not_isSpace_of_isDigit hdigit

/-! ## A response as a message -/

/-- The field lines of a response whose headers are read out as `entries`. -/
def responseLines (entries : List (Bytes × Bytes)) (n : ℕ) : List Bytes :=
  entries.map (fun p => p.1 ++ colon :: p.2) ++ [contentLength ++ colon :: space :: natText n]

/-- `HTTP/1.1 status text`. -/
def statusLine (status : Int) : Bytes :=
  ofText "HTTP/1.1" ++ space :: (intText status ++ space :: codeToMessage status)

theorem toString_eq_message (response : HTTPResponse) (order : IterationOrder response.mHeaders) :
    response.toString order = message (statusLine response.mStatus)
      (responseLines order.entries response.mBody.length) response.mBody := by
  have hversion : ofText "HTTP/1.1 " = ofText "HTTP/1.1" ++ [space] := by decide
  have hspace : ofText " " = [space] := by decide
  have hlength : ofText "Content-Length: " = contentLength ++ [colon, space] := by decide
  have hlines : order.entries.flatMap headerLine =
      (order.entries.map fun p => p.1 ++ colon :: p.2).flatMap (· ++ crlf) := by
    rw [List.flatMap_map]
    rfl
  simp [HTTPResponse.toString, message, statusLine, responseLines, hversion, hspace, hlength, hlines]

theorem lf_notMem_codeToMessage (status : Int) : lf ∉ codeToMessage status := by
  unfold codeToMessage
  split
  · decide
  · split
    · decide
    · split <;> decide

theorem isToken_version : IsToken (ofText "HTTP/1.1") := by decide

theorem isFieldLine_responseLines {entries : List (Bytes × Bytes)}
    (h : ∀ p ∈ entries, HeaderWritable p.1 p.2) (n : ℕ) :
    ∀ line ∈ responseLines entries n, IsFieldLine line := by
  intro line hline
  rcases List.mem_append.mp hline with hline | hline
  · obtain ⟨p, hp, rfl⟩ := List.mem_map.mp hline
    exact isFieldLine_colon (h p hp).key_lf (h p hp).val_lf
  · obtain rfl := List.mem_singleton.mp hline
    have hn := headerWritable_contentLength n
    exact WireRequest.isFieldLine_fieldLine (p := (contentLength, natText n)) hn.key_lf hn.val_lf

/-- The fields of a response are its headers in the order of the map, and then the length. -/
theorem fields_responseLines {entries : List (Bytes × Bytes)}
    (h : ∀ p ∈ entries, HeaderWritable p.1 p.2) (n : ℕ) :
    (responseLines entries n).filterMap (fun line => headerField (line ++ [cr])) =
      entries ++ [(contentLength, natText n)] := by
  have hentries : ∀ p ∈ entries, headerField (p.1 ++ colon :: p.2 ++ [cr]) = some p := by
    intro p hp
    rw [headerField_colon (h p hp).key_colon, eraseSpace_of_ne (h p hp).val_space]
  have hlast : headerField (contentLength ++ colon :: space :: natText n ++ [cr]) =
      some (contentLength, natText n) :=
    WireRequest.headerField_fieldLine (p := (contentLength, natText n))
      (headerWritable_contentLength n).key_colon
  rw [responseLines, List.filterMap_append, filterMap_headerField hentries, List.filterMap_cons, hlast]
  rfl

/-! ## Reading it back -/

/-- A response whose headers can be written is read back, in whatever order its map is read out. -/
theorem parse_response (lim : Limits) (response : HTTPResponse)
    (hwritable : ∀ key val, response.mHeaders.lookup key = some val → HeaderWritable key val)
    (hlen : response.mBody.length ≤ 2 ^ 31 - 1) (order : IterationOrder response.mHeaders) :
    parse lim (response.toString order) = .ok
      { mMethod := ofText "HTTP/1.1"
        mPath := intText response.mStatus
        mHeaders := response.mHeaders.insert contentLength (natText response.mBody.length)
        mBody := response.mBody } := by
  set n := response.mBody.length with hn
  have hheaders : ∀ p ∈ order.entries, HeaderWritable p.1 p.2 := fun p hp =>
    hwritable p.1 p.2 (order.mem_entries.mp hp)
  have hfield := isFieldLine_responseLines hheaders n
  have hstatus := isToken_intText response.mStatus
  have hmessage := lf_notMem_codeToMessage response.mStatus
  have hfirst : lf ∉ statusLine response.mStatus := lf_notMem_words isToken_version hstatus hmessage
  -- the map the parser builds is the response's map and then the last `Content-Length`
  have hassign : assign ∅ (order.entries ++ [(contentLength, natText n)]) =
      response.mHeaders.insert contentLength (natText n) := by
    have happend : assign ∅ (order.entries ++ [(contentLength, natText n)]) =
        (assign ∅ order.entries).insert contentLength (natText n) := by
      simp [assign]
    rw [happend, order.assign_eq]
  have hread : readBody lim (response.mHeaders.insert contentLength (natText n)) response.mBody =
      .ok response.mBody := by
    have hstoi : stoi (natText n) = .ok n := stoi_natText (by omega)
    have hself := readBody_self lim (Finmap.lookup_insert response.mHeaders) hstoi []
    rwa [List.append_nil] at hself
  have hmethod : methodAndPath (response.toString order) =
      (ofText "HTTP/1.1", intText response.mStatus) := by
    rw [toString_eq_message, statusLine, methodAndPath_words isToken_version hstatus hmessage]
  rw [parse_eq, hmethod, toString_eq_message, headFields_message hfirst hfield,
    afterHead_message hfirst hfield, fields_responseLines hheaders, hassign, hread]
  rfl

/-- **The parser reads back what `to_string` writes**: version and status as method and path, the last
body that was set, and the headers with `Content-Length` set to its length; every other header has the value
that was last given to it. -/
theorem parse_toString (lim : Limits) (uninitialised : Int) (calls : List Call) (status : Int)
    (hstatus : lastStatus calls = some status)
    (hwritable : ∀ key val, Call.setHeader key val ∈ calls → HeaderWritable key val)
    (hlen : ((lastBody calls).getD []).length ≤ 2 ^ 31 - 1)
    (order : IterationOrder ((construct uninitialised).applyAll calls).mHeaders) :
    ∃ request,
      parse lim (((construct uninitialised).applyAll calls).toString order) = .ok request ∧
      request.mMethod = ofText "HTTP/1.1" ∧ request.mPath = intText status ∧
      request.mBody = (lastBody calls).getD [] ∧
      request.mHeaders = ((construct uninitialised).applyAll calls).mHeaders.insert contentLength
        (natText ((lastBody calls).getD []).length) ∧
      ∀ key, key ≠ contentLength → request.mHeaders.lookup key = lastHeader key calls := by
  have hst : ((construct uninitialised).applyAll calls).mStatus = status := by
    rw [mStatus_applyAll, hstatus, Option.getD_some]
  have hbody : ((construct uninitialised).applyAll calls).mBody = (lastBody calls).getD [] :=
    mBody_applyAll _ calls
  have hheaders := headers_applyAll (construct uninitialised) hwritable
    headerWritable_contentLength (by intro key val h; cases h)
  rw [← hbody] at hlen ⊢
  refine ⟨_, parse_response lim _ hheaders hlen order, rfl, by rw [hst], rfl, rfl, fun key hkey => ?_⟩
  exact (Finmap.lookup_insert_of_ne _ hkey).trans ((lookup_applyAll _ key calls).trans (Option.or_none))

/-- A status, a body, a `Content-Length` that is not its length, a header that is set twice, and another
status. -/
def sampleCalls : List Call :=
  [.setStatus 404, .setHeader (ofText "Server") (ofText "old"), .setBody (ofText "gone"),
    .setHeader contentLength (ofText "7"), .setHeader (ofText "Server") (ofText "new"), .setStatus 200]

/-- Their header map has two entries. -/
def sampleOrder : IterationOrder ((construct 0).applyAll sampleCalls).mHeaders where
  entries := [(contentLength, ofText "7"), (ofText "Server", ofText "new")]
  perm := by decide

/-- They are read back with the length of the body. -/
theorem parse_toString_sampleCalls : ∃ request,
    parse intLimits (((construct 0).applyAll sampleCalls).toString sampleOrder) =
        .ok request ∧
      request.mMethod = ofText "HTTP/1.1" ∧ request.mPath = intText 200 ∧
      request.mBody = ofText "gone" ∧
      request.mHeaders = ((construct 0).applyAll sampleCalls).mHeaders.insert contentLength
        (natText 4) ∧
      ∀ key, key ≠ contentLength → request.mHeaders.lookup key = lastHeader key sampleCalls := by
  refine parse_toString _ 0 sampleCalls 200 rfl ?_ (by decide) sampleOrder
  intro key val h
  obtain ⟨rfl, rfl⟩ | ⟨rfl, rfl⟩ | ⟨rfl, rfl⟩ : key = ofText "Server" ∧ val = ofText "old" ∨
      key = contentLength ∧ val = ofText "7" ∨ key = ofText "Server" ∧ val = ofText "new" := by
    simpa [sampleCalls] using h
  all_goals constructor <;> decide

end LinuxNet.Http.Parser
