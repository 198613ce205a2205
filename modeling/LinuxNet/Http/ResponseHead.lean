/-
# LinuxNet.Http.ResponseHead — how often a field stands in the head of a response

A header map has every name once, and `to_string` writes each of its entries once. But it writes a line
`Content-Length` besides, and `set_body` has put that name into the map: `eachFieldOnce_iff` says for
which sequences of calls every field stands once in the head that is written.
-/
import LinuxNet.Http.Parser.Boundary
import LinuxNet.Http.Parser.Framing

namespace LinuxNet.Http.HTTPResponse

open LinuxNet.Lib LinuxNet.Cpp LinuxNet.Http.Parser

/-- **Every field once**: no two field lines of this text have the same name, and the one named
`Content-Length` announces as many bytes as follow the head. -/
def EachFieldOnce (text : Bytes) : Prop :=
  ((headFields text).map Prod.fst).Nodup ∧
    (headFields text).filter (fun p => decide (p.1 = contentLength)) =
      [(contentLength, natText (afterHead text).length)]

/-- A name without colon, CR and LF, and a value without CR and LF. -/
structure FieldText (key val : Bytes) : Prop where
  key_colon : colon ∉ key
  key_cr : cr ∉ key
  key_lf : lf ∉ key
  val_cr : cr ∉ val
  val_lf : lf ∉ val

theorem fieldText_contentLength (n : ℕ) : FieldText contentLength (natText n) :=
  ⟨by decide, by decide, by decide, notMem_natText (by decide) n, notMem_natText (by decide) n⟩

/-- The calls that put `Content-Length` into the header map. -/
def Call.SetsLength : Call → Prop
  | .setStatus _ => False
  | .setHeader key _ => key = contentLength
  | .setBody _ => True

theorem lookup_apply_eq_none_iff (response : HTTPResponse) (call : Call) :
    (call.apply response).mHeaders.lookup contentLength = none ↔
      response.mHeaders.lookup contentLength = none ∧ ¬ call.SetsLength := by
  cases call with
  | setStatus status =>
      show response.mHeaders.lookup contentLength = none ↔ _ ∧ ¬ False
      simp
  | setHeader key val =>
      show (response.mHeaders.insert key val).lookup contentLength = none ↔ _ ∧ ¬ key = contentLength
      by_cases hkey : key = contentLength
      · subst hkey
        rw [Finmap.lookup_insert]
        simp
      · rw [Finmap.lookup_insert_of_ne _ (Ne.symm hkey)]
        simp [hkey]
  | setBody body =>
      show (response.mHeaders.insert contentLength (natText body.length)).lookup contentLength = none ↔
        _ ∧ ¬ True
      rw [Finmap.lookup_insert]
      simp

/-- **When the map has no `Content-Length`**: no call has put one there. -/
theorem lookup_applyAll_eq_none_iff (response : HTTPResponse) (calls : List Call) :
    (response.applyAll calls).mHeaders.lookup contentLength = none ↔
      response.mHeaders.lookup contentLength = none ∧ ∀ call ∈ calls, ¬ call.SetsLength := by
  induction calls using List.reverseRecOn with
  | nil => simp [applyAll]
  | append_singleton calls call ih =>
      rw [applyAll_concat, lookup_apply_eq_none_iff, ih, and_assoc]
      simp only [List.forall_mem_append, List.forall_mem_singleton]

/-! ## The fields that are written -/

section Fields

variable (response : HTTPResponse)
  (htext : ∀ key val, response.mHeaders.lookup key = some val → FieldText key val)
  (order : IterationOrder response.mHeaders)

theorem lf_notMem_statusLine (status : Int) : lf ∉ statusLine status :=
  lf_notMem_words isToken_version (isToken_intText status) (lf_notMem_codeToMessage status)

include htext

theorem isFieldLine_toString : ∀ line ∈ responseLines order.entries response.mBody.length,
    IsFieldLine line := by
  intro line hline
  rcases List.mem_append.mp hline with hline | hline
  · obtain ⟨p, hp, rfl⟩ := List.mem_map.mp hline
    have hp := htext p.1 p.2 (order.mem_entries.mp hp)
    exact isFieldLine_colon hp.key_lf hp.val_lf
  · obtain rfl := List.mem_singleton.mp hline
    have hn := fieldText_contentLength response.mBody.length
    exact WireRequest.isFieldLine_fieldLine (p := (contentLength, _)) hn.key_lf hn.val_lf

/-- **The fields of the head**: the entries of the map in their order, and then the length. -/
theorem headFields_toString : headFields (response.toString order) =
    order.entries.map (fun p => (p.1, eraseSpace p.2)) ++
      [(contentLength, natText response.mBody.length)] := by
  have hfield : ∀ p ∈ order.entries,
      headerField (p.1 ++ colon :: p.2 ++ [cr]) = some (p.1, eraseSpace p.2) := by
    intro p hp
    exact headerField_colon (htext p.1 p.2 (order.mem_entries.mp hp)).key_colon p.2
  have hlength : headerField (contentLength ++ colon :: space :: natText response.mBody.length ++ [cr]) =
      some (contentLength, natText response.mBody.length) :=
    WireRequest.headerField_fieldLine (p := (contentLength, _))
      (fieldText_contentLength response.mBody.length).key_colon
  rw [toString_eq_message, headFields_message (lf_notMem_statusLine _)
    (isFieldLine_toString response htext order), responseLines, List.filterMap_append,
    List.filterMap_map, List.filterMap_cons_some (f := fun line => headerField (line ++ [cr])) hlength]
  show order.entries.filterMap (fun p => headerField (p.1 ++ colon :: p.2 ++ [cr])) ++ _ = _
  rw [List.filterMap_congr hfield, List.filterMap_eq_map']
  rfl

theorem afterHead_toString : afterHead (response.toString order) = response.mBody := by
  rw [toString_eq_message, afterHead_message (lf_notMem_statusLine _)
    (isFieldLine_toString response htext order)]

/-- Every field stands once when the map has no `Content-Length`. -/
theorem eachFieldOnce_toString_iff : EachFieldOnce (response.toString order) ↔
    response.mHeaders.lookup contentLength = none := by
  have hnames : ((headFields (response.toString order)).map Prod.fst) =
      order.entries.map Prod.fst ++ [contentLength] := by
    rw [headFields_toString response htext order, List.map_append, List.map_map]
    rfl
  unfold EachFieldOnce
  rw [hnames]
  constructor
  · rintro ⟨hnodup, -⟩
    rw [Option.eq_none_iff_forall_ne_some]
    intro val hval
    -- the map's own entry is written before the line for the length
    have hkey : contentLength ∈ order.entries.map Prod.fst :=
      List.mem_map.mpr ⟨_, order.mem_entries.mpr hval, rfl⟩
    exact List.disjoint_of_nodup_append hnodup hkey List.mem_cons_self
  · intro hnone
    -- the names before that line are those of the map, each of them once
    have hout : ∀ p ∈ order.entries, p.1 ≠ contentLength := by
      intro p hp heq
      have hval := order.mem_entries.mp hp
      rw [heq, hnone] at hval
      cases hval
    constructor
    · refine List.Nodup.append order.nodup_keys (List.nodup_singleton _) ?_
      intro name hname hlength
      obtain ⟨p, hp, rfl⟩ := List.mem_map.mp hname
      exact hout p hp (List.mem_singleton.mp hlength)
    · have hrest : (order.entries.map fun p => (p.1, eraseSpace p.2)).filter
          (fun p => decide (p.1 = contentLength)) = [] := by
        rw [List.filter_eq_nil_iff]
        intro q hq
        obtain ⟨p, hp, rfl⟩ := List.mem_map.mp hq
        simpa using hout p hp
      rw [headFields_toString response htext order, afterHead_toString response htext order,
        List.filter_append, hrest, List.filter_cons_of_pos (by simp)]
      rfl

end Fields

/-- **When every field stands once in the head**: exactly when no call was a `set_body`, and none set
`Content-Length`. -/
theorem eachFieldOnce_iff (uninitialised : Int) (calls : List Call)
    (htext : ∀ key val, Call.setHeader key val ∈ calls → FieldText key val)
    (order : IterationOrder ((construct uninitialised).applyAll calls).mHeaders) :
    EachFieldOnce (((construct uninitialised).applyAll calls).toString order) ↔
      ∀ call ∈ calls, ¬ call.SetsLength := by
  have hstart : (construct uninitialised).mHeaders.lookup contentLength = none := Finmap.lookup_empty _
  have hall := headers_applyAll (construct uninitialised) htext fieldText_contentLength
    (by intro key val h; cases h)
  rw [eachFieldOnce_toString_iff _ hall, lookup_applyAll_eq_none_iff]
  simp [hstart]

/-- A status and a header. -/
def plainCalls : List Call := [.setStatus 404, .setHeader (ofText "Server") (ofText " tiny")]

/-- They are written with one length. -/
theorem eachFieldOnce_iff_plain :
    ∃ order, EachFieldOnce (((construct 0).applyAll plainCalls).toString order) := by
  obtain ⟨order⟩ := IterationOrder.nonempty ((construct 0).applyAll plainCalls).mHeaders
  refine ⟨order, (eachFieldOnce_iff 0 plainCalls ?_ order).mpr ?_⟩
  · intro key val h
    obtain ⟨rfl, rfl⟩ : key = ofText "Server" ∧ val = ofText " tiny" := by simpa [plainCalls] using h
    constructor <;> decide
  · intro call hcall
    rcases List.mem_cons.mp hcall with rfl | hcall
    · exact not_false
    · obtain rfl := List.mem_singleton.mp hcall
      show ofText "Server" ≠ contentLength
      decide

/-- **A response with a body has its length twice.** -/
theorem field_written_twice :
    ¬ ∀ (uninitialised : Int) (calls : List Call)
      (order : IterationOrder ((construct uninitialised).applyAll calls).mHeaders),
      (∀ key val, Call.setHeader key val ∈ calls → FieldText key val) →
      EachFieldOnce (((construct uninitialised).applyAll calls).toString order) := by
  intro hall
  let order : IterationOrder ((construct 0).applyAll [.setBody (ofText "hi")]).mHeaders :=
    ⟨[(contentLength, ofText "2")], by decide⟩
  have honce := hall 0 [.setBody (ofText "hi")] order (by intro key val h; simp at h)
  -- one line from the entry `set_body` makes, one from `to_string`
  have hnames : (headFields (((construct 0).applyAll [.setBody (ofText "hi")]).toString order)).map
      Prod.fst = [contentLength, contentLength] := by
    show (headFields (ofText "HTTP/1.1 0 Unknown\r\nContent-Length:2\r\nContent-Length: 2\r\n\r\nhi")).map
      Prod.fst = _
    decide
  have hnodup := honce.1
  rw [hnames] at hnodup
  exact absurd hnodup (by decide)

end LinuxNet.Http.HTTPResponse
