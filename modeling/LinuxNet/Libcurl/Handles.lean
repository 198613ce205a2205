/-
# LinuxNet.Libcurl.Handles — what the programs do with the handles of libcurl

`curl_multi_init` hands out a multi handle and `curl_easy_init` an easy handle; both may fail, and none of the
programs but `curl_multithreaded.cpp` and `basic_curl.cpp` looks at it, so a handle can be NULL in every call.
An easy handle is cleaned up when nothing is to be transferred with it any more, after it was taken out of its
multi handle, and a multi handle when there is nothing in it. What is written to the files is the subject of
`LinuxNet.Libcurl.Programs`.

`curl_multi_handle.cpp` and `basic_curl.cpp` do all of this in order, whatever fails (`cleans_up`).
`perform_request` of `curl_multithreaded.cpp` never cleans up: its threads do not disturb each other, but every
handle that was made is left when the last of them has returned (`handles_left`).
-/
import LinuxNet.Lib.Threads
import LinuxNet.Libcurl.Filename

namespace LinuxNet.Libcurl.Handles

open LinuxNet.Lib LinuxNet.Lib.Calls LinuxNet.Lib.FdLedger LinuxNet.Cpp

/-! ## The calls -/

/-- What is handed out. That an easy handle is in the multi handle is a name of its own. -/
inductive Resource where
  | multi (name : ℕ)
  | easy (name : ℕ)
  | added (easy : ℕ)
  | file (name : ℕ)
  deriving DecidableEq, Repr

/-- The options that are set. -/
inductive CurlOpt where
  | url (text : Bytes)
  | followLocation
  | writeFunction
  | writeData
  | noProgress
  | progressFunction
  | progressData
  deriving DecidableEq, Repr

/-- A call with its arguments; a handle is `none` when it is NULL. -/
inductive Call where
  | globalInit
  | globalCleanup
  | multiInit
  | multiAddHandle (curl_multi easy_handle : Option ℕ)
  | multiPerform (curl_multi : Option ℕ)
  | multiWait (curl_multi : Option ℕ)
  | multiRemoveHandle (curl_multi easy_handle : Option ℕ)
  | multiCleanup (curl_multi : Option ℕ)
  | easyInit
  | easySetopt (curl : Option ℕ) (option : CurlOpt)
  | easyPerform (curl : Option ℕ)
  | easyCleanup (curl : Option ℕ)
  | openFile (filename : Bytes)
  | writeFile (file : ℕ)
  | closeFile (file : ℕ)
  deriving DecidableEq, Repr

/-- What a call is answered with: whether the code is `CURLM_OK` or `CURLE_OK`, for `curl_multi_perform` with
`running_status`, and for `curl_multi_remove_handle` whether it took the handle out. -/
def Call.Answer : Call → Type
  | .multiInit | .easyInit | .openFile _ => Option ℕ
  | .multiAddHandle _ _ | .multiWait _ | .multiRemoveHandle _ _ | .easyPerform _ => Bool
  | .multiPerform _ => Bool × Int
  | .globalInit | .globalCleanup | .multiCleanup _ | .easySetopt _ _ | .easyCleanup _ | .writeFile _
  | .closeFile _ => Unit

/-- A program that uses libcurl. -/
abbrev CurlProgram : Type → Type := Calls Call Call.Answer

/-- A call and its answer. -/
abbrev Answered : Type := Done Call Call.Answer

def globalInit : CurlProgram Unit := perform Call.globalInit
def globalCleanup : CurlProgram Unit := perform Call.globalCleanup
def multiInit : CurlProgram (Option ℕ) := perform Call.multiInit
def multiAddHandle (curl_multi easy_handle : Option ℕ) : CurlProgram Bool :=
  perform (Call.multiAddHandle curl_multi easy_handle)
def multiPerform (curl_multi : Option ℕ) : CurlProgram (Bool × Int) := perform (Call.multiPerform curl_multi)
def multiWait (curl_multi : Option ℕ) : CurlProgram Bool := perform (Call.multiWait curl_multi)
def multiRemoveHandle (curl_multi easy_handle : Option ℕ) : CurlProgram Bool :=
  perform (Call.multiRemoveHandle curl_multi easy_handle)
def multiCleanup (curl_multi : Option ℕ) : CurlProgram Unit := perform (Call.multiCleanup curl_multi)
def easyInit : CurlProgram (Option ℕ) := perform Call.easyInit
def easySetopt (curl : Option ℕ) (option : CurlOpt) : CurlProgram Unit := perform (Call.easySetopt curl option)
def easyPerform (curl : Option ℕ) : CurlProgram Bool := perform (Call.easyPerform curl)
def easyCleanup (curl : Option ℕ) : CurlProgram Unit := perform (Call.easyCleanup curl)
def openFile (filename : Bytes) : CurlProgram (Option ℕ) := perform (Call.openFile filename)
def writeFile (file : ℕ) : CurlProgram Unit := perform (Call.writeFile file)
def closeFile (file : ℕ) : CurlProgram Unit := perform (Call.closeFile file)

/-! ## The programs -/

/-- `std::ofstream file(filename);` and what is done if it is open. -/
def saveAs (filename : Bytes) : CurlProgram Unit := do
  let some file ← openFile (cString filename) | return ()
  writeFile file
  closeFile file

/-- `CurlEasyHandle`, without the data. -/
structure CurlEasyHandle where
  easy_handle : Option ℕ
  url : StdString

/-- The body of the first loop of `main` in `curl_multi_handle.cpp`. -/
def setUp (curl_multi : Option ℕ) (url : StdString) : CurlProgram CurlEasyHandle := do
  let easy_handle ← easyInit
  easySetopt easy_handle (.url (cString url.bytes))
  easySetopt easy_handle .writeFunction
  easySetopt easy_handle .writeData
  easySetopt easy_handle .noProgress
  easySetopt easy_handle .progressFunction
  easySetopt easy_handle .progressData
  let _rc ← multiAddHandle curl_multi easy_handle
  return ⟨easy_handle, url⟩

/-- The first loop. -/
def setUpAll (curl_multi : Option ℕ) : List StdString → CurlProgram (List CurlEasyHandle)
  | [] => pure []
  | url :: urls => do
    let handle ← setUp curl_multi url
    let easy_handles ← setUpAll curl_multi urls
    return handle :: easy_handles

/-- A round of the loop in the middle. -/
def performs (curl_multi : Option ℕ) (_ : Unit) : CurlProgram (Unit ⊕ Unit) := do
  let (rc, running_status) ← multiPerform curl_multi
  if rc = false then return .inr ()
  let rc ← multiWait curl_multi
  if rc = false then return .inr ()
  return if running_status ≠ 0 then .inl () else .inr ()

/-- The body of the last loop. -/
def save (curl_multi : Option ℕ) (handle : CurlEasyHandle) : CurlProgram (Except Exn Unit) :=
  match filename handle.url.bytes with
  | .error e => pure (.error e)
  | .ok filename => do
    saveAs filename
    let _rc ← multiRemoveHandle curl_multi handle.easy_handle
    easyCleanup handle.easy_handle
    return .ok ()

/-- The last loop. -/
def saveAll (curl_multi : Option ℕ) : List CurlEasyHandle → CurlProgram (Except Exn Unit)
  | [] => pure (.ok ())
  | handle :: easy_handles => do
    match ← save curl_multi handle with
    | .error e => return .error e
    | .ok () => saveAll curl_multi easy_handles

/-- `main` of `curl_multi_handle.cpp`; `n` is the number of rounds after which it is stopped. -/
def multiHandle (urls : List StdString) (n : ℕ) : CurlProgram (Option (Except Exn Unit)) := do
  globalInit
  let curl_multi ← multiInit
  let easy_handles ← setUpAll curl_multi urls
  let _rc ← multiPerform curl_multi
  let some () ← loop (performs curl_multi) n () | return none
  match ← saveAll curl_multi easy_handles with
  | .error e => return some (.error e)
  | .ok () =>
    multiCleanup curl_multi
    globalCleanup
    return some (.ok ())

/-- `main` of `basic_curl.cpp`, from `curl_easy_init` on. -/
def basic : CurlProgram Unit := do
  let some curl ← easyInit | return ()
  easySetopt curl (.url (ofText "http://httpstat.us/200"))
  easySetopt curl .writeFunction
  easySetopt curl .writeData
  let _res ← easyPerform curl
  easyCleanup curl

/-- `perform_request` of `curl_multithreaded.cpp`. -/
def performRequest (url : StdString) : CurlProgram (Except Exn Unit) := do
  let some curl ← easyInit | return .ok ()
  easySetopt curl (.url (cString url.bytes))
  easySetopt curl .followLocation
  easySetopt curl .writeFunction
  easySetopt curl .writeData
  easySetopt curl .noProgress
  easySetopt curl .progressFunction
  easySetopt curl .progressData
  let res ← easyPerform curl
  if res = false then return .ok ()
  match filename url.bytes with
  | .error e => return .error e
  | .ok filename =>
    saveAs filename
    return .ok ()

/-! ## What is handed out and taken back -/

/-- What a call does to the names. -/
def op : Answered → Option (FdOp Resource)
  | ⟨.multiInit, r⟩ => (show Option ℕ from r).map fun m => .opened (.multi m)
  | ⟨.easyInit, r⟩ => (show Option ℕ from r).map fun e => .opened (.easy e)
  | ⟨.openFile _, r⟩ => (show Option ℕ from r).map fun f => .opened (.file f)
  | ⟨.multiAddHandle (some _) (some e), r⟩ => if (show Bool from r) then some (.opened (.added e)) else none
  | ⟨.multiRemoveHandle _ (some e), r⟩ => if (show Bool from r) then some (.closed (.added e)) else none
  | ⟨.multiCleanup (some m), _⟩ => some (.closed (.multi m))
  | ⟨.easyCleanup (some e), _⟩ => some (.closed (.easy e))
  | ⟨.closeFile f, _⟩ => some (.closed (.file f))
  | _ => none

/-- What the calls do that do something to a name. -/
inductive Does : Answered → FdOp Resource → Prop
  | multiInit (m : ℕ) : Does ⟨.multiInit, some m⟩ (.opened (.multi m))
  | easyInit (e : ℕ) : Does ⟨.easyInit, some e⟩ (.opened (.easy e))
  | openFile (filename : Bytes) (f : ℕ) : Does ⟨.openFile filename, some f⟩ (.opened (.file f))
  | multiAddHandle (m e : ℕ) : Does ⟨.multiAddHandle (some m) (some e), true⟩ (.opened (.added e))
  | multiRemoveHandle (curl_multi : Option ℕ) (e : ℕ) :
      Does ⟨.multiRemoveHandle curl_multi (some e), true⟩ (.closed (.added e))
  | multiCleanup (m : ℕ) : Does ⟨.multiCleanup (some m), ()⟩ (.closed (.multi m))
  | easyCleanup (e : ℕ) : Does ⟨.easyCleanup (some e), ()⟩ (.closed (.easy e))
  | closeFile (f : ℕ) : Does ⟨.closeFile f, ()⟩ (.closed (.file f))

theorem does_of_op {d : Answered} {o : FdOp Resource} (h : op d = some o) : Does d o := by
  unfold op at h
  split at h
  · obtain ⟨m, rfl, rfl⟩ := Option.map_eq_some_iff.mp h
    exact .multiInit m
  · obtain ⟨e, rfl, rfl⟩ := Option.map_eq_some_iff.mp h
    exact .easyInit e
  · obtain ⟨f, rfl, rfl⟩ := Option.map_eq_some_iff.mp h
    exact .openFile _ f
  · obtain ⟨rfl, hadded⟩ := Option.ite_none_right_eq_some.mp h
    cases hadded
    exact .multiAddHandle _ _
  · obtain ⟨rfl, hremoved⟩ := Option.ite_none_right_eq_some.mp h
    cases hremoved
    exact .multiRemoveHandle _ _
  · cases h
    exact .multiCleanup _
  · cases h
    exact .easyCleanup _
  · cases h
    exact .closeFile _
  · cases h

/-- The names a call needs: a handle that is NULL is none. -/
def Call.uses : Call → List Resource
  | .multiAddHandle curl_multi easy_handle | .multiRemoveHandle curl_multi easy_handle =>
    curl_multi.toList.map .multi ++ easy_handle.toList.map .easy
  | .multiPerform curl_multi | .multiWait curl_multi | .multiCleanup curl_multi => curl_multi.toList.map .multi
  | .easySetopt curl _ | .easyPerform curl | .easyCleanup curl => curl.toList.map .easy
  | .writeFile file | .closeFile file => [.file file]
  | .globalInit | .globalCleanup | .multiInit | .easyInit | .openFile _ => []

/-- What a call needs is open. -/
def Call.Needs (c : Call) (opened : Finset Resource) : Prop := ∀ n ∈ c.uses, n ∈ opened

/-- An easy handle is not in the multi handle when it is cleaned up, and nothing is when the multi handle is. -/
def Call.Detached : Call → Finset Resource → Prop
  | .easyCleanup (some e), opened => .added e ∉ opened
  | .multiCleanup _, opened => ∀ e, .added e ∉ opened
  | _, _ => True

/-- **A call is in order**: with handles and files that are open, and nothing is cleaned up too early. -/
def Call.Proper (c : Call) (opened : Finset Resource) : Prop := c.Needs opened ∧ c.Detached opened

/-- What is assumed of an answer: what is handed out is not in use, and `curl_multi_remove_handle` takes a
handle out exactly if it is in. -/
def Documented (trace : List Answered) (d : Answered) : Prop :=
  HandsOutFresh op trace d ∧ match d with
    | ⟨.multiRemoveHandle _ (some e), r⟩ => (show Bool from r) = true ↔ .added e ∈ openFds ∅ (history op trace)
    | _ => True

instance (trace : List Answered) (d : Answered) : Decidable (Documented trace d) := by
  unfold Documented
  have hsecond : Decidable (match d with
    | ⟨.multiRemoveHandle _ (some e), r⟩ => (show Bool from r) = true ↔ .added e ∈ openFds ∅ (history op trace)
    | _ => True) := by
    split
    · exact inferInstance
    · exact instDecidableTrue
  exact instDecidableAnd

theorem needs_of_uses_nil {c : Call} (huses : c.uses = []) (opened : Finset Resource) : c.Needs opened := by
  intro n hn
  rw [huses] at hn
  cases hn

/-! ## Files -/

section Parts

variable {may : Call → Finset Resource → Prop} {ok : List Answered → Answered → Prop} {held : Finset Resource}

/-- A file that was opened is closed. -/
theorem retains_saveAs (hfresh : ∀ t d, ok t d → HandsOutFresh op t d)
    (hopen : ∀ filename, may (.openFile filename) held)
    (hwrite : ∀ f, may (.writeFile f) (insert (.file f) held))
    (hclose : ∀ f, may (.closeFile f) (insert (.file f) held)) (filename : Bytes) :
    Retains ok op may held (saveAs filename) := by
  intro trace h
  refine wp_bind.mpr (wp_makes .file (fun r => ⟨.openFile (cString filename), r⟩) .rfl (hfresh _) (fun _ => rfl)
    h (fun _ => hopen _) (fun h => h) fun file hnew h => ?_)
  refine wp_bind.mpr (wp_plain h (fun _ => rfl) (hwrite file) fun _ h => ?_)
  exact wp_takesBack h hnew (fun _ => rfl) (hclose file) fun _ h => h

end Parts

/-! ## `curl_multi_handle.cpp` -/

section MultiHandle

variable {held : Finset Resource} {trace : List Answered} {curl_multi : Option ℕ} {handles : List ℕ} {e : ℕ}
  {c : Call}

/-- **`Stock curl_multi handles held`** — what there is: the multi handle, the easy handles in the list, and
some of them are in the multi handle. -/
structure Stock (curl_multi : Option ℕ) (handles : List ℕ) (held : Finset Resource) : Prop where
  nodup : handles.Nodup
  multi_mem : ∀ m, .multi m ∈ held ↔ curl_multi = some m
  easy_mem : ∀ e, .easy e ∈ held ↔ e ∈ handles
  added_mem : ∀ e, .added e ∈ held → e ∈ handles
  no_file : ∀ f, .file f ∉ held

/-- A handle that was made is a new one. -/
theorem Stock.made (h : Stock curl_multi handles held) (hnew : .easy e ∉ held) :
    Stock curl_multi (handles ++ [e]) (insert (.easy e) held) where
  nodup := by
    refine List.nodup_append.mpr ⟨h.nodup, List.nodup_singleton e, ?_⟩
    rintro a ha b hb rfl
    rw [List.mem_singleton] at hb
    subst hb
    exact hnew ((h.easy_mem a).mpr ha)
  multi_mem m := by simp [h.multi_mem m]
  easy_mem e' := by simp [h.easy_mem e', or_comm]
  added_mem e' he' := by
    have hin : .added e' ∈ held := by simpa using he'
    exact List.mem_append_left _ (h.added_mem e' hin)
  no_file f := by simp [h.no_file f]

/-- A handle is put into the multi handle. -/
theorem Stock.add (h : Stock curl_multi handles held) (he : e ∈ handles) :
    Stock curl_multi handles (insert (.added e) held) where
  nodup := h.nodup
  multi_mem m := by simp [h.multi_mem m]
  easy_mem e' := by simp [h.easy_mem e']
  added_mem e' he' := by
    rcases Finset.mem_insert.mp he' with heq | hin
    · cases heq
      exact he
    · exact h.added_mem e' hin
  no_file f := by simp [h.no_file f]

/-- It is taken out. -/
theorem Stock.remove (h : Stock curl_multi handles held) :
    Stock curl_multi handles (held.erase (.added e)) where
  nodup := h.nodup
  multi_mem m := by simp [h.multi_mem m]
  easy_mem e' := by simp [h.easy_mem e']
  added_mem e' he' := h.added_mem e' (Finset.mem_of_mem_erase he')
  no_file f := by simp [h.no_file f]

/-- And cleaned up. -/
theorem Stock.cleanUp (h : Stock curl_multi (e :: handles) held) (hout : .added e ∉ held) :
    Stock curl_multi handles (held.erase (.easy e)) where
  nodup := (List.nodup_cons.mp h.nodup).2
  multi_mem m := by simp [h.multi_mem m]
  easy_mem e' := by
    have hne := (List.nodup_cons.mp h.nodup).1
    rw [Finset.mem_erase, h.easy_mem e', List.mem_cons]
    constructor
    · rintro ⟨hother, rfl | hin⟩
      · exact absurd rfl hother
      · exact hin
    · intro hin
      refine ⟨?_, .inr hin⟩
      rintro heq
      cases heq
      exact hne hin
  added_mem e' he' := by
    have hin := Finset.mem_of_mem_erase he'
    rcases List.mem_cons.mp (h.added_mem e' hin) with rfl | hrest
    · exact absurd hin hout
    · exact hrest
  no_file f := by simp [h.no_file f]

/-- Before the first easy handle. -/
theorem stock_nil (curl_multi : Option ℕ) : Stock curl_multi [] (curl_multi.map .multi).toFinset where
  nodup := List.nodup_nil
  multi_mem m := by simp [eq_comm]
  easy_mem e := by simp
  added_mem e he := by simp at he
  no_file f := by simp

/-- What is left at the end. -/
theorem Stock.eq_of_nil (h : Stock curl_multi [] held) : held = (curl_multi.map .multi).toFinset := by
  ext n
  rcases n with m | e | e | f
  · rw [h.multi_mem m]
    simp [eq_comm]
  · exact iff_of_false (mt (h.easy_mem e).mp List.not_mem_nil) (by simp)
  · exact iff_of_false (mt (h.added_mem e) List.not_mem_nil) (by simp)
  · exact iff_of_false (h.no_file f) (by simp)

/-- The calls that need the multi handle, or an easy handle. -/
theorem Stock.multi_needs (h : Stock curl_multi handles held) :
    ∀ n ∈ curl_multi.toList.map .multi, n ∈ held := by
  intro n hn
  obtain ⟨m, hm, rfl⟩ := List.mem_map.mp hn
  exact (h.multi_mem m).mpr (Option.mem_toList.mp hm)

theorem Stock.easy_needs (h : Stock curl_multi handles held) {easy_handle : Option ℕ}
    (heasy : ∀ e, easy_handle = some e → e ∈ handles) : ∀ n ∈ easy_handle.toList.map .easy, n ∈ held := by
  intro n hn
  obtain ⟨e, he, rfl⟩ := List.mem_map.mp hn
  exact (h.easy_mem e).mpr (heasy e (Option.mem_toList.mp he))

theorem documented_fresh : ∀ t d, Documented t d → HandsOutFresh op t d := fun _ _ h => h.1

/-- What there is, and every call was in order. -/
abbrev Has (held : Finset Resource) (trace : List Answered) : Prop := Holds op Call.Proper held trace

/-- A call that is proper with the handles it needs, and does nothing to the names. -/
theorem retains_proper (hop : ∀ r, op ⟨c, r⟩ = none) (hneeds : c.Needs held) (hdetached : c.Detached held) :
    Retains Documented op Call.Proper held (perform c : CurlProgram c.Answer) :=
  retains_plain hop ⟨hneeds, hdetached⟩

theorem retains_easySetopt {curl : Option ℕ} (hcurl : ∀ n ∈ curl.toList.map .easy, n ∈ held)
    (option : CurlOpt) :
    Retains Documented op Call.Proper held (easySetopt curl option) :=
  retains_proper (fun _ => rfl) hcurl trivial

/-- An easy handle may be put into the multi handle. -/
theorem wp_multiAddHandle {easy_handle : Option ℕ} {Q : Bool → List Answered → Prop}
    (h : Has held trace) (hs : Stock curl_multi handles held) (heasy : ∀ e, easy_handle = some e → e ∈ handles)
    (hQ : ∀ rc t held', Has held' t → Stock curl_multi handles held' → Q rc t) :
    wp Documented (multiAddHandle curl_multi easy_handle) Q trace := by
  have hproper : Call.Proper (.multiAddHandle curl_multi easy_handle) held :=
    ⟨List.forall_mem_append.mpr ⟨hs.multi_needs, hs.easy_needs heasy⟩, trivial⟩
  rcases curl_multi with _ | m
  · exact wp_plain h (fun _ => rfl) hproper fun rc h => hQ rc _ _ h hs
  rcases easy_handle with _ | e
  · exact wp_plain h (fun _ => rfl) hproper fun rc h => hQ rc _ _ h hs
  intro (rc : Bool) hok
  rcases rc with _ | _
  · exact hQ _ _ _ (h.plain rfl hproper) hs
  · have hholds := (h.acquire (n := .added e) rfl hok.1 hproper).2
    exact hQ _ _ _ hholds (hs.add (heasy e rfl))

/-- **A handle is made and set up.** -/
theorem wp_setUp (url : StdString) (h : Has held trace) (hs : Stock curl_multi handles held) :
    wp Documented (setUp curl_multi url) (fun handle t => handle.url = url ∧ ∃ held', Has held' t ∧
      Stock curl_multi (handles ++ handle.easy_handle.toList) held') trace := by
  refine wp_bind.mpr (wp_mono (Q := fun easy_handle t => ∃ held', Has held' t ∧
    Stock curl_multi (handles ++ easy_handle.toList) held') ?_ ?_)
  · have hproper : Call.Proper .easyInit held := ⟨needs_of_uses_nil rfl held, trivial⟩
    refine wp_makes Resource.easy (fun r => ⟨.easyInit, r⟩) .rfl (documented_fresh _) (fun _ => rfl) h
      (fun _ => hproper) (fun h => ⟨held, h, ?_⟩) fun e hnew h => ⟨_, h, hs.made hnew⟩
    rwa [Option.toList_none, List.append_nil]
  · rintro easy_handle t ⟨held', h, hs⟩
    have hin : ∀ e, easy_handle = some e → e ∈ handles ++ easy_handle.toList := by
      rintro e rfl
      exact List.mem_append_right _ (List.mem_singleton_self e)
    have hset := retains_easySetopt (hs.easy_needs hin)
    refine (hset _).wp_bind h fun _ _ h => (hset _).wp_bind h fun _ _ h => (hset _).wp_bind h fun _ _ h => ?_
    refine (hset _).wp_bind h fun _ _ h => (hset _).wp_bind h fun _ _ h => (hset _).wp_bind h fun _ _ h => ?_
    exact wp_bind.mpr (wp_multiAddHandle h hs hin fun _ _ held' h hs => ⟨rfl, held', h, hs⟩)

theorem wp_setUpAll (urls : List StdString) (h : Has held trace) (hs : Stock curl_multi handles held) :
    wp Documented (setUpAll curl_multi urls) (fun easy_handles t => easy_handles.map CurlEasyHandle.url = urls ∧
      ∃ held', Has held' t ∧
        Stock curl_multi (handles ++ easy_handles.flatMap fun handle => handle.easy_handle.toList) held')
      trace := by
  induction urls generalizing held handles trace with
  | nil =>
      refine ⟨rfl, held, h, ?_⟩
      rwa [List.flatMap_nil, List.append_nil]
  | cons url urls ih =>
      refine wp_bind.mpr (wp_mono (wp_setUp url h hs) ?_)
      rintro handle t ⟨hurl, held', h, hs⟩
      refine wp_bind.mpr (wp_mono (ih h hs) ?_)
      rintro easy_handles t ⟨hurls, held', h, hs⟩
      refine ⟨List.cons_eq_cons.mpr ⟨hurl, hurls⟩, held', h, ?_⟩
      rwa [List.flatMap_cons, ← List.append_assoc]

/-- The loop in the middle keeps everything. -/
theorem retains_performs (hs : Stock curl_multi handles held) (s : Unit) :
    Retains Documented op Call.Proper held (performs curl_multi s) := by
  have hperform : Retains Documented op Call.Proper held (multiPerform curl_multi) :=
    retains_proper (fun _ => rfl) hs.multi_needs trivial
  have hwait : Retains Documented op Call.Proper held (multiWait curl_multi) :=
    retains_proper (fun _ => rfl) hs.multi_needs trivial
  refine hperform.bind fun r => .ite (retains_pure _) (hwait.bind fun rc => .ite (retains_pure _) ?_)
  exact retains_pure _

/-- A handle is taken out of the multi handle if it is in, and is cleaned up. -/
theorem wp_removeAndCleanUp {easy_handle : Option ℕ} {α : Type} {a : α} {Q : α → List Answered → Prop}
    (h : Has held trace) (hs : Stock curl_multi (easy_handle.toList ++ handles) held)
    (hQ : ∀ t held', Has held' t → Stock curl_multi handles held' → Q a t) :
    wp Documented (do let _rc ← multiRemoveHandle curl_multi easy_handle; easyCleanup easy_handle; return a) Q
      trace := by
  have hin : ∀ e, easy_handle = some e → e ∈ easy_handle.toList ++ handles := by
    rintro e rfl
    exact List.mem_append_left _ (List.mem_singleton_self e)
  have hremove : Call.Proper (.multiRemoveHandle curl_multi easy_handle) held :=
    ⟨List.forall_mem_append.mpr ⟨hs.multi_needs, hs.easy_needs hin⟩, trivial⟩
  rcases easy_handle with _ | e
  · refine wp_bind.mpr (wp_plain h (fun _ => rfl) hremove fun _ h => ?_)
    exact wp_bind.mpr (wp_plain h (fun _ => rfl) ⟨hs.easy_needs hin, trivial⟩ fun _ h => hQ _ held h hs)
  -- whatever it answers, the handle is not in the multi handle any more
  have hgone : ∀ (rc : Bool), Documented trace ⟨.multiRemoveHandle curl_multi (some e), rc⟩ →
      Has (held.erase (.added e)) (⟨.multiRemoveHandle curl_multi (some e), rc⟩ :: trace) := by
    intro rc hok
    have htakes : rc = true ↔ .added e ∈ held := h.openFds_eq ▸ hok.2
    rcases rc with _ | _
    · rw [Finset.erase_eq_of_notMem (mt htakes.mpr Bool.false_ne_true)]
      exact h.plain rfl hremove
    · exact h.release_mem (htakes.mp rfl) rfl hremove
  have hs' := hs.remove (e := e)
  have hcleanUp : Call.Proper (.easyCleanup (some e)) (held.erase (.added e)) :=
    ⟨hs'.easy_needs hin, Finset.notMem_erase _ _⟩
  refine wp_bind.mpr fun (rc : Bool) hok => wp_bind.mpr fun r _ => ?_
  have hout := hs'.cleanUp (Finset.notMem_erase _ _)
  exact hQ _ _ ((hgone rc hok).release_mem ((hs'.easy_mem e).mpr List.mem_cons_self) rfl hcleanUp) hout

/-- **A handle is saved** exactly if its URL has at least 11 bytes; otherwise an exception ends the program. -/
theorem wp_save {handle : CurlEasyHandle} (h : Has held trace)
    (hs : Stock curl_multi (handle.easy_handle.toList ++ handles) held) :
    wp Documented (save curl_multi handle) (fun result t => ∃ held', Has held' t ∧
      (result = .ok () ↔ 11 ≤ handle.url.bytes.length) ∧ (result = .ok () → Stock curl_multi handles held'))
      trace := by
  rw [save, filename_eq]
  split
  next hthrows =>
    split at hthrows
    next hshort => exact ⟨held, h, iff_of_false nofun (Nat.not_le.mpr hshort), nofun⟩
    next => cases hthrows
  next name hname =>
    split at hname
    next => cases hname
    next hlong =>
      have hfile : Retains Documented op Call.Proper held (saveAs name) := by
        refine retains_saveAs documented_fresh (fun _ => ⟨needs_of_uses_nil rfl held, trivial⟩) ?_ ?_ name
        · exact fun f => ⟨List.forall_mem_singleton.mpr (Finset.mem_insert_self _ _), trivial⟩
        · exact fun f => ⟨List.forall_mem_singleton.mpr (Finset.mem_insert_self _ _), trivial⟩
      refine hfile.wp_bind h fun _ t h => wp_removeAndCleanUp h hs fun t held' h hs => ?_
      exact ⟨held', h, iff_of_true rfl (Nat.not_lt.mp hlong), fun _ => hs⟩

theorem wp_saveAll (easy_handles : List CurlEasyHandle) (h : Has held trace)
    (hs : Stock curl_multi (easy_handles.flatMap fun handle => handle.easy_handle.toList) held) :
    wp Documented (saveAll curl_multi easy_handles) (fun result t => ∃ held', Has held' t ∧
      (result = .ok () ↔ ∀ handle ∈ easy_handles, 11 ≤ handle.url.bytes.length) ∧
      (result = .ok () → Stock curl_multi [] held')) trace := by
  induction easy_handles generalizing held trace with
  | nil => exact ⟨held, h, iff_of_true rfl fun _ hin => absurd hin List.not_mem_nil, fun _ => hs⟩
  | cons handle easy_handles ih =>
      refine wp_bind.mpr (wp_mono (wp_save h hs) ?_)
      rintro result t ⟨held', h, hlong, hs⟩
      rcases result with e | ⟨⟩
      · refine ⟨held', h, iff_of_false nofun fun hall => ?_, nofun⟩
        cases hlong.mpr (hall handle List.mem_cons_self)
      · refine wp_mono (ih h (hs rfl)) ?_
        rintro result t ⟨held', h, hall, hs⟩
        refine ⟨held', h, ?_, hs⟩
        rw [hall, List.forall_mem_cons, and_iff_right (hlong.mp rfl)]

/-- The multi handle is cleaned up when it is all there is. -/
theorem wp_multiCleanup {Q : Unit → List Answered → Prop} (h : Has held trace) (hs : Stock curl_multi [] held)
    (hQ : ∀ t, Has ∅ t → Q () t) : wp Documented (multiCleanup curl_multi) Q trace := by
  have hproper : Call.Proper (.multiCleanup curl_multi) held :=
    ⟨hs.multi_needs, fun e hin => List.not_mem_nil (hs.added_mem e hin)⟩
  obtain rfl := hs.eq_of_nil
  rcases curl_multi with _ | m
  · exact wp_plain h (fun _ => rfl) hproper fun _ h => hQ _ h
  · have h : Has (insert (.multi m) ∅) trace := h
    exact wp_takesBack h (Finset.notMem_empty _) (fun _ => rfl) hproper fun _ => hQ _

/-- What `main` has when it ends, and when it is stopped. -/
def Left (urls : List StdString) (r : Option (Except Exn Unit)) (trace : List Answered) : Prop :=
  ∃ held, Has held trace ∧ ∀ result, r = some result →
    (result = .ok () ↔ ∀ url ∈ urls, 11 ≤ url.bytes.length) ∧ (result = .ok () → held = ∅)

theorem wp_multiHandle (urls : List StdString) (n : ℕ) : wp Documented (multiHandle urls n) (Left urls) [] := by
  have hstart : Has ∅ [] := holds_nil
  have hproper : ∀ {held : Finset Resource}, Call.Proper .globalInit held := ⟨needs_of_uses_nil rfl _, trivial⟩
  refine wp_bind.mpr (wp_plain hstart (fun _ => rfl) hproper fun _ h => ?_)
  -- the multi handle
  refine wp_bind.mpr (wp_mono (Q := fun curl_multi t => ∃ held, Has held t ∧ Stock curl_multi [] held) ?_ ?_)
  · have hproper : Call.Proper .multiInit ∅ := ⟨needs_of_uses_nil rfl _, trivial⟩
    exact wp_makes Resource.multi (fun r => ⟨.multiInit, r⟩) .rfl (documented_fresh _) (fun _ => rfl) h
      (fun _ => hproper) (fun h => ⟨_, h, stock_nil none⟩) fun m _ h => ⟨_, h, stock_nil (some m)⟩
  rintro curl_multi t ⟨held, h, hs⟩
  refine wp_bind.mpr (wp_mono (wp_setUpAll urls h hs) ?_)
  rintro easy_handles t ⟨hurls, held, h, hs⟩
  have hperform : Retains Documented op Call.Proper held (multiPerform curl_multi) :=
    retains_proper (fun _ => rfl) hs.multi_needs trivial
  refine hperform.wp_bind h fun _ t h => (retains_loop (retains_performs hs) n ()).wp_bind h fun r t h => ?_
  rcases r with _ | ⟨⟩
  · exact ⟨held, h, nofun⟩
  refine wp_bind.mpr (wp_mono (wp_saveAll easy_handles h hs) ?_)
  rintro result t ⟨held, h, hall, hs⟩
  have hurl : result = .ok () ↔ ∀ url ∈ urls, 11 ≤ url.bytes.length := by
    rw [hall, ← hurls, List.forall_mem_map]
  rcases result with e | ⟨⟩
  · refine ⟨held, h, ?_⟩
    rintro result heq
    cases heq
    exact ⟨hurl, nofun⟩
  · refine wp_bind.mpr (wp_multiCleanup h (hs rfl) fun t h => ?_)
    refine wp_bind.mpr (wp_plain h (fun _ => rfl) ⟨needs_of_uses_nil rfl _, trivial⟩ fun _ h => ⟨∅, h, ?_⟩)
    rintro result heq
    cases heq
    exact ⟨hurl, fun _ => rfl⟩

/-- **`curl_multi_handle.cpp` cleans up.** Whatever libcurl and the system answer, for all URLs: every handle
and every file is open when it is used, no easy handle is cleaned up while it is in the multi handle, and the
multi handle not before it is empty. `main` returns, unless it never leaves its loop, exactly if every URL has
at least 11 bytes, and then every handle and every file has been given back exactly once. -/
theorem cleans_up (urls : List StdString) (n : ℕ) (env : List Answered → (c : Call) → c.Answer)
    (henv : EachCall (fun d earlier => Documented earlier d) (exec env (multiHandle urls n) []).2) :
    InOrder op Call.Proper (exec env (multiHandle urls n) []).2 ∧
      ∀ result, (exec env (multiHandle urls n) []).1 = some result →
        (result = .ok () ↔ ∀ url ∈ urls, 11 ≤ url.bytes.length) ∧
          (result = .ok () → ClosedOnce (history op (exec env (multiHandle urls n) []).2)) := by
  obtain ⟨held, h, hresult⟩ := wp_exec (wp_multiHandle urls n) henv
  refine ⟨h.inOrder, fun result hr => ?_⟩
  obtain ⟨hlong, hheld⟩ := hresult result hr
  exact ⟨hlong, fun hok => h.closedOnce_iff.mpr (hheld hok)⟩

end MultiHandle

/-- A library that never fails; a transfer is done at once. -/
def obliges (trace : List Answered) : (c : Call) → c.Answer
  | .multiInit | .easyInit | .openFile _ => some trace.length
  | .multiAddHandle _ _ | .multiWait _ | .multiRemoveHandle _ _ | .easyPerform _ => true
  | .multiPerform _ => (true, (0 : Int))
  | .globalInit | .globalCleanup | .multiCleanup _ | .easySetopt _ _ | .easyCleanup _ | .writeFile _
  | .closeFile _ => ()

def exampleUrl : StdString := ⟨ofText "http://www.example.com", by decide⟩

def speedtestUrl : StdString := ⟨ofText "http://www.speedtest.net", by decide⟩

theorem cleans_up_obliges :
    ClosedOnce (history op (exec obliges (multiHandle [exampleUrl, speedtestUrl] 1) []).2) :=
  ((cleans_up [exampleUrl, speedtestUrl] 1 obliges (by decide)).2 (.ok ()) (by rfl)).2 rfl

/-! ## `basic_curl.cpp` -/

theorem wp_basic : wp Documented basic (fun _ t => Has ∅ t) [] := by
  have hstart : Has ∅ [] := holds_nil
  have hproper : Call.Proper .easyInit ∅ := ⟨needs_of_uses_nil rfl _, trivial⟩
  refine wp_bind.mpr (wp_makes Resource.easy (fun r => ⟨.easyInit, r⟩) .rfl (documented_fresh _) (fun _ => rfl)
    hstart (fun _ => hproper) (fun h => h) fun curl _ h => ?_)
  have hneeds : ∀ n ∈ (some curl).toList.map Resource.easy, n ∈ ({Resource.easy curl} : Finset Resource) :=
    List.forall_mem_singleton.mpr (Finset.mem_singleton_self _)
  have hset := retains_easySetopt hneeds
  refine (hset _).wp_bind h fun _ _ h => (hset _).wp_bind h fun _ _ h => (hset _).wp_bind h fun _ _ h => ?_
  have hperform : Retains Documented op Call.Proper {.easy curl} (easyPerform curl) :=
    retains_proper (fun _ => rfl) hneeds trivial
  refine hperform.wp_bind h fun _ _ h => ?_
  have hout : Resource.added curl ∉ ({Resource.easy curl} : Finset Resource) := by simp
  exact wp_takesBack h (Finset.notMem_empty _) (fun _ => rfl) ⟨hneeds, hout⟩ fun _ h => h

/-- `basic_curl.cpp` cleans up as well. -/
theorem basic_cleans_up (env : List Answered → (c : Call) → c.Answer)
    (henv : EachCall (fun d earlier => Documented earlier d) (exec env basic []).2) :
    InOrder op Call.Proper (exec env basic []).2 ∧ ClosedOnce (history op (exec env basic []).2) :=
  ⟨(wp_exec wp_basic henv).inOrder, (wp_exec wp_basic henv).closedOnce_iff.mpr rfl⟩

/-! ## `curl_multithreaded.cpp` -/

section Multithreaded

/-- The call takes no easy handle back. -/
def Call.Leaves : Call → Prop
  | .easyCleanup _ | .multiRemoveHandle _ _ => False
  | _ => True

/-- A call is in order in `perform_request`. -/
def Call.Kept (c : Call) (opened : Finset Resource) : Prop := c.Needs opened ∧ c.Leaves

variable {held : Finset Resource} {trace : List Answered} {c : Call}

/-- What is closed by a call that takes no easy handle back: it needs it, and it is no easy handle. -/
theorem closed_of_leaves {d : Answered} {n : Resource} (hop : op d = some (.closed n)) (hleaves : d.1.Leaves) :
    n ∈ d.1.uses ∧ ∀ e, n ≠ .easy e := by
  cases does_of_op hop with
  | multiRemoveHandle => exact hleaves.elim
  | multiCleanup => exact ⟨List.mem_singleton_self _, fun _ => nofun⟩
  | easyCleanup => exact hleaves.elim
  | closeFile => exact ⟨List.mem_singleton_self _, fun _ => nofun⟩

/-- `perform_request` closes only what it has. -/
theorem framed_kept : Framed op Call.Kept where
  mono hsub hkept := ⟨fun n hn => hsub (hkept.1 n hn), hkept.2⟩
  closes hop hkept := hkept.1 _ (closed_of_leaves hop hkept.2).1

/-- A library that refuses everything. -/
def refuses : (c : Call) → c.Answer
  | .multiInit | .easyInit | .openFile _ => none
  | .multiAddHandle _ _ | .multiWait _ | .multiRemoveHandle _ _ | .easyPerform _ => false
  | .multiPerform _ => (false, (0 : Int))
  | .globalInit | .globalCleanup | .multiCleanup _ | .easySetopt _ _ | .easyCleanup _ | .writeFile _
  | .closeFile _ => ()

/-- It hands out nothing. -/
theorem handsOutFresh_refuses (trace : List Answered) (c : Call) : HandsOutFresh op trace ⟨c, refuses c⟩ := by
  rw [HandsOutFresh]
  rcases hop : op ⟨c, refuses c⟩ with _ | (n | n | n)
  · trivial
  · have hdoes := does_of_op hop
    generalize hd : (⟨c, refuses c⟩ : Answered) = d at hdoes
    rcases hdoes with _ | _ | _ | _
    all_goals cases hd
  · trivial
  · trivial

/-- An easy handle is never closed. -/
theorem easy_notMem_closed (h : InOrder op Call.Kept trace) (e : ℕ) : .closed (.easy e) ∉ history op trace := by
  intro hin
  obtain ⟨d, hd, hop⟩ := List.mem_filterMap.mp hin
  obtain ⟨earlier, -, hleaves⟩ := EachCall.exists_of_mem h hd
  exact (closed_of_leaves hop hleaves).2 e rfl

/-- **Every easy handle that was made is there for ever.** -/
theorem easy_mem_openFds_iff (h : InOrder op Call.Kept trace) (e : ℕ) :
    .easy e ∈ openFds ∅ (history op trace) ↔ (⟨.easyInit, some e⟩ : Answered) ∈ trace := by
  rw [mem_openFds_iff_of_notMem_closed (easy_notMem_closed h e), history, List.mem_filterMap]
  constructor
  · rintro ⟨d, hd, hop⟩
    cases does_of_op hop with
    | easyInit => exact hd
  · intro hd
    exact ⟨_, hd, rfl⟩

/-- What a thread has left when it has returned: easy handles. -/
def OnlyEasy (trace : List Answered) : Prop := ∀ n ∈ openFds ∅ (history op trace), ∃ e, n = .easy e

theorem wp_performRequest (url : StdString) : wp (HandsOutFresh op) (performRequest url)
    (fun _ t => OnlyEasy t ∧ InOrder op Call.Kept t) [] := by
  have hstart : Holds op Call.Kept ∅ [] := holds_nil
  have hinit : Call.Kept .easyInit ∅ := ⟨needs_of_uses_nil rfl _, trivial⟩
  refine wp_bind.mpr (wp_makes Resource.easy (fun r => ⟨.easyInit, r⟩) .rfl (fun _ hd => hd) (fun _ => rfl)
    hstart (fun _ => hinit) (fun h => ?_) fun curl _ h => ?_)
  · refine ⟨fun n hn => ?_, h.inOrder⟩
    rw [h.openFds_eq] at hn
    exact absurd hn (Finset.notMem_empty n)
  have hleft : ∀ t, Holds op Call.Kept {.easy curl} t → OnlyEasy t ∧ InOrder op Call.Kept t := by
    refine fun t h => ⟨fun n hn => ⟨curl, ?_⟩, h.inOrder⟩
    rwa [h.openFds_eq, Finset.mem_singleton] at hn
  have hneeds : ∀ n ∈ (some curl).toList.map Resource.easy, n ∈ ({Resource.easy curl} : Finset Resource) :=
    List.forall_mem_singleton.mpr (Finset.mem_singleton_self _)
  have hset : ∀ option, Retains (HandsOutFresh op) op Call.Kept {.easy curl} (easySetopt curl option) :=
    fun _ => retains_plain (fun _ => rfl) ⟨hneeds, trivial⟩
  have hperform : Retains (HandsOutFresh op) op Call.Kept {.easy curl} (easyPerform curl) :=
    retains_plain (fun _ => rfl) ⟨hneeds, trivial⟩
  have hsave : ∀ name, Retains (HandsOutFresh op) op Call.Kept {.easy curl} (saveAs name) := by
    refine retains_saveAs (fun _ _ hd => hd) (fun _ => ⟨needs_of_uses_nil rfl _, trivial⟩) ?_ ?_
    · exact fun f => ⟨List.forall_mem_singleton.mpr (Finset.mem_insert_self _ _), trivial⟩
    · exact fun f => ⟨List.forall_mem_singleton.mpr (Finset.mem_insert_self _ _), trivial⟩
  refine (hset _).wp_bind h fun _ _ h => (hset _).wp_bind h fun _ _ h => (hset _).wp_bind h fun _ _ h => ?_
  refine (hset _).wp_bind h fun _ _ h => (hset _).wp_bind h fun _ _ h => (hset _).wp_bind h fun _ _ h => ?_
  refine (hset _).wp_bind h fun _ _ h => hperform.wp_bind h fun res t h => ?_
  split
  · exact hleft _ h
  split
  · exact hleft _ h
  · exact (hsave _).wp_bind h fun _ t h => hleft _ h

/-- The threads when `main` has created them. -/
def threads (urls : List StdString) : Threads (Fin urls.length) Call Call.Answer (Except Exn Unit) where
  program i := performRequest (urls.get i)
  calls := []

/-- **`curl_multithreaded.cpp` leaves its handles.** Whatever libcurl and the system answer, for all URLs and in
whatever order the threads make their calls: a thread uses only handles and files that are its own and open; and
when all of them have returned, what is open are exactly the easy handles that were ever made. -/
theorem handles_left (urls : List StdString) (schedule : List (Fin urls.length))
    (env : List (Fin urls.length × Answered) → Fin urls.length → (c : Call) → c.Answer)
    (henv : EachCall (fun d earlier => HandsOutFresh op earlier d)
      (Threads.run env (threads urls) schedule).trace) :
    (∀ i, InOrder op Call.Needs (Threads.callsOf i (Threads.run env (threads urls) schedule).calls)) ∧
      ((∀ i, ∃ result, (Threads.run env (threads urls) schedule).program i = .ret result) →
        ∀ n, n ∈ openFds ∅ (history op (Threads.run env (threads urls) schedule).trace) ↔
          ∃ e, n = .easy e ∧
            (⟨.easyInit, some e⟩ : Answered) ∈ (Threads.run env (threads urls) schedule).trace) := by
  have hanswered : ∀ t c, ∃ r, HandsOutFresh op t ⟨c, r⟩ := fun t c => ⟨refuses c, handsOutFresh_refuses t c⟩
  have hstart : Side op Call.Kept (fun _ _ t => OnlyEasy t) (threads urls) :=
    side_start fun i => wp_performRequest (urls.get i)
  have hside := run_spec framed_kept hanswered hstart schedule henv
  refine ⟨fun i => (hside.inOrder_callsOf hanswered i).mono fun _ _ hkept => hkept.1, fun hreturned n => ?_⟩
  constructor
  · intro hn
    obtain ⟨i, hin⟩ := (hside.apart.mem_iff n).mp hn
    obtain ⟨result, hresult⟩ := hreturned i
    obtain ⟨e, rfl⟩ := hside.returned hresult n hin
    exact ⟨e, rfl, (easy_mem_openFds_iff hside.inOrder e).mp hn⟩
  · rintro ⟨e, rfl, hin⟩
    exact (easy_mem_openFds_iff hside.inOrder e).mpr hin

/-- The threads of two URLs, in turn. -/
def inTurn : List (Fin [exampleUrl, speedtestUrl].length) := (List.replicate 12 [0, 1]).flatten

theorem handles_left_inTurn :
    Resource.easy 0 ∈ openFds ∅ (history op
      (Threads.run (fun calls _ => obliges (calls.map Prod.snd)) (threads [exampleUrl, speedtestUrl])
        inTurn).trace) := by
  refine ((handles_left [exampleUrl, speedtestUrl] inTurn (fun calls _ => obliges (calls.map Prod.snd))
    ?_).2 ?_ _).mpr ?_
  · decide
  · intro i
    match i with
    | 0 => exact ⟨.ok (), rfl⟩
    | 1 => exact ⟨.ok (), rfl⟩
  · exact ⟨0, rfl, List.mem_of_getLast? (by rfl)⟩

end Multithreaded

end LinuxNet.Libcurl.Handles
