/-
# LinuxNet.Libcurl.Programs — `curl_multi_handle.cpp` and `curl_multithreaded.cpp`

Both programs download some URLs, each into a string of its own, and write each string to a file. The first
one has one thread: libcurl calls `perform_callback` for all transfers from within `curl_multi_perform`, and
when the loop around it has been left the files are written one after the other, whatever became of the
transfers. The second one has a thread for each URL: it writes its file when its transfer has succeeded, while
the others do whatever they are doing.

So one state stands for both (`State`): the downloads, each with its string and the stage it has come to, and
the files. `Step` is what a step of either program can do to it. A file is what a path leads to; writing to an
open file succeeds, in pieces of any size.
-/
import LinuxNet.Lib.Machine
import LinuxNet.Lib.SharedFiles
import LinuxNet.Libcurl.Filename

namespace LinuxNet.Libcurl

open LinuxNet.Lib LinuxNet.Cpp

variable {ι : Type*} [DecidableEq ι]

/-! ## Callbacks -/

/-- `perform_callback`: `*str` when it returns, and what it returns. -/
def performCallback (str ptr : Bytes) (size nmemb : ℕ) : Bytes × ℕ :=
  let total_size := size * nmemb % 2 ^ 64
  (str ++ ptr.take total_size, total_size)

/-- A chunk is taken as a whole. -/
theorem performCallback_chunk {ptr : Bytes} {size nmemb : ℕ} (hptr : ptr.length = size * nmemb)
    (hsize : size * nmemb < 2 ^ 64) (str : Bytes) :
    performCallback str ptr size nmemb = (str ++ ptr, ptr.length) := by
  rw [performCallback, Nat.mod_eq_of_lt hsize, ← hptr, List.take_length]

/-! ## States and events -/

/-- How far a download has come. -/
inductive Stage (ι : Type*) where
  /-- before `curl_easy_init`, in a thread -/
  | starting
  | receiving
  /-- `curl_easy_perform` has returned `CURLE_OK` -/
  | received
  /-- the file is open, and so many bytes of the string are in it -/
  | writing (file : ι) (written : ℕ)
  | closed (file : ι)
  /-- nothing is written: the transfer or the opening of the file has failed -/
  | dropped
  deriving DecidableEq

/-- `CurlEasyHandle`, or the variables of `perform_request`. -/
structure Download (ι : Type*) where
  url : StdString
  data : Bytes
  stage : Stage ι
  deriving DecidableEq

/-- Where a program is. -/
inductive Phase where
  /-- the threads are running -/
  | running
  /-- in `curl_multi_perform`, before the loop or in it -/
  | performing (inLoop : Bool)
  /-- in `curl_multi_wait` -/
  | waiting (running_status : Int)
  /-- at the handle with this index, behind the loop -/
  | saving (i : ℕ)
  /-- behind the last handle -/
  | returned
  /-- an exception has ended the program -/
  | thrown
  deriving DecidableEq

/-- Where the program is, the downloads, and what is in the files. -/
structure State (ι : Type*) where
  phase : Phase
  downloads : List (Download ι)
  files : ι → Bytes

/-- What libcurl and the system do, with the index of the download. -/
inductive Event where
  /-- a thread calls `curl_easy_init` -/
  | starts (i : ℕ) (curl : Bool)
  | callback (i : ℕ) (ptr : Bytes) (size nmemb : ℕ)
  /-- the transfer ends, with `CURLE_OK` or not -/
  | finishes (i : ℕ) (ok : Bool)
  /-- `curl_multi_perform` returns `CURLM_OK` or not -/
  | performed (ok : Bool) (running_status : Int)
  /-- so does `curl_multi_wait` -/
  | waited (ok : Bool)
  /-- the file is opened, if its name can be computed -/
  | opens (i : ℕ) (isOpen : Bool)
  /-- the next bytes of the string are written, at most so many -/
  | writes (i : ℕ) (n : ℕ)
  deriving DecidableEq

/-- The programs. -/
inductive Program where
  | multiHandle
  | multithreaded
  deriving DecidableEq, Repr

/-- Before the first call of `curl_multi_perform`, or of `curl_easy_init`. -/
def Program.init (urls : List StdString) (files : ι → Bytes) : Program → State ι
  | .multiHandle => ⟨.performing false, urls.map fun url => ⟨url, [], .receiving⟩, files⟩
  | .multithreaded => ⟨.running, urls.map fun url => ⟨url, [], .starting⟩, files⟩

/-- A download has changed. -/
def State.put (s : State ι) (i : ℕ) (d : Download ι) : State ι := { s with downloads := s.downloads.set i d }

/-! ## Writing a file -/

section Save

variable (file : Bytes → ι)

/-- The file a URL is written to: `file` says where a path leads. -/
def output (url : StdString) : ι := file (cString (outputName url.bytes))

/-- `std::string filename = …; std::ofstream file(filename);` -/
def openFile (s : State ι) (i : ℕ) (url : StdString) (data : Bytes) (isOpen : Bool) : Except Exn (State ι) :=
  (filename url.bytes).map fun filename =>
    if isOpen then
      let f := file (cString filename)
      { s.put i ⟨url, data, .writing f 0⟩ with files := Function.update s.files f [] }
    else s.put i ⟨url, data, .dropped⟩

/-- A part of `file << data; file.close();`, which ends when everything has been written. -/
def writePiece (s : State ι) (i : ℕ) (url : StdString) (data : Bytes) (f : ι) (written n : ℕ) : State ι :=
  let piece := (data.drop written).take n
  let stage := if written + piece.length < data.length then .writing f (written + piece.length) else .closed f
  { s.put i ⟨url, data, stage⟩ with files := Function.update s.files f (overlay 0 (s.files f) written piece) }

/-! ## One step -/

/-- `for (CurlEasyHandle& handle : easy_handles)`, at this index. -/
def State.save (s : State ι) (i : ℕ) : State ι :=
  { s with phase := if i < s.downloads.length then .saving i else .returned }

/-- `main` of `curl_multi_handle.cpp`, from the first `curl_multi_perform` on. -/
def multiHandleStep (s : State ι) (e : Event) : Option (State ι) :=
  match s.phase with
  | .performing inLoop =>
    match e with
    | .callback i ptr size nmemb =>
      match s.downloads[i]? with
      | some ⟨url, data, .receiving⟩ =>
        some (s.put i ⟨url, (performCallback data ptr size nmemb).1, .receiving⟩)
      | _ => none
    -- nothing asks how a transfer has ended
    | .finishes _ _ => some s
    | .performed ok running_status =>
      -- before the loop nothing looks at what it returns
      if inLoop = false then some { s with phase := .performing true }
      else if ok then some { s with phase := .waiting running_status }
      else some (s.save 0)
    | _ => none
  | .waiting running_status =>
    match e with
    | .waited ok =>
      if ok = true ∧ running_status ≠ 0 then some { s with phase := .performing true }
      else some (s.save 0)
    | _ => none
  | .saving i =>
    match e with
    | .opens j isOpen =>
      match s.downloads[i]? with
      | some ⟨url, data, .receiving⟩ =>
        if j = i then
          match openFile file s i url data isOpen with
          | .error _ => some { s with phase := .thrown }
          | .ok t => if isOpen then some t else some (t.save (i + 1))
        else none
      | _ => none
    | .writes j n =>
      match s.downloads[i]? with
      | some ⟨url, data, .writing f written⟩ =>
        if j = i then
          let t := writePiece s i url data f written n
          if written + ((data.drop written).take n).length < data.length then some t
          else some (t.save (i + 1))
        else none
      | _ => none
    | _ => none
  | .running | .returned | .thrown => none

/-- The threads of `curl_multithreaded.cpp`: one of them makes a step in `perform_request`. -/
def multithreadedStep (s : State ι) (e : Event) : Option (State ι) :=
  match s.phase with
  | .running =>
    match e with
    | .starts i curl =>
      match s.downloads[i]? with
      | some ⟨url, data, .starting⟩ => some (s.put i ⟨url, data, if curl then .receiving else .dropped⟩)
      | _ => none
    | .callback i ptr size nmemb =>
      match s.downloads[i]? with
      | some ⟨url, data, .receiving⟩ =>
        some (s.put i ⟨url, (performCallback data ptr size nmemb).1, .receiving⟩)
      | _ => none
    | .finishes i ok =>
      match s.downloads[i]? with
      | some ⟨url, data, .receiving⟩ => some (s.put i ⟨url, data, if ok then .received else .dropped⟩)
      | _ => none
    | .opens i isOpen =>
      match s.downloads[i]? with
      | some ⟨url, data, .received⟩ =>
        match openFile file s i url data isOpen with
        | .error _ => some { s with phase := .thrown }
        | .ok t => some t
      | _ => none
    | .writes i n =>
      match s.downloads[i]? with
      | some ⟨url, data, .writing f written⟩ => some (writePiece s i url data f written n)
      | _ => none
    | .performed _ _ | .waited _ => none
  | .performing _ | .waiting _ | .saving _ | .returned | .thrown => none

/-- **One step of a program.** -/
def Program.step : Program → State ι → Event → Option (State ι)
  | .multiHandle => multiHandleStep file
  | .multithreaded => multithreadedStep file

end Save

/-! ## What a step can do -/

/-- The program receives, and no file is open. -/
def Phase.Receiving : Phase → Prop
  | .performing _ | .waiting _ => True
  | .running | .saving _ | .returned | .thrown => False

/-- The event has nothing to do with the string of a download or its file. -/
def Event.Quiet : Event → Prop
  | .starts _ _ | .finishes _ _ | .performed _ _ | .waited _ => True
  | .callback _ _ _ _ | .opens _ _ | .writes _ _ => False

/-- Neither is the stage one at which there is a file. -/
def Stage.Fileless : Stage ι → Prop
  | .starting | .receiving | .received | .dropped => True
  | .writing _ _ | .closed _ => False

/-- It is the turn of this download to write its file. -/
def State.Turn (s : State ι) (i : ℕ) : Prop := s.phase = .running ∨ s.phase = .saving i

/-- What the phase is afterwards, when a download has come to its end: `curl_multi_handle.cpp` goes on with the
next handle. -/
def State.Next (s : State ι) (i : ℕ) (phase : Phase) : Prop :=
  phase = s.phase ∨ s.phase = .saving i ∧ phase ≠ .thrown

section Phases

omit [DecidableEq ι]

variable {s : State ι} {i : ℕ}

theorem Phase.Receiving.ne_thrown {phase : Phase} (h : phase.Receiving) : phase ≠ .thrown := by
  rintro rfl
  exact h

theorem State.Turn.not_receiving (h : s.Turn i) : ¬ s.phase.Receiving := by
  rcases h with hrunning | hsaving
  · rw [hrunning]
    exact id
  · rw [hsaving]
    exact id

theorem State.Turn.ne_returned (h : s.Turn i) : s.phase ≠ .returned := by
  rcases h with hrunning | hsaving
  · rw [hrunning]
    exact Phase.noConfusion
  · rw [hsaving]
    exact Phase.noConfusion

theorem State.Turn.ne_thrown (h : s.Turn i) : s.phase ≠ .thrown := by
  rcases h with hrunning | hsaving
  · rw [hrunning]
    exact Phase.noConfusion
  · rw [hsaving]
    exact Phase.noConfusion

end Phases

section Step

variable (file : Bytes → ι)

/-- **`Step file s e t`** — everything one step of either program can do. -/
inductive Step (s : State ι) : Event → State ι → Prop
  /-- `main` of `curl_multi_handle.cpp` goes on -/
  | moves {e : Event} {phase : Phase} (hquiet : e.Quiet) (hphase : s.phase.Receiving)
      (hnext : phase ≠ .thrown) : Step s e { s with phase := phase }
  /-- a thread goes on -/
  | turns {e : Event} {i : ℕ} {url : StdString} {data : Bytes} {stage stage' : Stage ι}
      (hquiet : e.Quiet) (hphase : s.phase = .running)
      (hd : s.downloads[i]? = some ⟨url, data, stage⟩) (hstage : stage.Fileless) (hstage' : stage'.Fileless) :
      Step s e (s.put i ⟨url, data, stage'⟩)
  | receives {i : ℕ} {url : StdString} {data ptr : Bytes} {size nmemb : ℕ}
      (hphase : s.phase = .running ∨ s.phase.Receiving)
      (hd : s.downloads[i]? = some ⟨url, data, .receiving⟩) :
      Step s (.callback i ptr size nmemb) (s.put i ⟨url, (performCallback data ptr size nmemb).1, .receiving⟩)
  /-- the name cannot be computed -/
  | throws {i : ℕ} {url : StdString} {data : Bytes} {stage : Stage ι} {isOpen : Bool} (hturn : s.Turn i)
      (hd : s.downloads[i]? = some ⟨url, data, stage⟩) (hshort : url.bytes.length < 11) :
      Step s (.opens i isOpen) { s with phase := .thrown }
  | opens {i : ℕ} {url : StdString} {data : Bytes} {stage : Stage ι} (hturn : s.Turn i)
      (hd : s.downloads[i]? = some ⟨url, data, stage⟩) (hstage : stage.Fileless)
      (hlong : 11 ≤ url.bytes.length) :
      Step s (.opens i true) { s.put i ⟨url, data, .writing (output file url) 0⟩ with
        files := Function.update s.files (output file url) [] }
  /-- the file cannot be opened -/
  | drops {i : ℕ} {url : StdString} {data : Bytes} {stage : Stage ι} {phase : Phase} (hturn : s.Turn i)
      (hd : s.downloads[i]? = some ⟨url, data, stage⟩) (hstage : stage.Fileless)
      (hlong : 11 ≤ url.bytes.length) (hnext : s.Next i phase) :
      Step s (.opens i false) { s.put i ⟨url, data, .dropped⟩ with phase := phase }
  | writes {i n written : ℕ} {url : StdString} {data : Bytes} {f : ι} (hturn : s.Turn i)
      (hd : s.downloads[i]? = some ⟨url, data, .writing f written⟩)
      (hmore : written + ((data.drop written).take n).length < data.length) :
      Step s (.writes i n)
        { s.put i ⟨url, data, .writing f (written + ((data.drop written).take n).length)⟩ with
          files := Function.update s.files f (overlay 0 (s.files f) written ((data.drop written).take n)) }
  | closes {i n written : ℕ} {url : StdString} {data : Bytes} {f : ι} {phase : Phase} (hturn : s.Turn i)
      (hd : s.downloads[i]? = some ⟨url, data, .writing f written⟩)
      (hall : data.length ≤ written + ((data.drop written).take n).length) (hnext : s.Next i phase) :
      Step s (.writes i n)
        { s.put i ⟨url, data, .closed f⟩ with
          phase := phase
          files := Function.update s.files f (overlay 0 (s.files f) written ((data.drop written).take n)) }

variable {file} {s t : State ι} {e : Event}

omit [DecidableEq ι] in
/-- The next handle, or the end. -/
theorem save_eq (s : State ι) (i : ℕ) : ∃ phase, phase ≠ .thrown ∧ s.save i = { s with phase := phase } := by
  unfold State.save
  split
  · exact ⟨.saving i, Phase.noConfusion, rfl⟩
  · exact ⟨.returned, Phase.noConfusion, rfl⟩

/-- The name is computed, or it is not. -/
theorem openFile_cases (file : Bytes → ι) (s : State ι) (i : ℕ) (url : StdString) (data : Bytes)
    (isOpen : Bool) :
    (url.bytes.length < 11 ∧ openFile file s i url data isOpen = .error .outOfRange) ∨
    (11 ≤ url.bytes.length ∧ openFile file s i url data isOpen = .ok
      (if isOpen then
        { s.put i ⟨url, data, .writing (output file url) 0⟩ with
          files := Function.update s.files (output file url) [] }
      else s.put i ⟨url, data, .dropped⟩)) := by
  by_cases hshort : url.bytes.length < 11
  · refine .inl ⟨hshort, ?_⟩
    rw [openFile, filename_eq, if_pos hshort]
    rfl
  · refine .inr ⟨Nat.not_lt.mp hshort, ?_⟩
    rw [openFile, filename_eq, if_neg hshort]
    rfl

section Pieces

variable (s : State ι) (i : ℕ) (url : StdString) {data : Bytes} (f : ι) {written n : ℕ}

theorem writePiece_more (hmore : written + ((data.drop written).take n).length < data.length) :
    writePiece s i url data f written n =
      { s.put i ⟨url, data, .writing f (written + ((data.drop written).take n).length)⟩ with
        files := Function.update s.files f (overlay 0 (s.files f) written ((data.drop written).take n)) } := by
  rw [writePiece]
  simp only [if_pos hmore]

theorem writePiece_all (hall : data.length ≤ written + ((data.drop written).take n).length) :
    writePiece s i url data f written n =
      { s.put i ⟨url, data, .closed f⟩ with
        files := Function.update s.files f (overlay 0 (s.files f) written ((data.drop written).take n)) } := by
  rw [writePiece]
  simp only [if_neg (Nat.not_lt.mpr hall)]

end Pieces

theorem Step.of_multiHandle (h : multiHandleStep file s e = some t) : Step file s e t := by
  unfold multiHandleStep at h
  rcases hphase : s.phase with _ | inLoop | running_status | i | _ | _
  case performing =>
    have hreceiving : s.phase.Receiving := by rw [hphase]; trivial
    rw [hphase] at h
    rcases e with _ | ⟨i, ptr, size, nmemb⟩ | _ | ⟨ok, running_status⟩ | _ | _ | _
    case callback =>
      simp only at h
      split at h
      next url data hd =>
        cases h
        exact .receives (.inr hreceiving) hd
      next => cases h
    case finishes =>
      cases h
      exact .moves trivial hreceiving (by rw [hphase]; exact Phase.noConfusion)
    case performed =>
      simp only at h
      split at h
      next =>
        cases h
        exact .moves trivial hreceiving Phase.noConfusion
      next =>
        split at h
        next =>
          cases h
          exact .moves trivial hreceiving Phase.noConfusion
        next =>
          cases h
          obtain ⟨phase, hnext, heq⟩ := save_eq s 0
          rw [heq]
          exact .moves trivial hreceiving hnext
    all_goals cases h
  case waiting =>
    have hreceiving : s.phase.Receiving := by rw [hphase]; trivial
    rw [hphase] at h
    rcases e with _ | _ | _ | _ | ok | _ | _
    case waited =>
      simp only at h
      split at h
      next =>
        cases h
        exact .moves trivial hreceiving Phase.noConfusion
      next =>
        cases h
        obtain ⟨phase, hnext, heq⟩ := save_eq s 0
        rw [heq]
        exact .moves trivial hreceiving hnext
    all_goals cases h
  case saving =>
    have hturn : s.Turn i := .inr hphase
    rw [hphase] at h
    rcases e with _ | _ | _ | _ | _ | ⟨j, isOpen⟩ | ⟨j, n⟩
    case opens =>
      simp only at h
      split at h
      next url data hd =>
        split at h
        next hj =>
          subst hj
          rcases openFile_cases file s j url data isOpen with ⟨hshort, heq⟩ | ⟨hlong, heq⟩
          · rw [heq] at h
            cases h
            exact .throws hturn hd hshort
          · rw [heq] at h
            rcases isOpen with _ | _
            · cases h
              obtain ⟨phase, hnext, heq⟩ := save_eq (s.put j ⟨url, data, .dropped⟩) (j + 1)
              show Step file s _ ((s.put j ⟨url, data, .dropped⟩).save (j + 1))
              rw [heq]
              exact .drops hturn hd trivial hlong (.inr ⟨hphase, hnext⟩)
            · cases h
              exact .opens hturn hd trivial hlong
        next => cases h
      next => cases h
    case writes =>
      simp only at h
      split at h
      next url data f written hd =>
        split at h
        next hj =>
          subst hj
          split at h
          next hmore =>
            cases h
            rw [writePiece_more s j url f hmore]
            exact .writes hturn hd hmore
          next hall =>
            have hall := Nat.not_lt.mp hall
            cases h
            rw [writePiece_all s j url f hall]
            obtain ⟨phase, hnext, heq⟩ := save_eq _ (j + 1)
            rw [heq]
            exact .closes hturn hd hall (.inr ⟨hphase, hnext⟩)
        next => cases h
      next => cases h
    all_goals cases h
  all_goals
    rw [hphase] at h
    cases h

theorem Step.of_multithreaded (h : multithreadedStep file s e = some t) : Step file s e t := by
  unfold multithreadedStep at h
  rcases hphase : s.phase with _ | _ | _ | _ | _ | _
  case running =>
    have hturn : ∀ i, s.Turn i := fun _ => .inl hphase
    rw [hphase] at h
    rcases e with ⟨i, curl⟩ | ⟨i, ptr, size, nmemb⟩ | ⟨i, ok⟩ | _ | _ | ⟨i, isOpen⟩ | ⟨i, n⟩
    case starts =>
      simp only at h
      split at h
      next url data hd =>
        cases h
        exact .turns trivial hphase hd trivial (by rcases curl with _ | _ <;> trivial)
      next => cases h
    case callback =>
      simp only at h
      split at h
      next url data hd =>
        cases h
        exact .receives (.inl hphase) hd
      next => cases h
    case finishes =>
      simp only at h
      split at h
      next url data hd =>
        cases h
        exact .turns trivial hphase hd trivial (by rcases ok with _ | _ <;> trivial)
      next => cases h
    case opens =>
      simp only at h
      split at h
      next url data hd =>
        rcases openFile_cases file s i url data isOpen with ⟨hshort, heq⟩ | ⟨hlong, heq⟩
        · rw [heq] at h
          cases h
          exact .throws (hturn i) hd hshort
        · rw [heq] at h
          rcases isOpen with _ | _
          · cases h
            exact .drops (hturn i) hd trivial hlong (.inl rfl)
          · cases h
            exact .opens (hturn i) hd trivial hlong
      next => cases h
    case writes =>
      simp only at h
      split at h
      next url data f written hd =>
        cases h
        by_cases hmore : written + ((data.drop written).take n).length < data.length
        · rw [writePiece_more s i url f hmore]
          exact .writes (hturn i) hd hmore
        · have hall := Nat.not_lt.mp hmore
          rw [writePiece_all s i url f hall]
          exact .closes (hturn i) hd hall (.inl rfl)
      next => cases h
    all_goals cases h
  all_goals
    rw [hphase] at h
    cases h

/-- **The inversion lemma**, for both programs. -/
theorem Step.of_step {p : Program} (h : p.step file s e = some t) : Step file s e t := by
  rcases p with _ | _
  · exact .of_multiHandle h
  · exact .of_multithreaded h

end Step

end LinuxNet.Libcurl
