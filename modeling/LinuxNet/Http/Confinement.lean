/-
# LinuxNet.Http.Confinement — what of the file system a response can depend on

The path of a request is put behind `<cwd>/http_root` without a look at it: two dots in it go up, and
without a slash in front it goes on with the name `http_root` itself. So the response can depend on files
outside of the document root (`route_escapes`), and this module says for which paths it does.

A path is `Confined` when, followed component by component without a file system, it stays within the
document root and the directories above it, and the page ends within the document root. For a confined path
two file systems that agree under the root answer alike (`answer_congr`); for any other path there are
two that do not (`exists_answer_ne`): one with every directory the path mentions, and its part under and
above the root. `confines_iff` is both.
-/
import LinuxNet.Http.Router
import LinuxNet.Posix.DirTree

namespace LinuxNet.Http

open LinuxNet.Lib LinuxNet.Cpp LinuxNet.Posix LinuxNet.Http.Router

namespace Confinement

/-! ## The document root -/

/-- The position of the document root. -/
def root (cwd : WorkDir) : List Bytes := strHttpRootPath :: cwd.names

/-- The positions under the document root, and those above it, of which nothing is known but that they are
directories. -/
def Known (cwd : WorkDir) (p : List Bytes) : Prop := root cwd <:+ p ∨ p <:+ root cwd

instance (cwd : WorkDir) : DecidablePred (Known cwd) := fun _ =>
  inferInstanceAs (Decidable (_ ∨ _))

theorem Known.nil (cwd : WorkDir) : Known cwd [] := .inr List.nil_suffix

theorem Known.tail (cwd : WorkDir) (p : List Bytes) (h : Known cwd p) : Known cwd p.tail := by
  rcases h with ⟨r, rfl⟩ | h
  · cases r with
    | nil => exact .inr (List.tail_suffix _)
    | cons n r => exact .inl (List.suffix_append r _)
  · exact .inr ((List.tail_suffix p).trans h)

/-- Above the document root are the working directory and what is above it. -/
theorem Known.cases {cwd : WorkDir} {p : List Bytes} (h : Known cwd p) :
    root cwd <:+ p ∨ p <:+ cwd.names := by
  rcases h with h | h
  · exact .inl h
  · rcases List.suffix_cons_iff.mp h with rfl | h
    · exact .inl List.suffix_rfl
    · exact .inr h

/-- Where a path leads without a look at the file system. -/
def trace (cwd : WorkDir) (path : Bytes) : Lexed Bytes :=
  if pathMax ≤ path.length then .tooLong else lex (Known cwd) (segments path) []

/-- The path that is queried for a request. -/
def queried (cwd : WorkDir) (mPath : Bytes) : Bytes := cString (pathOf cwd.path mPath)

/-- The page that is opened for a request when that path is a directory. -/
def opened (cwd : WorkDir) (mPath : Bytes) : Bytes := cString (filenameOf (pathOf cwd.path mPath))

/-- **`Confined cwd mPath`** — the path does not leave the document root and what is above it, and the
page is under the root. -/
structure Confined (cwd : WorkDir) (mPath : Bytes) : Prop where
  path : trace cwd (queried cwd mPath) ≠ .escape
  page : trace cwd (opened cwd mPath) = .tooLong ∨
    ∃ p, trace cwd (opened cwd mPath) = .ends p ∧ root cwd <:+ p

/-- **Two file systems that agree on everything under the document root**, seen from one working
directory. -/
structure SameUnderRoot (cwd : WorkDir) (t₁ t₂ : DirTree) : Prop where
  dir₁ : t₁.isDir cwd.names = true
  dir₂ : t₂.isDir cwd.names = true
  under : ∀ p, root cwd <:+ p → t₁.entry p = t₂.entry p

/-- The status and the body of the response. -/
def answer (lim : Limits) (cwd : WorkDir) (uninitialised : Int) (request : HTTPRequest) (t : DirTree) :
    Except Exn (Int × Bytes) :=
  (route lim (t.fileSystem cwd) uninitialised request).map fun response =>
    (response.mStatus, response.mBody)

/-- **Nothing outside of the document root can influence the response.** -/
def Confines (lim : Limits) (cwd : WorkDir) (request : HTTPRequest) : Prop :=
  ∀ uninitialised t₁ t₂, SameUnderRoot cwd t₁ t₂ →
    answer lim cwd uninitialised request t₁ = answer lim cwd uninitialised request t₂

/-! ## A confined path has one answer -/

namespace SameUnderRoot

variable {cwd : WorkDir} {t₁ t₂ : DirTree} (h : SameUnderRoot cwd t₁ t₂)

include h

theorem isDir_eq (p : List Bytes) (hp : Known cwd p) : t₁.isDir p = t₂.isDir p := by
  rcases hp.cases with hp | hp
  · unfold FileTree.isDir
    rw [h.under p hp]
  · rw [t₁.isDir_of_suffix hp h.dir₁, t₂.isDir_of_suffix hp h.dir₂]

theorem isSome_eq (p : List Bytes) (hp : Known cwd p) :
    (t₁.entry p).isSome = (t₂.entry p).isSome := by
  rcases hp.cases with hp | hp
  · rw [h.under p hp]
  · obtain ⟨info₁, h₁⟩ := t₁.isDir_iff.mp (t₁.isDir_of_suffix hp h.dir₁)
    obtain ⟨info₂, h₂⟩ := t₂.isDir_iff.mp (t₂.isDir_of_suffix hp h.dir₂)
    rw [h₁, h₂]
    rfl

theorem resolve_eq {path : Bytes} (hpath : trace cwd path ≠ .escape) :
    DirTree.resolve t₁ path = DirTree.resolve t₂ path := by
  unfold DirTree.resolve
  unfold trace at hpath
  split
  next => rfl
  next hlen =>
    rw [if_neg hlen] at hpath
    exact walk_congr (Known.tail cwd) h.isDir_eq h.isSome_eq (Known.nil cwd) hpath

omit h in
/-- A path that does not escape is found where it leads. -/
theorem trace_of_found {t : DirTree} {path : Bytes} {p : List Bytes}
    (hfound : DirTree.resolve t path = .found p) (hpath : trace cwd path ≠ .escape) :
    trace cwd path = .ends p ∧ Known cwd p := by
  unfold DirTree.resolve at hfound
  unfold trace at hpath ⊢
  split at hfound
  next => cases hfound
  next hlen =>
    rw [if_neg hlen] at hpath ⊢
    have hends := lex_of_found hfound hpath
    exact ⟨hends, known_of_ends (Known.tail cwd) (Known.nil cwd) hends⟩

theorem status_eq {path : Bytes} (hpath : trace cwd path ≠ .escape) :
    DirTree.status t₁ path = DirTree.status t₂ path := by
  have hresolve := h.resolve_eq hpath
  unfold DirTree.status
  rw [← hresolve]
  cases hfound : DirTree.resolve t₁ path with
  | missing => rfl
  | tooLong => rfl
  | found p =>
      have hknown := (trace_of_found hfound hpath).2
      show (if t₁.isDir p then FileStatus.directory else .other) =
        if t₂.isDir p then FileStatus.directory else .other
      rw [h.isDir_eq p hknown]

theorem openIn_eq {path : Bytes}
    (hpath : trace cwd path = .tooLong ∨ ∃ p, trace cwd path = .ends p ∧ root cwd <:+ p) :
    DirTree.openIn t₁ path = DirTree.openIn t₂ path := by
  have hne : trace cwd path ≠ .escape := by
    rcases hpath with hlong | ⟨p, hends, -⟩
    · rw [hlong]
      exact nofun
    · rw [hends]
      exact nofun
  have hresolve := h.resolve_eq hne
  unfold DirTree.openIn
  rw [← hresolve]
  cases hfound : DirTree.resolve t₁ path with
  | missing => rfl
  | tooLong => rfl
  | found p =>
      have hends := (trace_of_found hfound hne).1
      rcases hpath with hlong | ⟨q, hq, hunder⟩
      · rw [hlong] at hends
        cases hends
      · rw [hq] at hends
        cases hends
        show (t₁.entry p).map openEntry = (t₂.entry p).map openEntry
        rw [h.under p hunder]

end SameUnderRoot

/-! ## The answer in terms of the tree -/

/-- The answer when this file is opened as the page. -/
def pageAnswer (lim : Limits) (status : Int) : Option InFile → Except Exn (Int × Bytes)
  | none => .ok (status, [])
  | some file =>
    if lim.maxSize < toSizeT file.endPos then .error .lengthError
    else .ok (status, (file.read (toSizeT file.endPos)).getD [])

/-- An answer has the status it is given. -/
theorem status_of_pageAnswer {lim : Limits} {status : Int} {file : Option InFile} {a : Int × Bytes}
    (h : pageAnswer lim status file = .ok a) : a.1 = status := by
  unfold pageAnswer at h
  split at h
  next =>
    cases h
    rfl
  next =>
    split at h
    next => cases h
    next =>
      cases h
      rfl

/-- A file whose end is before its start cannot be answered. -/
theorem pageAnswer_of_neg (lim : Limits) (status : Int) {file : InFile} (hend : file.endPos = -1) :
    pageAnswer lim status (some file) = .error .lengthError := by
  apply if_pos
  rw [hend]
  exact maxSize_lt_toSizeT lim (by decide) (by decide)

/-- A file that ends at its start has nothing in it. -/
theorem pageAnswer_of_zero (lim : Limits) (status : Int) {file : InFile} (hend : file.endPos = 0) :
    ∃ body, pageAnswer lim status (some file) = .ok (status, body) := by
  refine ⟨_, if_neg ?_⟩
  rw [hend]
  exact Nat.not_lt_zero _

/-- The page of `404`. -/
def notFoundPage (cwd : WorkDir) : Bytes := cString (filenameOf (pathOf cwd.path notFoundPath))

theorem readPage_map (lim : Limits) (fs : FileSystem) (filename : Bytes) (uninitialised status : Int) :
    (readPage lim fs filename ((HTTPResponse.construct uninitialised).setStatus status)).map
        (fun response => (response.mStatus, response.mBody)) =
      pageAnswer lim status (fs.openIn (cString filename)) := by
  unfold readPage pageAnswer
  cases fs.openIn (cString filename) with
  | none => rfl
  | some file =>
      by_cases hsize : lim.maxSize < toSizeT file.endPos
      · have hresize : resize lim [] (toSizeT file.endPos) = .error .lengthError := resize_error [] hsize
        simp only [hresize, if_pos hsize]
        rfl
      · have hresize : resize lim [] (toSizeT file.endPos) = .ok _ := resize_nil (Nat.not_lt.mp hsize)
        simp only [hresize, if_neg hsize]
        cases file.read (toSizeT file.endPos) <;> rfl

section Answer

variable {lim : Limits} {cwd : WorkDir} {uninitialised : Int} {request : HTTPRequest} {t : DirTree}

/-- **The answer** to a request, by the status of the path it queries. -/
theorem answer_eq (lim : Limits) (cwd : WorkDir) (uninitialised : Int) (request : HTTPRequest)
    (t : DirTree) :
    answer lim cwd uninitialised request t =
      match DirTree.status t (queried cwd request.mPath) with
      | .error => .error .filesystemError
      | .directory => pageAnswer lim http200 (DirTree.openIn t (opened cwd request.mPath))
      | .notFound | .other => pageAnswer lim http404 (DirTree.openIn t (notFoundPage cwd)) := by
  have hcwd : (DirTree.fileSystem t cwd).currentPath = .ok cwd.path := rfl
  have hstatus : (DirTree.fileSystem t cwd).status (cString (pathOf cwd.path request.mPath)) =
      DirTree.status t (queried cwd request.mPath) := rfl
  unfold answer
  rw [route_eq hcwd, pageOf, statusOf, hstatus]
  cases DirTree.status t (queried cwd request.mPath) with
  | error => rfl
  | directory => exact readPage_map _ _ _ _ _
  | notFound => exact readPage_map _ _ _ _ _
  | other => exact readPage_map _ _ _ _ _

theorem answer_of_directory
    (h : DirTree.status t (queried cwd request.mPath) = .directory) :
    answer lim cwd uninitialised request t =
      pageAnswer lim http200 (DirTree.openIn t (opened cwd request.mPath)) := by
  rw [answer_eq, h]

theorem answer_of_notFound
    (h : DirTree.status t (queried cwd request.mPath) = .notFound) :
    answer lim cwd uninitialised request t =
      pageAnswer lim http404 (DirTree.openIn t (notFoundPage cwd)) := by
  rw [answer_eq, h]

end Answer

/-- The page of `404` is under the document root, unless its path is too long. -/
theorem trace_notFoundPage (cwd : WorkDir) :
    trace cwd (notFoundPage cwd) = .tooLong ∨
      ∃ p, trace cwd (notFoundPage cwd) = .ends p ∧ root cwd <:+ p := by
  have hpage : filenameOf (pathOf cwd.path notFoundPath) =
      cwd.path ++ slash :: ofText "http_root/404/index.html" := by
    have htext : strHttpRootPath ++ notFoundPath ++ slash :: strHttpMainPage =
        ofText "http_root/404/index.html" := by decide
    rw [← htext, filenameOf, pathOf]
    simp
  have hnul : (0 : UInt8) ∉ cwd.path ++ slash :: ofText "http_root/404/index.html" := by
    rw [List.mem_append, not_or]
    exact ⟨cwd.nul_notMem_path, by decide⟩
  rw [notFoundPage, hpage, cString_of_notMem hnul]
  unfold trace
  split
  next => exact .inl rfl
  next =>
    right
    have hseg : segments (ofText "http_root/404/index.html") =
        [.name strHttpRootPath, .name (ofText "404"), .name strHttpMainPage] := by decide
    have hup : ∀ q, q <:+ cwd.names → Known cwd q := fun q hq =>
      .inr (hq.trans (List.suffix_cons _ _))
    have hroot : Known cwd (root cwd) := .inl List.suffix_rfl
    have hdir : root cwd <:+ ofText "404" :: root cwd := List.suffix_cons _ _
    have hfile : root cwd <:+ strHttpMainPage :: ofText "404" :: root cwd :=
      hdir.trans (List.suffix_cons _ _)
    refine ⟨strHttpMainPage :: ofText "404" :: root cwd, ?_, hfile⟩
    rw [segments_append, lex_append _ (cwd.lex_path hup), hseg]
    have h₁ : Known cwd (strHttpRootPath :: cwd.names) := hroot
    have h₂ : Known cwd (ofText "404" :: strHttpRootPath :: cwd.names) := .inl hdir
    have h₃ : Known cwd (strHttpMainPage :: ofText "404" :: strHttpRootPath :: cwd.names) := .inl hfile
    rw [lex, if_pos h₁, lex, if_pos h₂, lex, if_pos h₃]
    rfl

/-- **For a confined path, file systems that agree under the document root answer alike.** -/
theorem answer_congr {cwd : WorkDir} {t₁ t₂ : DirTree} (h : SameUnderRoot cwd t₁ t₂)
    {request : HTTPRequest} (hconf : Confined cwd request.mPath) (lim : Limits) (uninitialised : Int) :
    answer lim cwd uninitialised request t₁ = answer lim cwd uninitialised request t₂ := by
  rw [answer_eq, answer_eq, h.status_eq hconf.path, h.openIn_eq hconf.page,
    h.openIn_eq (trace_notFoundPage cwd)]

/-! ## A path that is not confined has two answers -/

section Escape

variable (cwd : WorkDir) (mPath : Bytes)

/-- The page is the queried path itself, when that has a NUL in it, or is below it. -/
theorem opened_cases : opened cwd mPath = queried cwd mPath ∨
    opened cwd mPath = queried cwd mPath ++ slash :: strHttpMainPage := by
  unfold opened queried filenameOf
  by_cases hnul : (0 : UInt8) ∈ pathOf cwd.path mPath
  · exact .inl (cString_append_of_mem hnul _)
  · right
    have hpage : (0 : UInt8) ∉ slash :: strHttpMainPage := by decide
    rw [cString_append hnul, cString_of_notMem hnul, cString_of_notMem hpage]

theorem segments_page : segments strHttpMainPage = [.name strHttpMainPage] := by decide

variable {cwd mPath}

/-- When the page leads somewhere, or out, the path leads somewhere, or out. -/
theorem trace_opened_tooLong (h : trace cwd (queried cwd mPath) = .tooLong) :
    trace cwd (opened cwd mPath) = .tooLong := by
  rcases opened_cases cwd mPath with heq | heq
  · rw [heq, h]
  · rw [heq]
    unfold trace at h ⊢
    split
    next => rfl
    next hlen =>
      have hshort : ¬ pathMax ≤ (queried cwd mPath).length := by
        rw [List.length_append] at hlen
        omega
      rw [if_neg hshort] at h
      rw [segments_append]
      exact lex_append_tooLong _ h _

/-- The names the paths of a request can mention. -/
def mentioned (cwd : WorkDir) (mPath : Bytes) : List Bytes :=
  cwd.names ++ ((queried cwd mPath).splitOn slash ++ (opened cwd mPath).splitOn slash)

/-- How deep they can lead. -/
def depth (cwd : WorkDir) (mPath : Bytes) : ℕ :=
  cwd.names.length + ((segments (queried cwd mPath)).length + (segments (opened cwd mPath)).length)

/-- **The tree with every directory the request mentions.** Opened as a file, a directory under the
document root ends at 0, and any other at `outside`. -/
def fullTree (cwd : WorkDir) (mPath : Bytes) (outside : Int) : DirTree :=
  FileTree.full (mentioned cwd mPath) (depth cwd mPath) fun p =>
    if root cwd <:+ p then 0 else outside

/-- The part of it under and above the document root. -/
def knownTree (cwd : WorkDir) (mPath : Bytes) (outside : Int) : DirTree :=
  (fullTree cwd mPath outside).restrict (Known cwd) (Known.nil cwd) (Known.tail cwd)

variable (outside : Int)

theorem isDir_fullTree_names : (fullTree cwd mPath outside).isDir cwd.names = true := by
  apply FileTree.isDir_full
  refine ⟨?_, fun n hn => List.mem_append_left _ hn⟩
  unfold depth
  omega

theorem isDir_knownTree_names : (knownTree cwd mPath outside).isDir cwd.names = true := by
  have hknown : Known cwd cwd.names := .inr (List.suffix_cons _ _)
  have hdir : (fullTree cwd mPath outside).isDir cwd.names = true := isDir_fullTree_names outside
  have h := (FileTree.isDir_iff _).mp hdir
  apply (FileTree.isDir_iff _).mpr
  show ∃ info, (if Known cwd cwd.names then (fullTree cwd mPath outside).entry cwd.names else none) =
    some (.dir info)
  rwa [if_pos hknown]

/-- A tree and its known part agree under the document root. -/
theorem sameUnderRoot_knownTree :
    SameUnderRoot cwd (fullTree cwd mPath outside) (knownTree cwd mPath outside) := by
  refine ⟨isDir_fullTree_names outside, isDir_knownTree_names outside, fun p hp => ?_⟩
  have hknown : Known cwd p := .inl hp
  show _ = if Known cwd p then (fullTree cwd mPath outside).entry p else none
  rw [if_pos hknown]

/-- What directories outside of the document root end at is not seen from inside. -/
theorem sameUnderRoot_fullTree (outside' : Int) :
    SameUnderRoot cwd (fullTree cwd mPath outside) (fullTree cwd mPath outside') := by
  refine ⟨isDir_fullTree_names outside, isDir_fullTree_names outside', fun p hp => ?_⟩
  simp only [fullTree, FileTree.full, if_pos hp]

/-- The paths of the request lead somewhere in the full tree. -/
theorem walk_fullTree {path : Bytes} (hpath : path = queried cwd mPath ∨ path = opened cwd mPath) :
    (fullTree cwd mPath outside).walk (segments path) [] ≠ .missing := by
  apply walk_full
  intro q hlen hq
  apply FileTree.isDir_full
  constructor
  · unfold depth
    rw [List.length_nil] at hlen
    rcases hpath with rfl | rfl <;> omega
  · intro n hn
    rcases hq n hn with hnil | hname
    · cases hnil
    · have hmem := mem_splitOn_of_name hname
      rcases hpath with rfl | rfl
      · exact List.mem_append_right _ (List.mem_append_left _ hmem)
      · exact List.mem_append_right _ (List.mem_append_right _ hmem)

theorem resolve_fullTree_ne_missing {path : Bytes}
    (hpath : path = queried cwd mPath ∨ path = opened cwd mPath) :
    DirTree.resolve (fullTree cwd mPath outside) path ≠ .missing := by
  unfold DirTree.resolve
  split
  · show Walked.tooLong ≠ .missing
    exact nofun
  · exact walk_fullTree outside hpath

/-- Whatever a path leads to in the full tree is a directory. -/
theorem entry_of_resolve_fullTree {path : Bytes} {p : List Bytes}
    (h : DirTree.resolve (fullTree cwd mPath outside) path = .found p) :
    (fullTree cwd mPath outside).entry p = some (.dir (if root cwd <:+ p then 0 else outside)) := by
  unfold DirTree.resolve at h
  split at h
  next => cases h
  next =>
    obtain ⟨info, hroot⟩ := (fullTree cwd mPath outside).root
    have hsome : ((fullTree cwd mPath outside).entry []).isSome = true := by
      rw [hroot]
      rfl
    exact FileTree.entry_full_of_isSome (isSome_of_found hsome h)

/-- Where a path of the request ends, the full tree has a directory. -/
theorem resolve_fullTree {path : Bytes} (hpath : path = queried cwd mPath ∨ path = opened cwd mPath)
    {p : List Bytes} (h : trace cwd path = .ends p) :
    DirTree.resolve (fullTree cwd mPath outside) path = .found p ∧
      (fullTree cwd mPath outside).entry p =
        some (.dir (if root cwd <:+ p then 0 else outside)) := by
  unfold trace at h
  split at h
  next => cases h
  next hlen =>
    have hfound : DirTree.resolve (fullTree cwd mPath outside) path = .found p := by
      rw [DirTree.resolve, if_neg hlen, found_of_ends h (walk_fullTree outside hpath)]
    exact ⟨hfound, entry_of_resolve_fullTree outside hfound⟩

/-- A path that escapes leads nowhere in the known part. -/
theorem resolve_knownTree {path : Bytes} (h : trace cwd path = .escape) :
    DirTree.resolve (knownTree cwd mPath outside) path = .missing := by
  unfold trace at h
  split at h
  next => cases h
  next hlen =>
    rw [DirTree.resolve, if_neg hlen]
    apply walk_of_escape _ h
    intro p hp
    exact if_neg hp

/-- When no directory ends anywhere but at 0, nothing that can be opened in the known part does. -/
theorem endPos_of_openIn_knownTree {path : Bytes} {file : InFile}
    (h : DirTree.openIn (knownTree cwd mPath 0) path = some file) : file.endPos = 0 := by
  unfold DirTree.openIn at h
  split at h
  next => cases h
  next => cases h
  next p _ =>
    obtain ⟨entry, hentry, rfl⟩ := Option.map_eq_some_iff.mp h
    have hin : (if Known cwd p then (fullTree cwd mPath 0).entry p else none) = some entry := hentry
    split at hin
    next =>
      have hdir := FileTree.entry_full_of_isSome (Option.isSome_of_eq_some hin)
      obtain rfl := Option.some.inj (hin.symm.trans hdir)
      show (if root cwd <:+ p then (0 : Int) else 0) = 0
      rw [ite_self]
    next => cases hin

/-- In the known part a path that escapes is missing, and the page of `404` is at most an empty
directory. -/
theorem answer_knownTree_of_escape (lim : Limits) (uninitialised : Int) {request : HTTPRequest}
    (h : trace cwd (queried cwd request.mPath) = .escape) :
    ∃ body, answer lim cwd uninitialised request (knownTree cwd request.mPath 0) =
      .ok (http404, body) := by
  have hmissing : DirTree.status (knownTree cwd request.mPath 0) (queried cwd request.mPath) =
      .notFound := by
    rw [DirTree.status, resolve_knownTree 0 h]
  rw [answer_of_notFound hmissing]
  rcases hopen : DirTree.openIn (knownTree cwd request.mPath 0) (notFoundPage cwd) with _ | file
  · exact ⟨_, rfl⟩
  · exact pageAnswer_of_zero lim http404 (endPos_of_openIn_knownTree hopen)

/-- **The path escapes**: where it leads somewhere it is answered with another status than where it does
not. -/
theorem answer_ne_of_path (lim : Limits) (uninitialised : Int) {request : HTTPRequest}
    (h : trace cwd (queried cwd request.mPath) = .escape) :
    answer lim cwd uninitialised request (fullTree cwd request.mPath 0) ≠
      answer lim cwd uninitialised request (knownTree cwd request.mPath 0) := by
  obtain ⟨body, hbody⟩ := answer_knownTree_of_escape lim uninitialised h
  rw [hbody, answer_eq]
  intro heq
  unfold DirTree.status at heq
  -- in the full tree it is a directory, or too long
  cases hfound : DirTree.resolve (fullTree cwd request.mPath 0) (queried cwd request.mPath) with
  | missing => exact resolve_fullTree_ne_missing 0 (.inl rfl) hfound
  | tooLong =>
      simp only [hfound] at heq
      cases heq
  | found p =>
      have hdir : (fullTree cwd request.mPath 0).isDir p = true :=
        (FileTree.isDir_iff _).mpr ⟨_, entry_of_resolve_fullTree 0 hfound⟩
      simp only [hfound, hdir, if_true] at heq
      have hstatus : http404 = http200 := status_of_pageAnswer heq
      exact absurd hstatus (by decide)

/-- Where the path leads somewhere and the page is not too long, the path is a directory in the full
tree. -/
theorem status_fullTree (hpath : trace cwd (queried cwd mPath) ≠ .escape)
    (hpage : trace cwd (opened cwd mPath) ≠ .tooLong) :
    DirTree.status (fullTree cwd mPath outside) (queried cwd mPath) = .directory := by
  cases htrace : trace cwd (queried cwd mPath) with
  | escape => exact absurd htrace hpath
  | tooLong => exact absurd (trace_opened_tooLong htrace) hpage
  | ends p =>
      obtain ⟨hfound, hentry⟩ := resolve_fullTree outside (.inl rfl) htrace
      have hdir : (fullTree cwd mPath outside).isDir p = true :=
        (FileTree.isDir_iff _).mpr ⟨_, hentry⟩
      rw [DirTree.status, hfound]
      exact if_pos hdir

/-- When only the page escapes, it is a name below the path, and not known. -/
theorem resolve_page_fullTree (hpath : trace cwd (queried cwd mPath) ≠ .escape)
    (hpage : trace cwd (opened cwd mPath) = .escape) :
    ∃ p, DirTree.resolve (fullTree cwd mPath outside) (opened cwd mPath) = .found p ∧
      ¬ root cwd <:+ p := by
  have heq : opened cwd mPath = queried cwd mPath ++ slash :: strHttpMainPage := by
    rcases opened_cases cwd mPath with heq | heq
    · rw [heq] at hpage
      exact absurd hpage hpath
    · exact heq
  have hseg : segments (opened cwd mPath) = segments (queried cwd mPath) ++ [.name strHttpMainPage] := by
    rw [heq, segments_append, segments_page]
  have hwalk : (fullTree cwd mPath outside).walk (segments (opened cwd mPath)) [] ≠ .missing :=
    walk_fullTree outside (.inr rfl)
  unfold trace at hpage
  split at hpage
  next => cases hpage
  next hlen =>
    have hshort : ¬ pathMax ≤ (queried cwd mPath).length := by
      rw [heq, List.length_append] at hlen
      omega
    rw [trace, if_neg hshort] at hpath
    rw [hseg] at hpage
    obtain ⟨q, hends, hout⟩ := ends_of_append_escape (Known cwd) hpage hpath
    have hq := found_of_ends hends (walk_fullTree outside (.inl rfl))
    rw [hseg, walk_append hq] at hwalk
    refine ⟨strHttpMainPage :: q, ?_, fun hin => hout (.inl hin)⟩
    rw [DirTree.resolve, if_neg hlen, hseg, walk_append hq, walk_name hwalk]

/-- **Only the page escapes**: where it is a directory it cannot be read, and where it is missing the
response has no body. -/
theorem answer_ne_of_page (lim : Limits) (uninitialised : Int) {request : HTTPRequest}
    (hpath : trace cwd (queried cwd request.mPath) ≠ .escape)
    (hpage : trace cwd (opened cwd request.mPath) = .escape) :
    answer lim cwd uninitialised request (fullTree cwd request.mPath (-1)) ≠
      answer lim cwd uninitialised request (knownTree cwd request.mPath (-1)) := by
  have hlong : trace cwd (opened cwd request.mPath) ≠ .tooLong := by
    rw [hpage]
    exact nofun
  have hdir := status_fullTree (-1) hpath hlong
  have hdir' : DirTree.status (knownTree cwd request.mPath (-1)) (queried cwd request.mPath) =
      .directory := by
    rw [← (sameUnderRoot_knownTree (-1)).status_eq hpath, hdir]
  have hnone : DirTree.openIn (knownTree cwd request.mPath (-1)) (opened cwd request.mPath) = none := by
    rw [DirTree.openIn, resolve_knownTree (-1) hpage]
  rw [answer_of_directory hdir, answer_of_directory hdir', hnone]
  obtain ⟨p, hfound, hout⟩ := resolve_page_fullTree (-1) hpath hpage
  have hentry := entry_of_resolve_fullTree (-1) hfound
  have hopen : DirTree.openIn (fullTree cwd request.mPath (-1)) (opened cwd request.mPath) =
      some (openEntry (.dir (-1))) := by
    rw [DirTree.openIn, hfound]
    show ((fullTree cwd request.mPath (-1)).entry p).map openEntry = _
    rw [hentry, if_neg hout]
    rfl
  rw [hopen, pageAnswer_of_neg lim http200 rfl]
  exact nofun

/-- **Page and path stay within the known positions, but the page is above the document root**: what its
directory ends at decides whether it can be read. -/
theorem answer_ne_of_above (lim : Limits) (uninitialised : Int) {request : HTTPRequest}
    (hpath : trace cwd (queried cwd request.mPath) ≠ .escape) {p : List Bytes}
    (hpage : trace cwd (opened cwd request.mPath) = .ends p) (hout : ¬ root cwd <:+ p) :
    answer lim cwd uninitialised request (fullTree cwd request.mPath (-1)) ≠
      answer lim cwd uninitialised request (fullTree cwd request.mPath 0) := by
  have hlong : trace cwd (opened cwd request.mPath) ≠ .tooLong := by
    rw [hpage]
    exact nofun
  have hopen : ∀ outside, DirTree.openIn (fullTree cwd request.mPath outside)
      (opened cwd request.mPath) = some (openEntry (.dir outside)) := by
    intro outside
    obtain ⟨hfound, hentry⟩ := resolve_fullTree outside (.inr rfl) hpage
    rw [DirTree.openIn, hfound]
    show ((fullTree cwd request.mPath outside).entry p).map openEntry = _
    rw [hentry, if_neg hout]
    rfl
  rw [answer_of_directory (status_fullTree (-1) hpath hlong),
    answer_of_directory (status_fullTree 0 hpath hlong), hopen, hopen, pageAnswer_of_neg lim http200 rfl]
  obtain ⟨body, hbody⟩ : ∃ body, pageAnswer lim http200 (some (openEntry (.dir 0))) =
      .ok (http200, body) := pageAnswer_of_zero lim http200 rfl
  rw [hbody]
  exact nofun

end Escape

/-- **For a path that is not confined there are two file systems that agree under the document root and
answer differently.** -/
theorem exists_answer_ne {cwd : WorkDir} {request : HTTPRequest} (h : ¬ Confined cwd request.mPath)
    (lim : Limits) (uninitialised : Int) :
    ∃ t₁ t₂, SameUnderRoot cwd t₁ t₂ ∧
      answer lim cwd uninitialised request t₁ ≠ answer lim cwd uninitialised request t₂ := by
  by_cases hpath : trace cwd (queried cwd request.mPath) = .escape
  · exact ⟨_, _, sameUnderRoot_knownTree 0, answer_ne_of_path lim uninitialised hpath⟩
  · cases hpage : trace cwd (opened cwd request.mPath) with
    | escape =>
        exact ⟨_, _, sameUnderRoot_knownTree (-1), answer_ne_of_page lim uninitialised hpath hpage⟩
    | tooLong => exact absurd ⟨hpath, .inl hpage⟩ h
    | ends p =>
        have hout : ¬ root cwd <:+ p := fun hin => h ⟨hpath, .inr ⟨p, hpage, hin⟩⟩
        exact ⟨_, _, sameUnderRoot_fullTree (-1) 0,
          answer_ne_of_above lim uninitialised hpath hpage hout⟩

/-- **The document root confines a request if and only if its path is confined.** -/
theorem confines_iff (lim : Limits) (cwd : WorkDir) (request : HTTPRequest) :
    Confines lim cwd request ↔ Confined cwd request.mPath := by
  constructor
  · intro hconf
    by_contra hnot
    obtain ⟨t₁, t₂, hsame, hne⟩ := exists_answer_ne hnot lim 0
    exact hne (hconf 0 t₁ t₂ hsame)
  · intro hconf uninitialised t₁ t₂ hsame
    exact answer_congr hsame hconf lim uninitialised

/-! ## A request that escapes -/

/-- The working directory `/srv`. -/
def srv : WorkDir where
  names := [ofText "srv"]
  valid n hn := by
    rw [List.mem_singleton] at hn
    subst hn
    constructor <;> decide

/-- The document root `/srv/http_root`, and beside it the directory `/srv/secret`. -/
def besideRoot : List (List Bytes × Entry Int Bytes) :=
  [([], .dir 0), ([ofText "srv"], .dir 0), (root srv, .dir 0), ([ofText "secret", ofText "srv"], .dir 0)]

/-- A page in `/srv/secret`. -/
def secretPage : List Bytes := [strHttpMainPage, ofText "secret", ofText "srv"]

def withPage : DirTree :=
  FileTree.ofEntries (besideRoot ++ [(secretPage, Entry.file (ofText "key"))]) (by decide) (by decide)

def withoutPage : DirTree := FileTree.ofEntries besideRoot (by decide) (by decide)

/-- The page is not under the document root. -/
theorem sameUnderRoot_withPage : SameUnderRoot srv withPage withoutPage := by
  refine ⟨by decide, by decide, fun p hp => ?_⟩
  have hne : p ≠ secretPage := by
    rintro rfl
    revert hp
    decide
  exact FileTree.entry_ofEntries_concat hne _ _ _ _

/-- `GET /../secret`. -/
def escapingRequest : HTTPRequest := ⟨ofText "GET", ofText "/../secret", ∅, []⟩

/-- **A page outside of the document root decides the response.** -/
theorem route_escapes :
    ¬ ∀ (lim : Limits) (cwd : WorkDir) (request : HTTPRequest), Confines lim cwd request := by
  intro hall
  have heq := hall intLimits srv escapingRequest 0 _ _ sameUnderRoot_withPage
  have hfound : DirTree.resolve withPage (opened srv escapingRequest.mPath) = .found secretPage := by
    decide
  have hmissing : DirTree.resolve withoutPage (opened srv escapingRequest.mPath) = .missing := by decide
  have hentry : withPage.entry secretPage = some (.file (ofText "key")) := by decide
  have hpage : DirTree.openIn withPage (opened srv escapingRequest.mPath) =
      some (openEntry (.file (ofText "key"))) := by
    rw [DirTree.openIn, hfound]
    show (withPage.entry secretPage).map openEntry = _
    rw [hentry]
    rfl
  have hnone : DirTree.openIn withoutPage (opened srv escapingRequest.mPath) = none := by
    rw [DirTree.openIn, hmissing]
  rw [answer_of_directory (by decide), answer_of_directory (by decide), hpage, hnone] at heq
  have hbody : ofText "key" = [] := congrArg Prod.snd (Except.ok.inj heq)
  exact absurd hbody (by decide)

end Confinement

end LinuxNet.Http
