/-
# LinuxNet.Posix.DirTree — how a kernel resolves a path in a directory tree

Names are byte strings of at most `NAME_MAX` bytes and paths are shorter than `PATH_MAX`. A path is cut
at its slashes; an empty component and a dot stay where they are, two dots go up, and a component that
is too long for a name is an error of its own, not a missing file. There are no symbolic links and no
permissions here: the process may search every directory and read every file.

`DirTree.fileSystem` is what a process sees of a tree from its working directory.
-/
import LinuxNet.Cpp.FileSystem
import LinuxNet.Lib.PathWalk

namespace LinuxNet.Posix

open LinuxNet.Lib LinuxNet.Cpp

/-! ## Paths -/

/-- `NAME_MAX`. -/
def nameMax : ℕ := 255

/-- `PATH_MAX`, which counts the NUL. -/
def pathMax : ℕ := 4096

/-- What a component of a path asks for. -/
def segOf (component : Bytes) : Seg Bytes :=
  if component = [] ∨ component = ofText "." then .here
  else if component = ofText ".." then .up
  else if nameMax < component.length then .tooLong
  else .name component

/-- The components of a path. -/
def segments (path : Bytes) : List (Seg Bytes) := (path.splitOn slash).map segOf

theorem segments_append (path more : Bytes) :
    segments (path ++ slash :: more) = segments path ++ segments more := by
  rw [segments, List.splitOn_append_cons_self, List.map_append]
  rfl

/-- The names in a path are components of it. -/
theorem mem_splitOn_of_name {path n : Bytes} (h : Seg.name n ∈ segments path) :
    n ∈ path.splitOn slash := by
  obtain ⟨component, hmem, hseg⟩ := List.mem_map.mp h
  unfold segOf at hseg
  split at hseg
  · cases hseg
  · split at hseg
    · cases hseg
    · split at hseg
      · cases hseg
      · cases hseg
        exact hmem

/-! ## Working directories -/

/-- A name a directory entry can have. -/
structure IsName (n : Bytes) : Prop where
  seg : segOf n = .name n
  no_slash : slash ∉ n
  no_nul : (0 : UInt8) ∉ n

/-- **`WorkDir`** — a working directory: the names that lead to it, innermost first. -/
structure WorkDir where
  names : List Bytes
  valid : ∀ n ∈ names, IsName n

namespace WorkDir

variable (cwd : WorkDir)

/-- The absolute path of a working directory. -/
def path : Bytes := slash :: [slash].intercalate cwd.names.reverse

theorem nul_notMem_path : (0 : UInt8) ∉ cwd.path := by
  have hslash : (0 : UInt8) ≠ slash := by decide
  have hjoin : ∀ l : List Bytes, (∀ n ∈ l, (0 : UInt8) ∉ n) → (0 : UInt8) ∉ [slash].intercalate l := by
    intro l hl
    induction l with
    | nil => simp [List.intercalate]
    | cons n l ih =>
        obtain ⟨hn, hmore⟩ := List.forall_mem_cons.mp hl
        cases l with
        | nil => simpa [List.intercalate] using hn
        | cons m l =>
            rw [List.intercalate_cons_of_ne_nil (by simp)]
            simp [hn, hslash, ih hmore]
  rw [path, List.mem_cons, not_or]
  refine ⟨hslash, hjoin _ fun n hn => (cwd.valid n ?_).no_nul⟩
  simpa using hn

/-- The components of the path are the names, after the root. -/
theorem lex_path {known : List Bytes → Prop} [DecidablePred known]
    (hknown : ∀ q, q <:+ cwd.names → known q) : lex known (segments cwd.path) [] = .ends cwd.names := by
  have hroot : segments cwd.path =
      .here :: segments ([slash].intercalate cwd.names.reverse) := by
    have h := segments_append [] ([slash].intercalate cwd.names.reverse)
    rw [List.nil_append] at h
    exact h
  rw [hroot, lex]
  by_cases hnil : cwd.names = []
  · rw [hnil]
    rfl
  · have hsplit : ([slash].intercalate cwd.names.reverse).splitOn slash = cwd.names.reverse := by
      refine List.splitOn_intercalate slash (fun n hn => (cwd.valid n ?_).no_slash) (by simpa using hnil)
      simpa using hn
    have hseg : ∀ n ∈ cwd.names.reverse, segOf n = .name n := fun n hn =>
      (cwd.valid n (by simpa using hn)).seg
    have h := lex_names known (l := cwd.names.reverse) (p := []) (by simpa using hknown)
    rw [segments, hsplit, List.map_congr_left hseg, h, List.reverse_reverse, List.append_nil]

end WorkDir

/-! ## File systems -/

/-- A directory tree; a directory has the position at which its end is found when it is opened as a file,
which is `-1` where it has none. -/
abbrev DirTree := FileTree Bytes Int Bytes

/-- An entry opened for reading. Nothing can be read from a directory. -/
def openEntry : Entry Int Bytes → InFile
  | .dir endPos =>
    { endPos := endPos
      read := fun n => if n = 0 then some [] else none
      read_length := by
        intro n content h
        split at h
        next hn =>
          cases h
          exact hn.symm
        next => cases h }
  | .file content =>
    { endPos := content.length
      read := fun n => if n ≤ content.length then some (content.take n) else none
      read_length := by
        intro n content' h
        split at h
        next hn =>
          cases h
          exact List.length_take_of_le hn
        next => cases h }

theorem openEntry_holds {content : Bytes} (h : content.length < 2 ^ 63) :
    (openEntry (.file content)).Holds content where
  endPos_eq := rfl
  read_eq := by
    show (if content.length ≤ content.length then some (content.take content.length) else none) = _
    rw [if_pos le_rfl, List.take_length]
  length_lt := h

namespace DirTree

variable (t : DirTree)

/-- Where an absolute path leads. -/
def resolve (path : Bytes) : Walked Bytes :=
  if pathMax ≤ path.length then .tooLong else t.walk (segments path) []

/-- A status query. -/
def status (path : Bytes) : FileStatus :=
  match t.resolve path with
  | .missing => .notFound
  | .tooLong => .error
  | .found p => if t.isDir p then .directory else .other

/-- Opening a file for reading. -/
def openIn (path : Bytes) : Option InFile :=
  match t.resolve path with
  | .missing | .tooLong => none
  | .found p => (t.entry p).map openEntry

/-- **What a process sees of a tree** from its working directory. -/
def fileSystem (t : DirTree) (cwd : WorkDir) : FileSystem where
  currentPath := .ok cwd.path
  status := t.status
  openIn := t.openIn

end DirTree

end LinuxNet.Posix
