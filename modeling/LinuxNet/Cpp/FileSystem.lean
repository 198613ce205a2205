/-
# LinuxNet.Cpp.FileSystem — what a program sees of the file system

`FileSystem` is the file system while one request is answered: the answers of `current_path`, of a status
query and of opening a file. Paths reach the kernel as C strings, so a path ends at its first NUL
whatever the `std::string` goes on with.
-/
import LinuxNet.Cpp.Std

namespace LinuxNet.Cpp

open LinuxNet.Lib

/-- What a status query finds. -/
inductive FileStatus where
  | notFound
  | directory
  | other
  /-- the query fails, and not because nothing is there -/
  | error
  deriving DecidableEq, Repr

/-- A file opened for reading. -/
structure InFile where
  /-- `tellg()` after `seekg(0, std::ios::end)`, which is `-1` when the stream has failed -/
  endPos : Int
  /-- `read(n)` from the start; `none` when the stream fails -/
  read : ℕ → Option Bytes
  read_length : ∀ n content, read n = some content → content.length = n

/-- **`file.Holds content`** — this is the content of the file, and it can be read completely. The size of
a file is a 64-bit signed number. -/
structure InFile.Holds (file : InFile) (content : Bytes) : Prop where
  endPos_eq : file.endPos = content.length
  read_eq : file.read content.length = some content
  length_lt : content.length < 2 ^ 63

theorem InFile.Holds.toSizeT_endPos {file : InFile} {content : Bytes} (h : file.Holds content) :
    toSizeT file.endPos = content.length := by
  have hlt := h.length_lt
  rw [h.endPos_eq]
  exact toSizeT_natCast (by omega)

/-- The file system while one request is answered. -/
structure FileSystem where
  currentPath : Except Exn Bytes
  status : Bytes → FileStatus
  openIn : Bytes → Option InFile

namespace FileSystem

/-- `fs::exists(path)`. -/
def existsPath (fs : FileSystem) (path : Bytes) : Except Exn Bool :=
  match fs.status (cString path) with
  | .error => .error .filesystemError
  | .notFound => .ok false
  | .directory | .other => .ok true

/-- `fs::is_directory(path)`. -/
def isDirectory (fs : FileSystem) (path : Bytes) : Except Exn Bool :=
  match fs.status (cString path) with
  | .error => .error .filesystemError
  | .directory => .ok true
  | .notFound | .other => .ok false

end FileSystem

end LinuxNet.Cpp
