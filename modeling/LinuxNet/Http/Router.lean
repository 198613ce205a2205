/-
# LinuxNet.Http.Router — `HTTPRouter::route`

The router puts the path of the request behind the name of the document root and asks the file system:
a directory is answered with its `index.html` and the status 200, anything else with the page of
`404`. The response keeps an empty body when the page cannot be opened or read.

`route_eq` says what is left of this once the status of the path is known, and `route_ok_iff` exactly when
no exception leaves the router.
-/
import LinuxNet.Cpp.FileSystem
import LinuxNet.Http.Defs
import LinuxNet.Http.Response

namespace LinuxNet.Http

open LinuxNet.Lib LinuxNet.Cpp

namespace Router

/-- `fs::current_path().string() + "/" + std::string(STR_HTTP_ROOT_PATH) + m_path`. -/
def pathOf (cwd mPath : Bytes) : Bytes := cwd ++ slash :: (strHttpRootPath ++ mPath)

/-- `path + "/" + STR_HTTP_MAIN_PAGE`. -/
def filenameOf (path : Bytes) : Bytes := path ++ slash :: strHttpMainPage

/-- `"/404"`. -/
def notFoundPath : Bytes := ofText "/404"

/-- `fs::exists(path) && fs::is_directory(path)`. -/
def found (fs : FileSystem) (path : Bytes) : Except Exn Bool := do
  if ← fs.existsPath path then fs.isDirectory path else return false

/-- The part of `route` that opens and reads the page. -/
def readPage (lim : Limits) (fs : FileSystem) (filename : Bytes) (response : HTTPResponse) :
    Except Exn HTTPResponse :=
  match fs.openIn (cString filename) with
  | none => .ok response
  | some file => do
    let file_size := toSizeT file.endPos
    let _html_content ← resize lim [] file_size
    match file.read file_size with
    | some content => return response.setBody content
    | none => return response

/-- **`HTTPRouter::route`.** -/
def route (lim : Limits) (fs : FileSystem) (uninitialised : Int) (request : HTTPRequest) :
    Except Exn HTTPResponse := do
  let response := HTTPResponse.construct uninitialised
  let path := pathOf (← fs.currentPath) request.mPath
  if ← found fs path then
    readPage lim fs (filenameOf path) (response.setStatus http200)
  else
    let path := pathOf (← fs.currentPath) notFoundPath
    readPage lim fs (filenameOf path) (response.setStatus http404)

/-! ## When no exception leaves the router -/

theorem found_eq (fs : FileSystem) (path : Bytes) :
    found fs path =
      if fs.status (cString path) = .error then .error .filesystemError
      else .ok (decide (fs.status (cString path) = .directory)) := by
  unfold found FileSystem.existsPath FileSystem.isDirectory
  cases fs.status (cString path) <;> rfl

/-- The page that answers a request: of the directory that was asked for, or of `404`. -/
def pageOf (fs : FileSystem) (cwd mPath : Bytes) : Bytes :=
  if fs.status (cString (pathOf cwd mPath)) = .directory then filenameOf (pathOf cwd mPath)
  else filenameOf (pathOf cwd notFoundPath)

/-- The status of the answer. -/
def statusOf (fs : FileSystem) (cwd mPath : Bytes) : Int :=
  if fs.status (cString (pathOf cwd mPath)) = .directory then http200 else http404

/-- **What the router computes** when the current directory is known. -/
theorem route_eq {lim : Limits} {fs : FileSystem} {cwd : Bytes} (hcwd : fs.currentPath = .ok cwd)
    (uninitialised : Int) (request : HTTPRequest) :
    route lim fs uninitialised request =
      if fs.status (cString (pathOf cwd request.mPath)) = .error then .error .filesystemError
      else readPage lim fs (pageOf fs cwd request.mPath)
        ((HTTPResponse.construct uninitialised).setStatus (statusOf fs cwd request.mPath)) := by
  simp only [route, hcwd, bind, Except.bind, found_eq, pageOf, statusOf]
  cases fs.status (cString (pathOf cwd request.mPath)) <;> rfl

/-- Reading the page leaves the status alone. -/
theorem mStatus_of_readPage {lim : Limits} {fs : FileSystem} {filename : Bytes}
    {response r : HTTPResponse} (h : readPage lim fs filename response = .ok r) :
    r.mStatus = response.mStatus := by
  unfold readPage at h
  split at h
  next =>
    cases h
    rfl
  next file _ =>
    cases hresize : resize lim [] (toSizeT file.endPos) with
    | error exn => simp [hresize, bind, Except.bind] at h
    | ok content =>
        simp only [hresize, bind, Except.bind] at h
        split at h
        next =>
          cases h
          rfl
        next =>
          cases h
          rfl

/-- **When the page can be read without exception**: its size is one a string can have. -/
theorem readPage_ok_iff (lim : Limits) (fs : FileSystem) (filename : Bytes) (response : HTTPResponse) :
    (∃ r, readPage lim fs filename response = .ok r) ↔
      ∀ file, fs.openIn (cString filename) = some file → toSizeT file.endPos ≤ lim.maxSize := by
  unfold readPage
  cases hopen : fs.openIn (cString filename) with
  | none => simp
  | some file =>
      by_cases hsize : toSizeT file.endPos ≤ lim.maxSize
      · have hresize : resize lim [] (toSizeT file.endPos) = .ok _ := resize_nil hsize
        simp only [hresize, bind, Except.bind, Option.some.injEq, forall_eq', hsize, iff_true]
        cases file.read (toSizeT file.endPos) with
        | none => exact ⟨_, rfl⟩
        | some content => exact ⟨_, rfl⟩
      · have hresize : resize lim [] (toSizeT file.endPos) = .error _ :=
          resize_error [] (Nat.not_le.mp hsize)
        simp [hresize, bind, Except.bind, hsize]

/-- **When the router returns.** -/
theorem route_ok_iff (lim : Limits) (fs : FileSystem) (uninitialised : Int) (request : HTTPRequest) :
    (∃ r, route lim fs uninitialised request = .ok r) ↔
      ∃ cwd, fs.currentPath = .ok cwd ∧ fs.status (cString (pathOf cwd request.mPath)) ≠ .error ∧
        ∀ file, fs.openIn (cString (pageOf fs cwd request.mPath)) = some file →
          toSizeT file.endPos ≤ lim.maxSize := by
  cases hcwd : fs.currentPath with
  | error exn => simp [route, hcwd, bind, Except.bind]
  | ok cwd =>
      rw [route_eq hcwd]
      by_cases hstatus : fs.status (cString (pathOf cwd request.mPath)) = .error
      · simp [hstatus]
      · rw [if_neg hstatus, readPage_ok_iff]
        simp [hstatus]

end Router

end LinuxNet.Http
