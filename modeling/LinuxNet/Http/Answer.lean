/-
# LinuxNet.Http.Answer — the status and the page of an answer

The router takes the status from one test (is the path a directory?) and the page from two others (can its
`index.html` be opened, can it be read?), and nothing goes back to the status when these fail.

* `statusAgrees_iff` — for which paths and file systems status and page agree.
* `malformed_iff` — when a request without a path is not answered with success. The parser leaves its path
  empty, and the empty path is the document root itself.
-/
import LinuxNet.Http.ConnectionHandler
import LinuxNet.Posix.DirTree

namespace LinuxNet.Http

open LinuxNet.Lib LinuxNet.Cpp LinuxNet.Posix
open LinuxNet.Http.Parser LinuxNet.Http.Router LinuxNet.Http.ConnectionHandler

namespace Answer

/-! ## The page that is opened -/

theorem nul_notMem_mainPage : (0 : UInt8) ∉ slash :: strHttpMainPage := by decide

/-- The page that is opened is the one in the directory that was found, unless there is a NUL in the path:
then it is that directory itself. -/
theorem cString_filenameOf_eq_iff (path : Bytes) :
    cString (filenameOf path) = filenameOf (cString path) ↔ (0 : UInt8) ∉ path := by
  constructor
  · intro heq hnul
    have hlen := congrArg List.length heq
    rw [filenameOf, cString_append_of_mem hnul, filenameOf, List.length_append, List.length_cons] at hlen
    omega
  · intro hnul
    rw [filenameOf, cString_append hnul, cString_of_notMem nul_notMem_mainPage, cString_of_notMem hnul]
    rfl

/-- **Reading a page that can be read**: its content becomes the body. -/
theorem readPage_of_holds {lim : Limits} {fs : FileSystem} {filename content : Bytes} {file : InFile}
    (hopen : fs.openIn (cString filename) = some file) (hfile : file.Holds content)
    (hlen : content.length ≤ lim.maxSize) (response : HTTPResponse) :
    readPage lim fs filename response = .ok (response.setBody content) := by
  have hresize : resize lim [] content.length = .ok _ := resize_nil hlen
  unfold readPage
  rw [hopen]
  simp only [hfile.toSizeT_endPos, hfile.read_eq, hresize, bind, Except.bind]
  rfl

/-- **A body that is the content of the page** of a response that had none: then the page was read. -/
theorem length_le_of_holds {lim : Limits} {fs : FileSystem} {filename : Bytes} {file : InFile}
    {response r : HTTPResponse} (hopen : fs.openIn (cString filename) = some file)
    (hread : readPage lim fs filename response = .ok r) (hfile : file.Holds r.mBody) :
    r.mBody.length ≤ lim.maxSize := by
  rw [← hfile.toSizeT_endPos]
  exact (readPage_ok_iff lim fs filename response).mp ⟨r, hread⟩ file hopen

/-- The status of a response. -/
theorem mStatus_of_route {lim : Limits} {fs : FileSystem} {cwd : Bytes} {request : HTTPRequest}
    {r : HTTPResponse} {uninitialised : Int} (hcwd : fs.currentPath = .ok cwd)
    (hroute : route lim fs uninitialised request = .ok r) :
    r.mStatus = statusOf fs cwd request.mPath := by
  rw [route_eq hcwd] at hroute
  split at hroute
  next => cases hroute
  next => exact mStatus_of_readPage hroute

/-! ## Status and page -/

/-- **Status and page agree**: the router returns a response, its status is 200 only when the `index.html`
of the directory that was asked for was opened and its content is the body, and otherwise its status is 404
and its body the content of the page of `404` if that page can be read. -/
def StatusAgrees (lim : Limits) (fs : FileSystem) (cwd : Bytes) (uninitialised : Int)
    (request : HTTPRequest) : Prop :=
  ∃ r, route lim fs uninitialised request = .ok r ∧
    (r.mStatus = http200 →
      fs.status (cString (pathOf cwd request.mPath)) = .directory ∧
        cString (pageOf fs cwd request.mPath) = filenameOf (cString (pathOf cwd request.mPath)) ∧
        ∃ file, fs.openIn (cString (pageOf fs cwd request.mPath)) = some file ∧ file.Holds r.mBody) ∧
    (r.mStatus ≠ http200 →
      r.mStatus = http404 ∧
        ∀ file content, fs.openIn (cString (filenameOf (pathOf cwd notFoundPath))) = some file →
          file.Holds content → r.mBody = content)

section Status

variable {lim : Limits} {fs : FileSystem} {cwd : Bytes} {request : HTTPRequest}

/-- For a path that is a directory: its page has to be read. -/
theorem statusAgrees_directory (hcwd : fs.currentPath = .ok cwd)
    (hdir : fs.status (cString (pathOf cwd request.mPath)) = .directory) (uninitialised : Int) :
    StatusAgrees lim fs cwd uninitialised request ↔
      (0 : UInt8) ∉ pathOf cwd request.mPath ∧
        ∃ file content, fs.openIn (cString (filenameOf (pathOf cwd request.mPath))) = some file ∧
          file.Holds content ∧ content.length ≤ lim.maxSize := by
  have hroute : route lim fs uninitialised request = _ := route_eq hcwd uninitialised request
  have hpage : pageOf fs cwd request.mPath = filenameOf (pathOf cwd request.mPath) := if_pos hdir
  have hstatus : statusOf fs cwd request.mPath = http200 := if_pos hdir
  rw [if_neg (by rw [hdir]; decide), hpage, hstatus] at hroute
  unfold StatusAgrees
  rw [hroute, hpage]
  constructor
  · rintro ⟨r, hread, hok, -⟩
    have hr : r.mStatus = http200 := mStatus_of_readPage hread
    -- the name that was opened is the page's, so nothing was cut off at a NUL
    obtain ⟨-, hname, file, hopen, hfile⟩ := hok hr
    exact ⟨(cString_filenameOf_eq_iff _).mp hname, file, r.mBody, hopen, hfile,
      length_le_of_holds hopen hread hfile⟩
  · rintro ⟨hnul, file, content, hopen, hfile, hlen⟩
    refine ⟨_, readPage_of_holds hopen hfile hlen _, ?_, ?_⟩
    · intro _
      exact ⟨hdir, (cString_filenameOf_eq_iff _).mpr hnul, file, hopen, hfile⟩
    · intro hne
      exact absurd rfl hne

/-- For any other path: the page of `404` has to fit into a string. -/
theorem statusAgrees_other (hcwd : fs.currentPath = .ok cwd)
    (hanswer : fs.status (cString (pathOf cwd request.mPath)) ≠ .error)
    (hdir : fs.status (cString (pathOf cwd request.mPath)) ≠ .directory) (uninitialised : Int) :
    StatusAgrees lim fs cwd uninitialised request ↔
      ∀ file, fs.openIn (cString (filenameOf (pathOf cwd notFoundPath))) = some file →
        toSizeT file.endPos ≤ lim.maxSize := by
  have hroute : route lim fs uninitialised request = _ := route_eq hcwd uninitialised request
  have hpage : pageOf fs cwd request.mPath = filenameOf (pathOf cwd notFoundPath) := if_neg hdir
  have hstatus : statusOf fs cwd request.mPath = http404 := if_neg hdir
  rw [if_neg hanswer, hpage, hstatus] at hroute
  rw [← readPage_ok_iff lim fs _ ((HTTPResponse.construct uninitialised).setStatus http404)]
  unfold StatusAgrees
  rw [hroute]
  constructor
  · rintro ⟨r, hread, -⟩
    exact ⟨r, hread⟩
  · rintro ⟨r, hread⟩
    have hr : r.mStatus = http404 := mStatus_of_readPage hread
    have hne : r.mStatus ≠ http200 := by
      rw [hr]
      decide
    refine ⟨r, hread, fun h => absurd h hne, fun _ => ⟨hr, ?_⟩⟩
    intro file content hopen hfile
    -- the page was resized to, so it fits, and then it is read as a whole
    have hlen := (readPage_ok_iff lim fs _ _).mp ⟨r, hread⟩ file hopen
    rw [hfile.toSizeT_endPos] at hlen
    rw [readPage_of_holds hopen hfile hlen] at hread
    cases hread
    rfl

/-- **When status and page agree**, for a path whose queries do not throw: it is a directory, there is no
NUL in it, and its page can be opened and read and fits into a string; or it is none, and the page of `404`
fits into a string if it can be opened. -/
theorem statusAgrees_iff (hcwd : fs.currentPath = .ok cwd)
    (hanswer : fs.status (cString (pathOf cwd request.mPath)) ≠ .error) (uninitialised : Int) :
    StatusAgrees lim fs cwd uninitialised request ↔
      (fs.status (cString (pathOf cwd request.mPath)) = .directory ∧
        (0 : UInt8) ∉ pathOf cwd request.mPath ∧
        ∃ file content, fs.openIn (cString (filenameOf (pathOf cwd request.mPath))) = some file ∧
          file.Holds content ∧ content.length ≤ lim.maxSize) ∨
      (fs.status (cString (pathOf cwd request.mPath)) ≠ .directory ∧
        ∀ file, fs.openIn (cString (filenameOf (pathOf cwd notFoundPath))) = some file →
          toSizeT file.endPos ≤ lim.maxSize) := by
  by_cases hdir : fs.status (cString (pathOf cwd request.mPath)) = .directory
  · rw [statusAgrees_directory hcwd hdir]
    simp [hdir]
  · rw [statusAgrees_other hcwd hanswer hdir]
    simp [hdir]

end Status

/-- A document root with a main page and nothing else. -/
def smallRoot : FileSystem where
  currentPath := .ok (ofText "/srv")
  status path :=
    if path = ofText "/srv/http_root" ∨ path = ofText "/srv/http_root/" then .directory else .notFound
  openIn path :=
    if path = ofText "/srv/http_root/index.html" ∨ path = ofText "/srv/http_root//index.html" then
      some (openEntry (.file (ofText "hi")))
    else none

theorem openIn_smallRoot {path : Bytes}
    (h : path = ofText "/srv/http_root/index.html" ∨ path = ofText "/srv/http_root//index.html") :
    smallRoot.openIn path = some (openEntry (.file (ofText "hi"))) := if_pos h

/-- A request for this path. -/
def requestFor (mPath : Bytes) : HTTPRequest := ⟨ofText "GET", mPath, ∅, []⟩

/-- The main page is answered with 200 and its content. -/
theorem statusAgrees_iff_mainPage :
    StatusAgrees intLimits smallRoot (ofText "/srv") 0 (requestFor (ofText "/")) := by
  have hpage : (ofText "hi").length = 2 := by decide
  have hfile : (openEntry (.file (ofText "hi"))).Holds (ofText "hi") :=
    openEntry_holds (by rw [hpage]; decide)
  have hcwd : smallRoot.currentPath = .ok (ofText "/srv") := rfl
  refine (statusAgrees_iff hcwd (by decide) 0).mpr
    (.inl ⟨by decide, by decide, _, ofText "hi", openIn_smallRoot (by decide), hfile, ?_⟩)
  rw [hpage]
  decide

/-- **Success without a page**: an empty directory is answered with 200 and an empty body. -/
theorem status_disagrees :
    ¬ ∀ (lim : Limits) (fs : FileSystem) (cwd : Bytes) (uninitialised : Int) (request : HTTPRequest),
      fs.currentPath = .ok cwd → fs.status (cString (pathOf cwd request.mPath)) ≠ .error →
      StatusAgrees lim fs cwd uninitialised request := by
  intro hall
  have hstatus : emptyRoot.status (cString (pathOf (ofText "/srv") (ofText "/"))) = .directory := by
    decide
  obtain ⟨r, hroute, hok, -⟩ := hall intLimits emptyRoot (ofText "/srv") 0 (requestFor (ofText "/")) rfl
    (by rw [requestFor, hstatus]; decide)
  have hr : r.mStatus = statusOf emptyRoot (ofText "/srv") (ofText "/") :=
    mStatus_of_route rfl hroute
  obtain ⟨-, -, file, hopen, -⟩ := hok (hr.trans (if_pos hstatus))
  -- there is no page to open
  cases hopen

/-! ## A request without a path -/

/-- The response to these bytes. -/
def answerTo (lim : Limits) (fs : FileSystem) (uninitialised : Int) (raw : Bytes) :
    Except Exn HTTPResponse := do
  let client_request ← parse lim raw
  route lim fs uninitialised client_request

/-- The first line of a request, without its LF. -/
def requestLine (raw : Bytes) : Bytes := raw.takeWhile (· ≠ lf)

theorem firstLine_snd_eq_nil_iff (line : Bytes) :
    (firstLine line).2 = [] ↔ (words line).length < 2 := by
  unfold firstLine
  split
  next => exact extractToken_extractToken_eq_nil_iff line
  next hlone =>
    rw [not_not.mp hlone]
    exact iff_of_true rfl (by decide)

/-- **When the path of a request is empty**: its first line has less than two words. -/
theorem methodAndPath_snd_eq_nil_iff (raw : Bytes) :
    (methodAndPath raw).2 = [] ↔ (words (requestLine raw)).length < 2 := by
  by_cases hraw : raw = []
  · subst hraw
    exact iff_of_true rfl (by decide)
  · obtain ⟨p, hp, hline⟩ := Option.map_eq_some_iff.mp (head?_lines (c := lf) hraw)
    rw [methodAndPath, hp]
    show (firstLine p.1).2 = [] ↔ _
    rw [hline]
    exact firstLine_snd_eq_nil_iff _

/-- **When a request without a path is not answered with success**: the document root is no directory,
or handling the request throws, because the length it announces cannot be read or because the page does
not fit into a string. -/
theorem malformed_iff {lim : Limits} {fs : FileSystem} {cwd raw : Bytes}
    (hcwd : fs.currentPath = .ok cwd) (hline : (words (requestLine raw)).length < 2)
    (uninitialised : Int) :
    (∀ r, answerTo lim fs uninitialised raw = .ok r → r.mStatus ≠ http200) ↔
      fs.status (cString (pathOf cwd [])) ≠ .directory ∨ ¬ LengthReadable raw ∨
        ∃ file, fs.openIn (cString (filenameOf (pathOf cwd []))) = some file ∧
          lim.maxSize < toSizeT file.endPos := by
  have hpath := (methodAndPath_snd_eq_nil_iff raw).mpr hline
  have hok := parse_ok_iff lim raw
  unfold answerTo
  -- `parse` throws exactly when the announced length cannot be read
  rcases hparse : parse lim raw with exn | request
  · have hlength : ¬ LengthReadable raw := by
      intro hread
      obtain ⟨request, h⟩ := hok.mpr hread
      rw [hparse] at h
      cases h
    simp [hlength, bind, Except.bind]
  · have hlength : LengthReadable raw := hok.mp ⟨request, hparse⟩
    have hmPath : request.mPath = [] := (mPath_of_parse hparse).trans hpath
    have hreturns := route_ok_iff lim fs uninitialised request
    rw [hmPath] at hreturns
    show (∀ r, route lim fs uninitialised request = .ok r → r.mStatus ≠ http200) ↔ _
    -- without a path, the document root itself is asked for
    by_cases hdir : fs.status (cString (pathOf cwd [])) = .directory
    · have hpage : pageOf fs cwd [] = filenameOf (pathOf cwd []) := if_pos hdir
      have hsuccess : ∀ r, route lim fs uninitialised request = .ok r → r.mStatus = http200 := by
        intro r hr
        rw [mStatus_of_route hcwd hr, hmPath]
        exact if_pos hdir
      constructor
      · intro hall
        refine .inr (.inr ?_)
        by_contra hfits
        push Not at hfits
        obtain ⟨r, hr⟩ := hreturns.mpr ⟨cwd, hcwd, by rw [hdir]; decide, by rwa [hpage]⟩
        exact hall r hr (hsuccess r hr)
      · rintro (hno | hno | ⟨file, hopen, hlarge⟩) r hr
        · exact absurd hdir hno
        · exact absurd hlength hno
        · obtain ⟨cwd', hcwd', -, hfits⟩ := hreturns.mp ⟨r, hr⟩
          rw [hcwd] at hcwd'
          cases hcwd'
          rw [hpage] at hfits
          exact absurd (hfits file hopen) (Nat.not_le.mpr hlarge)
    · have hfailure : statusOf fs cwd [] = http404 := if_neg hdir
      refine iff_of_true ?_ (.inl hdir)
      intro r hr
      rw [mStatus_of_route hcwd hr, hmPath, hfailure]
      decide

/-- A request of one word is answered with 404 where there is no document root. -/
theorem malformed_iff_no_root :
    ¬ ∃ r, answerTo intLimits emptyRoot 0 (ofText "GET") = .ok r ∧ r.mStatus = http200 := by
  have hcwd : emptyRoot.currentPath = .ok (ofText "/srv") := rfl
  rintro ⟨r, hr, hsuccess⟩
  exact (malformed_iff hcwd (by decide) 0).mpr (.inl (by decide)) r hr hsuccess

/-- **A malformed request is answered with success**: no path is no other path than the root's. -/
theorem malformed_succeeds :
    ¬ ∀ (lim : Limits) (fs : FileSystem) (cwd raw : Bytes) (uninitialised : Int),
      fs.currentPath = .ok cwd → fs.existsPath (pathOf cwd []) = .ok true →
      (words (requestLine raw)).length < 2 →
      ∀ r, answerTo lim fs uninitialised raw = .ok r → r.mStatus ≠ http200 := by
  intro hall
  have hnone : lastValue contentLength (headFields (ofText "GET")) = none := by decide
  obtain ⟨request, hparse⟩ := exists_parse_of_none intLimits hnone
  have hmPath : request.mPath = [] := (mPath_of_parse hparse).trans (by decide)
  have hcwd : smallRoot.currentPath = .ok (ofText "/srv") := rfl
  have hdir : smallRoot.status (cString (pathOf (ofText "/srv") [])) = .directory := by decide
  have hreturns : ∃ r, route intLimits smallRoot 0 request = .ok r := by
    refine (route_ok_iff intLimits smallRoot 0 request).mpr ⟨ofText "/srv", rfl, ?_, ?_⟩
    · rw [hmPath, hdir]
      decide
    · intro file hopen
      rw [hmPath] at hopen
      have hpage : smallRoot.openIn (cString (pageOf smallRoot (ofText "/srv") [])) =
          some (openEntry (.file (ofText "hi"))) := openIn_smallRoot (by decide)
      rw [hpage] at hopen
      cases hopen
      decide
  obtain ⟨r, hroute⟩ := hreturns
  have hr : r.mStatus = http200 := by
    rw [mStatus_of_route hcwd hroute, hmPath]
    exact if_pos hdir
  refine hall intLimits smallRoot (ofText "/srv") (ofText "GET") 0 rfl rfl (by decide) r ?_ hr
  rw [answerTo, hparse]
  exact hroute

end Answer

end LinuxNet.Http
