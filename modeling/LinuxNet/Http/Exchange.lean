/-
# LinuxNet.Http.Exchange — does an exchange depend on how the network splits it?

A request arrives in as many `recv` results as the network likes. `handle_client` takes the first of them
for the whole request, answers it with a single `send`, and never asks to be called again
(`serve_eq`). So what the client is told depends on the first chunk alone, and on how much of the response
that one `send` takes.

`exchange_exact_iff` says for which requests, chunks and sends this makes no difference to the client: the
first chunk has the request line up to the end of the path, with no NUL before it, and `send` takes the
whole response; or the chunk cannot be parsed, and no response is sent at all.
-/
import LinuxNet.Http.ConnectionHandler
import LinuxNet.Http.Parser.Decode

namespace LinuxNet.Http.Exchange

open LinuxNet.Lib LinuxNet.Posix LinuxNet.Cpp LinuxNet.Http.Parser LinuxNet.Http.Router
  LinuxNet.Http.ConnectionHandler

/-! ## Chunks and sends -/

/-- **`Arrival w`** — the bytes of a request as successive results of `recv`. -/
structure Arrival (w : WireRequest) where
  chunks : List Bytes
  flatten_eq : chunks.flatten = w.bytes
  size : ∀ chunk ∈ chunks, 1 ≤ chunk.length ∧ chunk.length ≤ messageSize

/-- Call `handle_client` on what arrives for as long as it waits for more; the bytes accepted by `send`. -/
def serve (env : Env) : List Bytes → Except Exn (ClientActivity × Bytes)
  | [] => .ok (.waiting, [])
  | chunk :: chunks => do
    let (activity, accepted) ← handleClient env (.data chunk)
    if activity = .waiting then
      let (activity, more) ← serve env chunks
      return (activity, accepted ++ more)
    else return (activity, accepted)

/-- A `send` that takes everything but the last `short` bytes, and at least one byte. There is one `send` for
each response, so this is every positive partial result. -/
def sendShort (short n : ℕ) : Int := (max 1 (n - short) : ℕ)

/-- **The exchange is exact**: whatever the file system, when `handle_client` has returned `COMPLETED` the
bytes accepted by `send` are the response to the whole request. -/
def ExchangeExact (w : WireRequest) (arrival : Arrival w) (short : ℕ) : Prop :=
  ∀ env : Env, env.send = sendShort short → ∀ accepted,
    serve env arrival.chunks = .ok (.completed, accepted) →
    ∃ request response, parse env.lim w.bytes = .ok request ∧
      route env.lim env.fs env.uninitialised request = .ok response ∧
      accepted = response.toString (env.order response.mHeaders)

/-- The request line up to the end of the path. -/
def target (w : WireRequest) : Bytes := w.method ++ space :: w.path

/-- **The chunk tells the path**: it has the request line up to the end of the path, there is no NUL in
that, and where the chunk ends with the path a NUL follows it in the buffer. -/
def TellsPath (w : WireRequest) (chunk : Bytes) : Prop :=
  (0 : UInt8) ∉ target w ∧
    ((target w).length < chunk.length ∨
      (target w).length = chunk.length ∧ chunk.length < messageSize)

namespace Arrival

variable {w : WireRequest} (arrival : Arrival w)

/-- What the first `recv` returns. -/
def first : Bytes := arrival.chunks.head?.getD []

theorem exists_cons : ∃ chunks, arrival.chunks = arrival.first :: chunks := by
  rcases hchunks : arrival.chunks with _ | ⟨chunk, chunks⟩
  · have hempty := arrival.flatten_eq
    rw [hchunks] at hempty
    have hlen : w.bytes.length = 0 := by
      rw [← hempty]
      rfl
    simp [WireRequest.bytes, WireRequest.requestLine] at hlen
  · exact ⟨chunks, by simp [first, hchunks]⟩

theorem first_prefix : arrival.first <+: w.bytes := by
  obtain ⟨chunks, hchunks⟩ := arrival.exists_cons
  rw [← arrival.flatten_eq, hchunks, List.flatten_cons]
  exact List.prefix_append _ _

theorem first_size : 1 ≤ arrival.first.length ∧ arrival.first.length ≤ messageSize := by
  obtain ⟨chunks, hchunks⟩ := arrival.exists_cons
  apply arrival.size
  rw [hchunks]
  exact List.mem_cons_self

end Arrival

/-! ## Only the first chunk matters -/

/-- **When `handle_client` completes**: the buffer can be parsed, the router answers, and `send` takes
something. -/
theorem respond_completed_iff {env : Env} {received accepted : Bytes} :
    respond env received = .ok (.completed, accepted) ↔
      ∃ request response, parse env.lim (rawRequest env.after received) = .ok request ∧
        route env.lim env.fs env.uninitialised request = .ok response ∧
        0 < env.send (response.toString (env.order response.mHeaders)).length ∧
        accepted = (response.toString (env.order response.mHeaders)).take
          (env.send (response.toString (env.order response.mHeaders)).length).toNat := by
  rw [respond_eq_ok]
  simp only [eq_comm (a := (ClientActivity.completed, accepted)), sent_eq_completed]

/-- `handle_client` never waits. -/
theorem activity_ne_waiting {env : Env} {rc_recv : Received} {r : ClientActivity × Bytes}
    (h : handleClient env rc_recv = .ok r) : r.1 ≠ .waiting := by
  unfold handleClient at h
  split at h
  · obtain rfl := Except.ok.inj h
    show ClientActivity.disconnect ≠ .waiting
    decide
  · obtain ⟨_, response, -, -, rfl⟩ := respond_eq_ok.mp h
    exact sent_ne_waiting env response

/-- **The exchange is over after the first chunk.** -/
theorem serve_eq (env : Env) {chunk : Bytes} (hchunk : 1 ≤ chunk.length) (chunks : List Bytes) :
    serve env (chunk :: chunks) = respond env chunk := by
  have hpos := not_received_nonpos (List.ne_nil_of_length_pos hchunk)
  have hhandle : handleClient env (.data chunk) = respond env chunk := if_neg hpos
  rw [serve]
  cases hr : handleClient env (.data chunk) with
  | error exn =>
      rw [← hhandle, hr]
      rfl
  | ok r =>
      have hne := activity_ne_waiting hr
      rw [← hhandle, hr]
      simp [bind, Except.bind, hne, pure, Except.pure]

/-! ## The path the first chunk tells -/

section Target

variable (w : WireRequest)

theorem bytes_eq_target : ∃ rest, w.bytes = target w ++ space :: rest := by
  refine ⟨ofText "HTTP/1.1" ++
    (crlf ++ (w.headers.flatMap (fun p => WireRequest.fieldLine p ++ crlf) ++ (crlf ++ w.body))), ?_⟩
  simp [WireRequest.bytes, WireRequest.requestLine, target]

theorem lf_notMem_target : lf ∉ target w := by
  have hspace : lf ≠ space := by decide
  simp [target, w.method_token.lf_notMem, w.path_token.lf_notMem, hspace]

/-- What `>>` makes of the method and a word behind it. -/
theorem firstLine_word {word : Bytes} (hword : ∀ b ∈ word, isSpace b = false) :
    firstLine (w.method ++ space :: word) = (w.method, word) := by
  have hspace : isSpace space = true := by decide
  have hlone : w.method ++ space :: word ≠ [cr] := by
    intro h
    have hmem : space ∈ [cr] := by
      rw [← h]
      simp
    exact absurd hmem (by decide)
  rw [firstLine, if_pos hlone, extractToken_append w.method_token.1 w.method_token.2 hspace]
  simp only
  rw [extractToken_space hspace, extractToken_self hword]

end Target

/-- The method and the path are in the bytes before the first LF. -/
theorem methodAndPath_eq_firstLine {raw : Bytes} (hne : raw ≠ []) :
    methodAndPath raw = firstLine (raw.takeWhile (· ≠ lf)) := by
  have h := head?_lines (c := lf) hne
  unfold methodAndPath
  cases hl : (lines lf raw).head? with
  | none =>
      rw [hl] at h
      cases h
  | some p =>
      rw [hl] at h
      rw [← Option.some.inj h]
      rfl

theorem token_subset (s : Bytes) : (extractToken s).1 ⊆ s :=
  List.Subset.trans (List.takeWhile_subset _) (List.dropWhile_suffix _).subset

/-- The path is made of bytes of the text. -/
theorem path_subset (raw : Bytes) : (methodAndPath raw).2 ⊆ raw := by
  rcases eq_or_ne raw [] with rfl | hne
  · exact List.Subset.refl _
  rw [methodAndPath_eq_firstLine hne]
  unfold firstLine
  split
  · -- the second token, of what the first one left of the line
    show (extractToken (extractToken _).2).1 ⊆ raw
    have hrest : (extractToken (raw.takeWhile (· ≠ lf))).2 ⊆ raw.takeWhile (· ≠ lf) :=
      ((List.dropWhile_suffix _).trans (List.dropWhile_suffix _)).subset
    exact List.Subset.trans (token_subset _) (List.Subset.trans hrest (List.takeWhile_subset _))
  · exact List.nil_subset _

/-- Without LF there is a first line and nothing else. -/
theorem of_lf_notMem {raw : Bytes} (hlf : lf ∉ raw) (hne : raw ≠ []) :
    methodAndPath raw = firstLine raw ∧ headFields raw = [] := by
  have hl := lines_of_notMem hlf hne
  constructor
  · rw [methodAndPath, hl]
    rfl
  · rw [headFields, hl]
    rfl

section Chunk

variable {w : WireRequest} {chunk : Bytes}

theorem target_isPrefix (w : WireRequest) : target w <+: w.bytes := by
  obtain ⟨rest, hbytes⟩ := bytes_eq_target w
  rw [hbytes]
  exact List.prefix_append _ _

/-- There is one beginning of the request that long. -/
theorem eq_target_of_length (hstarts : chunk <+: w.bytes) (hlen : (target w).length = chunk.length) :
    chunk = target w :=
  ((List.prefix_of_prefix_length_le (target_isPrefix w) hstarts hlen.le).eq_of_length hlen).symm

/-- The chunk goes on behind the path, with the space that follows it. -/
theorem path_of_longer (hstarts : chunk <+: w.bytes) (hnul : (0 : UInt8) ∉ target w)
    (hlong : (target w).length < chunk.length) (after : Bytes) :
    (methodAndPath (rawRequest after chunk)).2 = w.path := by
  obtain ⟨rest, hbytes⟩ := bytes_eq_target w
  have hwhole : target w ++ [space] <+: w.bytes := by
    rw [hbytes]
    exact ⟨rest, by simp⟩
  have hstart : target w ++ [space] <+: chunk := by
    apply List.prefix_of_prefix_length_le hwhole hstarts
    simp only [List.length_append, List.length_singleton]
    omega
  obtain ⟨more, rfl⟩ := hstart
  have hsp : (0 : UInt8) ∉ target w ++ [space] := by
    rw [List.mem_append, not_or]
    exact ⟨hnul, by decide⟩
  rw [rawRequest, bufferOf, List.append_assoc, List.append_assoc, cString_append hsp]
  set tail := cString (more ++ (List.replicate
    (messageSize - (target w ++ [space] ++ more).length) 0 ++ after)) with htail
  have hne : target w ++ [space] ++ tail ≠ [] := by simp
  have hline : (target w ++ [space] ++ tail).takeWhile (· ≠ lf) =
      target w ++ space :: tail.takeWhile (· ≠ lf) := by
    have hall : ∀ b ∈ target w ++ [space], decide (b ≠ lf) = true := by
      intro b hb
      rw [decide_eq_true_eq]
      rintro rfl
      rcases List.mem_append.mp hb with hb | hb
      · exact lf_notMem_target w hb
      · exact absurd hb (by decide)
    rw [List.takeWhile_append_of_pos hall, List.append_assoc]
    rfl
  rw [methodAndPath_eq_firstLine hne, hline, target, List.append_assoc, List.cons_append,
    firstLine_tokens w.method_token w.path_token (by decide)]

/-- The chunk ends with the path, and the buffer has a NUL behind it. -/
theorem path_of_target (hnul : (0 : UInt8) ∉ target w) (hlt : (target w).length < messageSize)
    (after : Bytes) : (methodAndPath (rawRequest after (target w))).2 = w.path := by
  have hne : target w ≠ [] := by simp [target]
  rw [rawRequest_of_lt hlt, cString_of_notMem hnul, (of_lf_notMem (lf_notMem_target w) hne).1, target,
    firstLine_word w w.path_token.2]

/-- **A chunk that tells the path** makes the parser find it, whatever is behind the buffer. -/
theorem path_of_tellsPath (hstarts : chunk <+: w.bytes) (htells : TellsPath w chunk) (after : Bytes) :
    (methodAndPath (rawRequest after chunk)).2 = w.path := by
  obtain ⟨hnul, hlong | ⟨hlen, hlt⟩⟩ := htells
  · exact path_of_longer hstarts hnul hlong after
  · obtain rfl := eq_target_of_length hstarts hlen
    exact path_of_target hnul hlt after

end Chunk

/-- A single token is a method without a path. -/
theorem path_of_token {raw : Bytes} (htoken : ∀ b ∈ raw, isSpace b = false) :
    (firstLine raw).2 = [] := by
  have hlone : raw ≠ [cr] := by
    rintro rfl
    have hcr := htoken cr (by simp)
    revert hcr
    decide
  rw [firstLine, if_pos hlone, extractToken_self htoken]
  rfl

/-- Less than the request line up to the end of the path has another path, or none. -/
theorem path_of_short {w : WireRequest} {raw rest : Bytes} (hraw : raw ++ rest = target w)
    (hrest : rest ≠ []) : headFields raw = [] ∧ (methodAndPath raw).2 ≠ w.path := by
  have hlf : lf ∉ raw := by
    intro hmem
    apply lf_notMem_target w
    rw [← hraw]
    exact List.mem_append_left _ hmem
  rcases eq_or_ne raw [] with rfl | hne
  · refine ⟨rfl, fun h => w.path_token.1 ?_⟩
    rw [← h]
    rfl
  obtain ⟨hpath, hfields⟩ := of_lf_notMem hlf hne
  refine ⟨hfields, ?_⟩
  rw [hpath]
  -- the cut is within the method or behind it
  rcases List.append_eq_append_iff.mp hraw with ⟨cut, hmethod, -⟩ | ⟨cut, hword, hcut⟩
  · have htoken : ∀ b ∈ raw, isSpace b = false := fun b hb =>
      w.method_token.2 b (by rw [hmethod]; exact List.mem_append_left _ hb)
    rw [path_of_token htoken]
    exact w.path_token.1.symm
  · rcases cut with _ | ⟨b, word⟩
    · rw [List.append_nil] at hword
      rw [hword, path_of_token w.method_token.2]
      exact w.path_token.1.symm
    · obtain ⟨rfl, hpath⟩ := List.cons.inj hcut
      have hin : ∀ b ∈ word, isSpace b = false := fun b hb =>
        w.path_token.2 b (by rw [hpath]; exact List.mem_append_left _ hb)
      rw [hword, firstLine_word w hin, hpath]
      intro h
      exact hrest (List.self_eq_append_right.mp h)

/-- The path fills the buffer to its end, and goes on behind it. -/
theorem path_ne_of_overrun {w : WireRequest} (hnul : (0 : UInt8) ∉ target w)
    (hlen : (target w).length = messageSize) :
    headFields (rawRequest [120] (target w)) = [] ∧
      (methodAndPath (rawRequest [120] (target w))).2 ≠ w.path := by
  have hraw : rawRequest [120] (target w) = w.method ++ space :: (w.path ++ [120]) := by
    have hx : cString [120] = [120] := by decide
    rw [rawRequest, bufferOf, hlen, Nat.sub_self, List.replicate_zero, List.append_nil,
      cString_append hnul, hx, target, List.append_assoc, List.cons_append]
  have hlf : lf ∉ w.method ++ space :: (w.path ++ [120]) := by
    have hout := lf_notMem_target w
    have hx : lf ≠ 120 := by decide
    simp only [target, List.mem_append, List.mem_cons, List.not_mem_nil, or_false, not_or] at hout ⊢
    exact ⟨hout.1, hout.2.1, hout.2.2, hx⟩
  have hword : ∀ b ∈ w.path ++ [120], isSpace b = false := by
    intro b hb
    rcases List.mem_append.mp hb with hb | hb
    · exact w.path_token.2 b hb
    · rw [List.mem_singleton] at hb
      subst hb
      decide
  obtain ⟨hpath, hfields⟩ := of_lf_notMem hlf (by simp)
  rw [hraw]
  refine ⟨hfields, ?_⟩
  rw [hpath, firstLine_word w hword]
  intro heq
  have hlonger := congrArg List.length heq
  simp at hlonger

/-- What begins the request and does not reach the end of the path has another path, or none. -/
theorem path_ne_of_cut {w : WireRequest} {raw : Bytes} (hstarts : raw <+: w.bytes)
    (hshort : ¬ target w <+: raw) : headFields raw = [] ∧ (methodAndPath raw).2 ≠ w.path := by
  rcases List.prefix_or_prefix_of_prefix hstarts (target_isPrefix w) with ⟨more, hmore⟩ | hin
  · apply path_of_short hmore
    intro hnil
    rw [hnil, List.append_nil] at hmore
    exact hshort (by rw [hmore])
  · exact absurd hin hshort

/-- With a NUL behind the buffer the parser gets no more than the chunk. -/
theorem rawRequest_nul (chunk : Bytes) : rawRequest [0] chunk = cString chunk := by
  have hbuffer : ∃ more, bufferOf chunk ++ [0] = chunk ++ 0 :: more := by
    unfold bufferOf
    rcases messageSize - chunk.length with _ | k
    · exact ⟨[], by simp⟩
    · exact ⟨List.replicate k 0 ++ [0], by simp [List.replicate_succ]⟩
  obtain ⟨more, hmore⟩ := hbuffer
  rw [rawRequest, hmore, cString_append_nul]

/-- **A chunk that does not tell the path** can be followed by memory with which the parser finds another
path, or none, and no header. -/
theorem exists_path_ne {w : WireRequest} {chunk : Bytes} (hstarts : chunk <+: w.bytes)
    (hsize : chunk.length ≤ messageSize) (h : ¬ TellsPath w chunk) :
    ∃ after, headFields (rawRequest after chunk) = [] ∧
      (methodAndPath (rawRequest after chunk)).2 ≠ w.path := by
  by_cases hfull : (0 : UInt8) ∉ target w ∧ (target w).length = chunk.length
  · obtain ⟨hnul, hlen⟩ := hfull
    obtain rfl := eq_target_of_length hstarts hlen
    have hmax : messageSize ≤ (target w).length :=
      Nat.not_lt.mp fun hlt => h ⟨hnul, .inr ⟨hlen, hlt⟩⟩
    exact ⟨[120], path_ne_of_overrun hnul (hsize.antisymm hmax)⟩
  · -- the C string ends before the path does
    refine ⟨[0], ?_⟩
    rw [rawRequest_nul]
    apply path_ne_of_cut ((List.takeWhile_prefix _).trans hstarts)
    intro hin
    have hnul : (0 : UInt8) ∉ target w := fun hmem => nul_notMem_cString chunk (hin.subset hmem)
    have hle : (target w).length ≤ chunk.length := (hin.trans (List.takeWhile_prefix _)).length_le
    rcases Nat.lt_or_eq_of_le hle with hlt | heq
    · exact h ⟨hnul, .inl hlt⟩
    · exact hfull ⟨hnul, heq⟩

/-! ## What the client is told -/

/-- The router looks at nothing of a request but its path. -/
theorem route_congr {lim : Limits} {fs : FileSystem} {uninitialised : Int} {r₁ r₂ : HTTPRequest}
    (h : r₁.mPath = r₂.mPath) : route lim fs uninitialised r₁ = route lim fs uninitialised r₂ := by
  unfold route
  rw [h]

/-- A response begins with the version and a space, and then has its status. -/
theorem getElem?_toString (response : HTTPResponse) (order : IterationOrder response.mHeaders) :
    (response.toString order)[9]? = (intText response.mStatus)[0]? := by
  have hlen : (ofText "HTTP/1.1 ").length = 9 := by decide
  have hpos : 0 < (intText response.mStatus).length :=
    List.length_pos_iff.mpr (intText_ne_nil response.mStatus)
  rw [HTTPResponse.toString]
  simp only [List.append_assoc]
  rw [List.getElem?_append_right hlen.le, hlen, Nat.sub_self, List.getElem?_append_left hpos]

/-- Responses with different statuses differ in the first digit of it. -/
theorem take_toString_ne {r₁ r₂ : HTTPResponse} (h₁ : r₁.mStatus = http200) (h₂ : r₂.mStatus = http404)
    (order₁ : IterationOrder r₁.mHeaders) (order₂ : IterationOrder r₂.mHeaders) (n : ℕ) :
    (r₁.toString order₁).take n ≠ r₂.toString order₂ := by
  intro h
  have h200 : (intText http200)[0]? = some 50 := by decide
  have h404 : (intText http404)[0]? = some 52 := by decide
  have hdigit : ((r₁.toString order₁).take n)[9]? = (r₂.toString order₂)[9]? := by rw [h]
  rw [List.getElem?_take, getElem?_toString, getElem?_toString, h₁, h₂, h200, h404] at hdigit
  split at hdigit
  · exact absurd hdigit (by decide)
  · cases hdigit

theorem length_toString_pos (response : HTTPResponse) (order : IterationOrder response.mHeaders) :
    2 ≤ (response.toString order).length := by
  have hlen : (ofText "HTTP/1.1 ").length = 9 := by decide
  rw [HTTPResponse.toString]
  simp only [List.length_append, hlen]
  omega

/-- A file system where nothing is found. -/
def nothing : FileSystem where
  currentPath := .ok []
  status _ := .notFound
  openIn _ := none

/-- A directory opened as a file: it ends nowhere, and cannot be read. -/
def unreadable : InFile where
  endPos := -1
  read _ := none
  read_length := nofun

/-- A file system with one directory. -/
def oneDir (dir : Bytes) : FileSystem where
  currentPath := .ok []
  status path := if path = dir then .directory else .notFound
  openIn path := if path = dir then some unreadable else none

theorem route_nothing (lim : Limits) (uninitialised : Int) (request : HTTPRequest) :
    route lim nothing uninitialised request =
      .ok ((HTTPResponse.construct uninitialised).setStatus http404) := rfl

/-- The one directory is answered without a body. -/
theorem route_oneDir_self (lim : Limits) (uninitialised : Int) {request : HTTPRequest}
    (hnul : (0 : UInt8) ∉ pathOf [] request.mPath) :
    route lim (oneDir (pathOf [] request.mPath)) uninitialised request =
      .ok ((HTTPResponse.construct uninitialised).setStatus http200) := by
  have hpage : (0 : UInt8) ∉ filenameOf (pathOf [] request.mPath) := by
    rw [filenameOf, List.mem_append, not_or]
    exact ⟨hnul, by decide⟩
  have hne : filenameOf (pathOf [] request.mPath) ≠ pathOf [] request.mPath := by
    intro h
    have hlen := congrArg List.length h
    simp [filenameOf] at hlen
  have hstatus : (oneDir (pathOf [] request.mPath)).status (cString (pathOf [] request.mPath)) =
      .directory := by
    rw [cString_of_notMem hnul]
    exact if_pos rfl
  have hopen : (oneDir (pathOf [] request.mPath)).openIn
      (cString (filenameOf (pathOf [] request.mPath))) = none := by
    rw [cString_of_notMem hpage]
    exact if_neg hne
  have hcwd : (oneDir (pathOf [] request.mPath)).currentPath = .ok [] := rfl
  have hno : FileStatus.directory ≠ .error := by decide
  rw [route_eq hcwd, pageOf, statusOf, hstatus, if_neg hno, if_pos rfl, if_pos rfl, readPage, hopen]

/-- Any other path is answered with 404, if at all. -/
theorem route_oneDir_ne (lim : Limits) (uninitialised : Int) {path : Bytes} {request : HTTPRequest}
    (hne : path ≠ request.mPath) {response : HTTPResponse}
    (h : route lim (oneDir (pathOf [] path)) uninitialised request = .ok response) :
    response.mStatus = http404 := by
  have hcwd : (oneDir (pathOf [] path)).currentPath = .ok [] := rfl
  rw [route_eq hcwd] at h
  by_cases hsame : cString (pathOf [] request.mPath) = pathOf [] path
  · -- the same path up to a NUL: then the page is the directory itself
    have hmem : (0 : UInt8) ∈ pathOf [] request.mPath := by
      by_contra hnot
      rw [cString_of_notMem hnot] at hsame
      have hcancel := List.append_cancel_left (List.cons.inj hsame).2
      exact hne hcancel.symm
    have hstatus : (oneDir (pathOf [] path)).status (cString (pathOf [] request.mPath)) =
        .directory := if_pos hsame
    have hopen : (oneDir (pathOf [] path)).openIn (cString (filenameOf (pathOf [] request.mPath))) =
        some unreadable := by
      rw [filenameOf, cString_append_of_mem hmem]
      exact if_pos hsame
    have hsize : lim.maxSize < toSizeT unreadable.endPos :=
      maxSize_lt_toSizeT lim (by decide) (by decide)
    have hresize : resize lim [] (toSizeT unreadable.endPos) = .error .lengthError :=
      resize_error [] hsize
    have hno : FileStatus.directory ≠ .error := by decide
    rw [pageOf, hstatus, if_neg hno, if_pos rfl, readPage, hopen] at h
    simp only [hresize] at h
    cases h
  · have hstatus : (oneDir (pathOf [] path)).status (cString (pathOf [] request.mPath)) =
        .notFound := if_neg hsame
    have hno : FileStatus.notFound ≠ .error := by decide
    have hdir : FileStatus.notFound ≠ .directory := by decide
    rw [statusOf, hstatus, if_neg hno, if_neg hdir] at h
    exact mStatus_of_readPage h

/-! ## When the exchange is exact -/

theorem toNat_sendShort (short n : ℕ) : (sendShort short n).toNat = max 1 (n - short) := rfl

theorem sendShort_pos (short n : ℕ) : 0 < sendShort short n := by
  unfold sendShort
  omega

/-- A process with this file system and memory behind the buffer, whose `send` leaves `short` bytes. -/
def envOf (order : ∀ headers : Headers, IterationOrder headers) (fs : FileSystem) (after : Bytes)
    (short : ℕ) : Env where
  lim := intLimits
  fs := fs
  uninitialised := 0
  order := order
  after := after
  send := sendShort short

section Exact

variable {w : WireRequest} {arrival : Arrival w} {short : ℕ}

/-- **A first chunk that tells the path, and a `send` that takes everything**: the client is told what it
would have been told without the network. -/
theorem exact_of_tellsPath (htells : TellsPath w arrival.first)
    (h : short = 0 ∧ w.body.length ≤ 2 ^ 31 - 1 ∨
      ∀ after, ¬ LengthReadable (rawRequest after arrival.first)) :
    ExchangeExact w arrival short := by
  intro env hsend accepted hserve
  obtain ⟨chunks, hchunks⟩ := arrival.exists_cons
  rw [hchunks, serve_eq env arrival.first_size.1] at hserve
  obtain ⟨request, response, hparse, hroute, -, haccepted⟩ := respond_completed_iff.mp hserve
  rcases h with ⟨rfl, hlen⟩ | hbad
  · have hpath : request.mPath = w.path := by
      rw [mPath_of_parse hparse, path_of_tellsPath arrival.first_prefix htells]
    have hwhole : parse env.lim w.bytes = .ok w.request := w.parse_bytes_self env.lim hlen
    have hsame : route env.lim env.fs env.uninitialised w.request = .ok response := by
      rw [← hroute]
      exact route_congr hpath.symm
    refine ⟨w.request, response, hwhole, hsame, ?_⟩
    have hlong := length_toString_pos response (env.order response.mHeaders)
    have hall : max 1 ((response.toString (env.order response.mHeaders)).length - 0) =
        (response.toString (env.order response.mHeaders)).length := by omega
    rw [haccepted, hsend, toNat_sendShort, hall, List.take_length]
  · exact absurd ((parse_ok_iff env.lim _).mp ⟨request, hparse⟩) (hbad env.after)

/-- What an exact exchange says of one process: when the first chunk is answered, so is the whole request,
with the same bytes. -/
theorem ExchangeExact.whole (hexact : ExchangeExact w arrival short) (env : Env)
    (hsend : env.send = sendShort short) {request : HTTPRequest} {response : HTTPResponse}
    (hparse : parse env.lim (rawRequest env.after arrival.first) = .ok request)
    (hroute : route env.lim env.fs env.uninitialised request = .ok response) :
    ∃ request' response', parse env.lim w.bytes = .ok request' ∧
      route env.lim env.fs env.uninitialised request' = .ok response' ∧
      (response.toString (env.order response.mHeaders)).take
          (max 1 ((response.toString (env.order response.mHeaders)).length - short)) =
        response'.toString (env.order response'.mHeaders) := by
  obtain ⟨chunks, hchunks⟩ := arrival.exists_cons
  apply hexact env hsend
  rw [hchunks, serve_eq env arrival.first_size.1]
  refine respond_completed_iff.mpr ⟨request, response, hparse, hroute, ?_, ?_⟩
  · rw [hsend]
    exact sendShort_pos _ _
  · rw [hsend, toNat_sendShort]

/-- What the parser makes of a C string asks for a path without NUL. -/
theorem nul_notMem_pathOf (after chunk : Bytes) :
    (0 : UInt8) ∉ pathOf [] (methodAndPath (rawRequest after chunk)).2 := by
  have hroot : (0 : UInt8) ∉ slash :: strHttpRootPath := by decide
  have hpath : (0 : UInt8) ∉ (methodAndPath (rawRequest after chunk)).2 := fun hmem =>
    nul_notMem_cString _ (path_subset _ hmem)
  show (0 : UInt8) ∉ (slash :: strHttpRootPath) ++ (methodAndPath (rawRequest after chunk)).2
  rw [List.mem_append, not_or]
  exact ⟨hroot, hpath⟩

/-- **A first chunk that does not tell the path** is answered for another path. -/
theorem tellsPath_of_exact (hexact : ExchangeExact w arrival short) : TellsPath w arrival.first := by
  by_contra hnot
  obtain ⟨after, hfields, hpath⟩ :=
    exists_path_ne arrival.first_prefix arrival.first_size.2 hnot
  obtain ⟨order⟩ : Nonempty (∀ headers : Headers, IterationOrder headers) :=
    IterationOrder.nonempty_forall
  -- the chunk has no header, so it can be parsed
  have hread : LengthReadable (rawRequest after arrival.first) := by
    intro val hval
    rw [hfields] at hval
    cases hval
  obtain ⟨request, hparse⟩ := (parse_ok_iff intLimits _).mpr hread
  have hmPath := mPath_of_parse hparse
  have hnul : (0 : UInt8) ∉ pathOf [] request.mPath := by
    rw [hmPath]
    exact nul_notMem_pathOf after arrival.first
  -- in a file system with its directory and nothing else it is found, and the request is not
  obtain ⟨request', response', hparse', hroute', htaken⟩ :=
    hexact.whole (envOf order (oneDir (pathOf [] request.mPath)) after short) rfl hparse
      (route_oneDir_self _ _ hnul)
  obtain rfl := WireRequest.eq_of_parse hparse'
  have hne : request.mPath ≠ w.request.mPath := by
    rw [hmPath]
    exact hpath
  exact take_toString_ne rfl (route_oneDir_ne _ _ hne hroute') _ _ _ htaken

/-- Only a `send` that leaves nothing takes the whole of what has two bytes or more. -/
theorem short_eq_zero {s : Bytes} (hlong : 2 ≤ s.length) (h : s.take (max 1 (s.length - short)) = s) :
    short = 0 := by
  have hlen := congrArg List.length h
  rw [List.length_take] at hlen
  omega

/-- **A chunk that can be parsed** is answered in full only when `send` takes everything; and the whole
request only when the length of its body is an `int`. -/
theorem short_of_exact (hexact : ExchangeExact w arrival short) {after : Bytes}
    (hread : LengthReadable (rawRequest after arrival.first)) :
    short = 0 ∧ w.body.length ≤ 2 ^ 31 - 1 := by
  obtain ⟨order⟩ : Nonempty (∀ headers : Headers, IterationOrder headers) :=
    IterationOrder.nonempty_forall
  obtain ⟨request, hparse⟩ := (parse_ok_iff intLimits _).mpr hread
  obtain ⟨request', response', hparse', hroute', htaken⟩ :=
    hexact.whole (envOf order nothing after short) rfl hparse (route_nothing _ _ request)
  refine ⟨?_, WireRequest.length_of_parse hparse'⟩
  -- the two responses are the same, so nothing of the first is missing
  have hsame : (HTTPResponse.construct 0).setStatus http404 = response' :=
    Except.ok.inj ((route_nothing _ _ request').symm.trans hroute')
  subst hsame
  exact short_eq_zero (length_toString_pos _ _) htaken

end Exact

/-- **When the exchange is exact**: the first chunk tells the path; and either `send` takes the whole response
and the length of the body is an `int`, or the length announced in the first chunk cannot be read, whatever
is behind the buffer, and the exchange is never completed. -/
theorem exchange_exact_iff (w : WireRequest) (arrival : Arrival w) (short : ℕ) :
    ExchangeExact w arrival short ↔
      TellsPath w arrival.first ∧
        (short = 0 ∧ w.body.length ≤ 2 ^ 31 - 1 ∨
          ∀ after, ¬ LengthReadable (rawRequest after arrival.first)) := by
  constructor
  · intro hexact
    refine ⟨tellsPath_of_exact hexact, ?_⟩
    by_cases h : ∃ after, LengthReadable (rawRequest after arrival.first)
    · obtain ⟨after, hread⟩ := h
      exact .inl (short_of_exact hexact hread)
    · exact .inr (not_exists.mp h)
  · rintro ⟨htells, h⟩
    exact exact_of_tellsPath htells h

/-- The first chunk ends within the path `/a`. -/
def splitArrival : Arrival sampleRequest where
  chunks := [sampleRequest.bytes.take 5, sampleRequest.bytes.drop 5]
  flatten_eq := by simp
  size := by decide

/-- **A request that is cut within its path** is answered for the path `/`, although `send` takes everything. -/
theorem exchange_split :
    ¬ ∀ (w : WireRequest) (arrival : Arrival w) (short : ℕ), ExchangeExact w arrival short := by
  intro hall
  have hexact : ExchangeExact sampleRequest splitArrival 0 := hall sampleRequest splitArrival 0
  rcases (tellsPath_of_exact hexact).2 with hlong | ⟨heq, -⟩
  · exact absurd hlong (by decide)
  · exact absurd heq (by decide)

end LinuxNet.Http.Exchange
