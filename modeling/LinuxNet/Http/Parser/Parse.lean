/-
# LinuxNet.Http.Parser.Parse — `HTTPParser::parse`

The parser reads lines with `getline`, which splits at LF and leaves the CR in the line. The first line
gives the method and the path, its first two tokens. The lines after it are header lines up to the
first one that is a CR and nothing else; each is cut at its first colon, after one CR at its end has
been removed, and one space in front of the value goes too. A body is read only when a `Content-Length`
was seen: the string is resized to that length first and then overwritten by whatever bytes are there.

`parse_eq` reduces the parser to three functions of the raw bytes, which the results about it are
stated with: the first line, the header fields of the head (`headFields`) and the bytes after the head
(`afterHead`).
-/
import LinuxNet.Cpp.Std
import LinuxNet.Lib.LastWins

namespace LinuxNet.Http

open LinuxNet.Lib LinuxNet.Cpp

/-- `std::unordered_map<std::string, std::string>`. -/
abbrev Headers := Finmap fun _ : Bytes => Bytes

structure HTTPRequest where
  mMethod : Bytes
  mPath : Bytes
  mHeaders : Headers
  mBody : Bytes

/-- `"Content-Length"`. -/
def contentLength : Bytes := ofText "Content-Length"

def colon : UInt8 := 58

def space : UInt8 := 32

def crlf : Bytes := [cr, lf]

namespace Parser

/-! ## The parser -/

/-- `iss_first_line >> request.m_method >> request.m_path`, unless the line is a lone CR. -/
def firstLine (line : Bytes) : Bytes × Bytes :=
  if line ≠ [cr] then
    let (method, rest) := extractToken line
    (method, (extractToken rest).1)
  else ([], [])

/-- `if (!line.empty() && line.back() == '\r') line.pop_back();` -/
def popCr (line : Bytes) : Bytes := if line.getLast? = some cr then line.dropLast else line

/-- `if (!val.empty() && val[0] == ' ') val.erase(0, 1);` -/
def eraseSpace (val : Bytes) : Bytes := if val.head? = some space then val.tail else val

/-- The key and the value of a header line; a line without colon has none. -/
def headerField (line : Bytes) : Option (Bytes × Bytes) :=
  (splitFirst colon (popCr line)).map fun p => (p.1, eraseSpace p.2)

/-- The `while` loop over the lines, each given with the bytes unread after it; with the bytes unread
after the loop. -/
def headerLoop : List (Bytes × Bytes) → Headers → Headers × Bytes
  | [], headers => (headers, [])
  | (line, rest) :: more, headers =>
    if line = [cr] then (headers, rest)
    else
      match headerField line with
      | some (key, val) => headerLoop more (headers.insert key val)
      | none => headerLoop more headers

/-- `iss.read(&body[0], n)` with the bytes `rest` left in the stream. -/
def readInto (body : Bytes) (n : ℕ) (rest : Bytes) : Bytes := rest.take n ++ body.drop (rest.take n).length

/-- `m_body`, from the headers and the bytes after the head. -/
def readBody (lim : Limits) (headers : Headers) (rest : Bytes) : Except Exn Bytes :=
  match headers.lookup contentLength with
  | none => .ok []
  | some val => do
    let body_length := toSizeT (← stoi val)
    let body ← resize lim [] body_length
    return readInto body body_length rest

/-- **`HTTPParser::parse`.** -/
def parse (lim : Limits) (raw_request : Bytes) : Except Exn HTTPRequest := do
  let (method, path) := match lines lf raw_request with
    | [] => ([], [])
    | (line, _) :: _ => firstLine line
  let (headers, rest) := headerLoop (lines lf raw_request).tail ∅
  let body ← readBody lim headers rest
  return { mMethod := method, mPath := path, mHeaders := headers, mBody := body }

/-! ## The parts of a request -/

/-- The method and the path. -/
def methodAndPath (raw : Bytes) : Bytes × Bytes := (lines lf raw).head?.elim ([], []) fun p => firstLine p.1

/-- The fields of the header lines among these lines: those before the first lone CR. -/
def fieldsOf (ls : List (Bytes × Bytes)) : List (Bytes × Bytes) :=
  (ls.takeWhile (·.1 ≠ [cr])).filterMap fun p => headerField p.1

/-- The bytes after the first lone CR. -/
def restOf (ls : List (Bytes × Bytes)) : Bytes := (ls.find? (·.1 = [cr])).elim [] Prod.snd

/-- The header fields of a request, in the order of its lines. -/
def headFields (raw : Bytes) : List (Bytes × Bytes) := fieldsOf (lines lf raw).tail

/-- The bytes of a request after its head. -/
def afterHead (raw : Bytes) : Bytes := restOf (lines lf raw).tail

section Lines

variable {line : Bytes} (rest : Bytes) (ls : List (Bytes × Bytes))

theorem fieldsOf_cons (h : line ≠ [cr]) :
    fieldsOf ((line, rest) :: ls) = (headerField line).toList ++ fieldsOf ls := by
  cases hfield : headerField line <;> simp [fieldsOf, h, hfield]

theorem restOf_cons (h : line ≠ [cr]) : restOf ((line, rest) :: ls) = restOf ls := by
  simp [restOf, h]

@[simp] theorem fieldsOf_lone : fieldsOf (([cr], rest) :: ls) = [] := by simp [fieldsOf]

@[simp] theorem restOf_lone : restOf (([cr], rest) :: ls) = rest := by simp [restOf]

end Lines

theorem headerLoop_eq (ls : List (Bytes × Bytes)) (headers : Headers) :
    headerLoop ls headers = (assign headers (fieldsOf ls), restOf ls) := by
  induction ls generalizing headers with
  | nil => rfl
  | cons p ls ih =>
      obtain ⟨line, rest⟩ := p
      rw [headerLoop]
      by_cases hline : line = [cr]
      · rw [if_pos hline, hline, fieldsOf_lone, restOf_lone]
        rfl
      · rw [if_neg hline, fieldsOf_cons rest ls hline, restOf_cons rest ls hline]
        cases headerField line with
        | none => exact ih headers
        | some field => exact ih (headers.insert field.1 field.2)

/-- **What the parser computes**, in terms of the parts of the request. -/
theorem parse_eq (lim : Limits) (raw : Bytes) :
    parse lim raw = (readBody lim (assign ∅ (headFields raw)) (afterHead raw)).map fun body =>
      { mMethod := (methodAndPath raw).1
        mPath := (methodAndPath raw).2
        mHeaders := assign ∅ (headFields raw)
        mBody := body } := by
  have hfirst : (match lines lf raw with
      | [] => (([], []) : Bytes × Bytes)
      | (line, _) :: _ => firstLine line) = methodAndPath raw := by
    unfold methodAndPath
    cases lines lf raw <;> rfl
  rw [parse, hfirst, headerLoop_eq]
  rfl

/-! ## Reading the body -/

section ReadBody

variable (lim : Limits) {headers : Headers} {val : Bytes}

theorem readBody_none (h : headers.lookup contentLength = none) (rest : Bytes) :
    readBody lim headers rest = .ok [] := by
  rw [readBody, h]

theorem readBody_error (h : headers.lookup contentLength = some val) {exn : Exn}
    (hval : stoi val = .error exn) (rest : Bytes) : readBody lim headers rest = .error exn := by
  rw [readBody, h]
  simp only [hval]
  rfl

/-- A negative length becomes a size no string can have. -/
theorem readBody_neg (h : headers.lookup contentLength = some val) {n : Int}
    (hval : stoi val = .ok n) (hn : n < 0) (rest : Bytes) :
    readBody lim headers rest = .error .lengthError := by
  have hlow : -2 ^ 63 ≤ n := by
    have := (stoi_range hval).1
    omega
  have hsize : lim.maxSize < toSizeT n := maxSize_lt_toSizeT lim hn hlow
  have hresize : resize lim [] (toSizeT n) = .error .lengthError := resize_error [] hsize
  rw [readBody, h]
  simp only [hval, bind, Except.bind, hresize]

/-- **The body has the announced length**: the bytes that are there, and zeros for those that are not. -/
theorem readBody_nat (h : headers.lookup contentLength = some val) {n : ℕ}
    (hval : stoi val = .ok n) (rest : Bytes) :
    readBody lim headers rest = .ok (rest.take n ++ List.replicate (n - rest.length) 0) := by
  have hint : n ≤ 2 ^ 31 - 1 := by
    have := (stoi_range hval).2
    omega
  have hmax := lim.intMax_le
  have hsize : toSizeT n = n := toSizeT_natCast (by omega)
  have hresize : resize lim [] n = .ok (List.replicate n 0) := resize_nil (by omega)
  have hdrop : n - min n rest.length = n - rest.length := by omega
  rw [readBody, h]
  simp only [hval, bind, Except.bind, hsize, hresize, readInto, pure, Except.pure]
  rw [List.drop_replicate, List.length_take, hdrop]

/-- A body that is as long as announced is read as it is, whatever follows it. -/
theorem readBody_self {body : Bytes} (h : headers.lookup contentLength = some val)
    (hval : stoi val = .ok body.length) (tail : Bytes) :
    readBody lim headers (body ++ tail) = .ok body := by
  have hlong : body.length - (body ++ tail).length = 0 := by
    rw [List.length_append]
    omega
  rw [readBody_nat lim h hval, hlong, List.take_left, List.replicate_zero, List.append_nil]

/-- **When the body can be read**: there is no `Content-Length`, or it is a number that is not negative. -/
theorem readBody_ok_iff (rest : Bytes) :
    (∃ body, readBody lim headers rest = .ok body) ↔
      ∀ val, headers.lookup contentLength = some val → ∃ n : ℕ, stoi val = .ok n := by
  cases h : headers.lookup contentLength with
  | none => simp [readBody_none lim h]
  | some val =>
      cases hval : stoi val with
      | error exn => simp [readBody_error lim h hval, hval]
      | ok n =>
          by_cases hn : n < 0
          · have hno : ∀ m : ℕ, n ≠ m := by
              intro m
              omega
            simp [readBody_neg lim h hval hn, hval, hno]
          · obtain ⟨m, rfl⟩ := Int.eq_ofNat_of_zero_le (Int.not_lt.mp hn)
            simp [readBody_nat lim h hval, hval]

end ReadBody

/-- **When the parser returns**: the last `Content-Length` field of the head, if there is one, starts
with a number that is an `int` and not negative. -/
theorem parse_ok_iff (lim : Limits) (raw : Bytes) :
    (∃ request, parse lim raw = .ok request) ↔
      ∀ val, lastValue contentLength (headFields raw) = some val → ∃ n : ℕ, stoi val = .ok n := by
  have hlookup : (assign ∅ (headFields raw)).lookup contentLength =
      lastValue contentLength (headFields raw) := by
    rw [lookup_assign, Finmap.lookup_empty, Option.or_none]
  rw [← hlookup, ← readBody_ok_iff lim (afterHead raw), parse_eq]
  cases readBody lim (assign ∅ (headFields raw)) (afterHead raw) <;> simp [Except.map]

/-- Without a `Content-Length` the parser returns. -/
theorem exists_parse_of_none (lim : Limits) {raw : Bytes}
    (hnone : lastValue contentLength (headFields raw) = none) :
    ∃ request, parse lim raw = .ok request := by
  apply (parse_ok_iff lim raw).mpr
  intro val hval
  rw [hnone] at hval
  cases hval

theorem exists_parse_of_some (lim : Limits) {raw val : Bytes} {n : ℕ}
    (hlast : lastValue contentLength (headFields raw) = some val) (hn : stoi val = .ok n) :
    ∃ request, parse lim raw = .ok request := by
  apply (parse_ok_iff lim raw).mpr
  intro val' hval
  rw [hlast] at hval
  obtain rfl := Option.some.inj hval
  exact ⟨n, hn⟩

end Parser

end LinuxNet.Http
