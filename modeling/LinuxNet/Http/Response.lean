/-
# LinuxNet.Http.Response — `HTTPResponse`

The constructor has parameters for a status and a body and uses neither: the headers and the body start
empty, and `m_status` holds whatever the memory held, until `set_status` is called. `set_body` also
sets the header `Content-Length`, and `to_string` writes a line `Content-Length` of its own after the
headers, which come in the order of the hash map.
-/
import LinuxNet.Http.Parser.Parse

namespace LinuxNet.Http

open LinuxNet.Lib

structure HTTPResponse where
  mStatus : Int
  mHeaders : Headers
  mBody : Bytes

namespace HTTPResponse

/-- The constructor; `uninitialised` is what it leaves in `m_status`. -/
def construct (uninitialised : Int) : HTTPResponse where
  mStatus := uninitialised
  mHeaders := ∅
  mBody := []

def setStatus (response : HTTPResponse) (status : Int) : HTTPResponse :=
  { response with mStatus := status }

def setHeader (response : HTTPResponse) (key val : Bytes) : HTTPResponse :=
  { response with mHeaders := response.mHeaders.insert key val }

def setBody (response : HTTPResponse) (body : Bytes) : HTTPResponse :=
  setHeader { response with mBody := body } contentLength (natText body.length)

def codeToMessage (code : Int) : Bytes :=
  if code = 200 then ofText "OK"
  else if code = 404 then ofText "Not Found"
  else if code = 500 then ofText "Internal Server Error"
  else ofText "Unknown"

/-- `key:val` and CR LF. -/
def headerLine (header : Bytes × Bytes) : Bytes := header.1 ++ colon :: header.2 ++ crlf

/-- **`HTTPResponse::to_string`**, for an order in which the hash map is read out. -/
def toString (response : HTTPResponse) (order : IterationOrder response.mHeaders) : Bytes :=
  ofText "HTTP/1.1 " ++ intText response.mStatus ++ ofText " " ++ codeToMessage response.mStatus ++
    crlf ++ order.entries.flatMap headerLine ++
    (ofText "Content-Length: " ++ natText response.mBody.length ++ crlf) ++ crlf ++ response.mBody

/-! ## Sequences of calls -/

/-- A call on a response. -/
inductive Call where
  | setStatus (status : Int)
  | setHeader (key val : Bytes)
  | setBody (body : Bytes)

def Call.apply (response : HTTPResponse) : Call → HTTPResponse
  | .setStatus status => response.setStatus status
  | .setHeader key val => response.setHeader key val
  | .setBody body => response.setBody body

/-- A response after a sequence of calls. -/
def applyAll (response : HTTPResponse) (calls : List Call) : HTTPResponse :=
  calls.foldl Call.apply response

def Call.status? : Call → Option Int
  | .setStatus status => some status
  | .setHeader _ _ | .setBody _ => none

def Call.body? : Call → Option Bytes
  | .setBody body => some body
  | .setStatus _ | .setHeader _ _ => none

/-- The value this call gives to a header. -/
def Call.header? (key : Bytes) : Call → Option Bytes
  | .setHeader key' val => if key' = key then some val else none
  | .setBody body => if contentLength = key then some (natText body.length) else none
  | .setStatus _ => none

/-- The last status that was set. -/
def lastStatus (calls : List Call) : Option Int := calls.reverse.findSome? Call.status?

/-- The last body that was set. -/
def lastBody (calls : List Call) : Option Bytes := calls.reverse.findSome? Call.body?

/-- The last value a header was given. -/
def lastHeader (key : Bytes) (calls : List Call) : Option Bytes := calls.reverse.findSome? (Call.header? key)

variable (response : HTTPResponse)

theorem applyAll_concat (calls : List Call) (call : Call) :
    response.applyAll (calls ++ [call]) = call.apply (response.applyAll calls) := by
  simp [applyAll]

theorem lastStatus_concat (calls : List Call) (call : Call) :
    lastStatus (calls ++ [call]) = call.status?.or (lastStatus calls) := by
  cases h : call.status? <;> simp [lastStatus, h]

theorem lastBody_concat (calls : List Call) (call : Call) :
    lastBody (calls ++ [call]) = call.body?.or (lastBody calls) := by
  cases h : call.body? <;> simp [lastBody, h]

theorem lastHeader_concat (key : Bytes) (calls : List Call) (call : Call) :
    lastHeader key (calls ++ [call]) = (call.header? key).or (lastHeader key calls) := by
  cases h : call.header? key <;> simp [lastHeader, h]

theorem mStatus_applyAll (calls : List Call) :
    (response.applyAll calls).mStatus = (lastStatus calls).getD response.mStatus := by
  induction calls using List.reverseRecOn with
  | nil => rfl
  | append_singleton calls call ih =>
      rw [applyAll_concat, lastStatus_concat]
      cases call with
      | setStatus status => rfl
      | setHeader key val => exact ih
      | setBody body => exact ih

theorem mBody_applyAll (calls : List Call) :
    (response.applyAll calls).mBody = (lastBody calls).getD response.mBody := by
  induction calls using List.reverseRecOn with
  | nil => rfl
  | append_singleton calls call ih =>
      rw [applyAll_concat, lastBody_concat]
      cases call with
      | setStatus status => exact ih
      | setHeader key val => exact ih
      | setBody body => rfl

theorem lookup_setHeader (key val key' : Bytes) : (response.setHeader key val).mHeaders.lookup key' =
    (if key = key' then some val else none).or (response.mHeaders.lookup key') := by
  show (response.mHeaders.insert key val).lookup key' = _
  split
  next heq =>
    subst heq
    exact Finmap.lookup_insert _
  next hne => exact Finmap.lookup_insert_of_ne _ (Ne.symm hne)

theorem lookup_applyAll (key : Bytes) (calls : List Call) :
    (response.applyAll calls).mHeaders.lookup key =
      (lastHeader key calls).or (response.mHeaders.lookup key) := by
  induction calls using List.reverseRecOn with
  | nil => rfl
  | append_singleton calls call ih =>
      rw [applyAll_concat, lastHeader_concat, Option.or_assoc, ← ih]
      cases call with
      | setStatus status => rfl
      | setHeader key' val => exact lookup_setHeader _ key' val key
      | setBody body => exact lookup_setHeader _ contentLength (natText body.length) key

/-- What holds of every header that is set, and of the `Content-Length` of every body, holds of every
header of the response. -/
theorem headers_applyAll {P : Bytes → Bytes → Prop} {calls : List Call}
    (hset : ∀ key val, Call.setHeader key val ∈ calls → P key val)
    (hbody : ∀ n, P contentLength (natText n))
    (hstart : ∀ key val, response.mHeaders.lookup key = some val → P key val) :
    ∀ key val, (response.applyAll calls).mHeaders.lookup key = some val → P key val := by
  have hinsert {headers : Headers} {key val : Bytes} (hnew : P key val)
      (hold : ∀ key val, headers.lookup key = some val → P key val) :
      ∀ key' val', (headers.insert key val).lookup key' = some val' → P key' val' := by
    intro key' val' h
    by_cases heq : key' = key
    · subst heq
      rw [Finmap.lookup_insert] at h
      cases h
      exact hnew
    · rw [Finmap.lookup_insert_of_ne _ heq] at h
      exact hold key' val' h
  induction calls using List.reverseRecOn with
  | nil => exact hstart
  | append_singleton calls call ih =>
      have hih := ih fun key val h => hset key val (List.mem_append_left _ h)
      rw [applyAll_concat]
      cases call with
      | setStatus status => exact hih
      | setHeader key val => exact hinsert (hset key val (by simp)) hih
      | setBody body => exact hinsert (hbody body.length) hih

end HTTPResponse

end LinuxNet.Http
