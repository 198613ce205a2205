/-
# LinuxNet.Http.Defs — the constants and enumerations of the HTTP server (`defs.h`)
-/
import LinuxNet.Lib.Bytes

namespace LinuxNet.Http

open LinuxNet.Lib

/-- `STR_HTTP_ROOT_PATH`. -/
def strHttpRootPath : Bytes := ofText "http_root"

/-- `STR_HTTP_MAIN_PAGE`. -/
def strHttpMainPage : Bytes := ofText "index.html"

/-- `MAX_CONNECTION`. -/
def maxConnection : ℕ := 2

/-- `MESSAGE_SIZE`. -/
def messageSize : ℕ := 1024

/-- `enum ClientActivity`. -/
inductive ClientActivity where
  | unknown
  | waiting
  | disconnect
  | completed
  deriving DecidableEq, Repr

/-- The statuses of `enum HttpStatus` the router sets. -/
def http200 : Int := 200
def http404 : Int := 404

end LinuxNet.Http
