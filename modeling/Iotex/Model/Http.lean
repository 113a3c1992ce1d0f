import Iotex.Model.Account

/-! # The HTTP back end of the operating-system build

The callbacks that collect the status and the body of a response, and the call that posts a request.
The transfer library is a parameter: it says what it hands to the callbacks, and how the transfer
ends. The status object has no initial value, so its memory is given.
-/

namespace Iotex

namespace PlatformHTTP

/-- The values of `GrpcStatusCode` that the code names. -/
def grpcOK : ℤ := 0

def grpcUNKNOWN : ℤ := 2

structure GrpcStatus where
  code : ℤ
  message : Bytes := []
deriving DecidableEq

def statusNeedle : Bytes := ascii "grpc-status:"

def messageNeedle : Bytes := ascii "grpc-message:"

/-- Whether `memcmp` finds the bytes of a literal at the start of an array; it may read as many bytes
as the literal has. -/
def memcmpEqual (contents literal : Bytes) : Exec Bool := do
  return (← readFirst contents literal.length) = literal

/-- The array `codeStr` behind the copy from the header: its initializer gives it one element. -/
def copyCode (code : Bytes) : Exec Bytes :=
  if code.length ≤ 1 then .ok (code ++ List.replicate (1 - code.length) 0) else .error .outOfBounds

/-- What `headerCallback` makes of the status object behind its user pointer. -/
def headerCallback (status : GrpcStatus) (contents : Bytes) : Exec GrpcStatus := do
  if ← memcmpEqual contents statusNeedle then
    let codeStr ← copyCode ((contents.drop statusNeedle.length).take 2)
    let codeStr ← stringIn codeStr
    if codeStr.all isDigit then
      let code ← atoi codeStr
      return { status with code := code }
    return { status with code := grpcUNKNOWN }
  if ← memcmpEqual contents messageNeedle then
    return { status with message := status.message ++ contents }
  return status

def writeCallback (response contents : Bytes) : Bytes := response ++ contents

/-- A piece of a response that the transfer library hands to one of the callbacks. -/
inductive CurlEvent where
  | header (line : Bytes)
  | body (contents : Bytes)

/-- What `curl_easy_perform` does: the callbacks it makes, and whether it returns `CURLE_OK`. -/
structure CurlTransfer where
  events : List CurlEvent
  completed : Bool

/-- The transfer of a request, if there is a handle for one. -/
abbrev Curl := Bytes → Bytes → Option CurlTransfer

/-- The callback for one piece, on the status and the response so far. -/
def deliver (objects : GrpcStatus × Bytes) : CurlEvent → Exec (GrpcStatus × Bytes)
  | .header line => do return (← headerCallback objects.1 line, objects.2)
  | .body contents => .ok (objects.1, writeCallback objects.2 contents)

/-- What follows the transfer. -/
def verdict (status : GrpcStatus) : ResultCode := if status.code ≠ grpcOK then .errorGrpc else .success

/-- `post`: the result and the response afterwards; the code of the status object is that of its memory. -/
def post (curl : Curl) (memory : ℤ) (request body response : Bytes) : Exec (ResultCode × Bytes) :=
  match curl request body with
  | none => .ok (verdict { code := memory }, response)
  | some transfer => do
    let (status, response) ← transfer.events.foldlM deliver ({ code := memory }, response)
    if transfer.completed = false then return (.errorHttp, response)
    return (verdict status, response)

end PlatformHTTP

end Iotex
