import Iotex.Model.Machine

/-! # The HTTP back end of the Nano 33 build

How a request reads its URL. The functions of `String` follow the Arduino reference, with indices that
are unsigned where they are arguments. The WiFi client is a parameter that says whether it connects.
-/

namespace Iotex

namespace Nano33

/-- `indexOf` of a character: its first index, or -1 without one. -/
def indexOf (text : Bytes) (char : UInt8) : ℤ := (text.idxOf? char).elim (-1) Nat.cast

/-- An index as an argument. -/
def unsignedIndex (index : ℤ) : ℕ := (index % 2 ^ 32).toNat

/-- `substring` with two indices. -/
def substring (text : Bytes) (beginIndex endIndex : ℤ) : Bytes :=
  (text.take (unsignedIndex endIndex)).drop (unsignedIndex beginIndex)

/-- `substring` with one index, up to the end. -/
def substringFrom (text : Bytes) (beginIndex : ℤ) : Bytes := text.drop (unsignedIndex beginIndex)

/-- The members that are stored for the current request. -/
structure PlatformHTTP where
  host : Bytes
  port : ℤ
  path : Bytes
deriving DecidableEq

/-- Whether the client connects to a host and a port. -/
abbrev Connect := Bytes → ℤ → Bool

/-- The members as `initialize` sets them from a URL. -/
def readUrl (uri : Bytes) : Exec PlatformHTTP := do
  let host := if indexOf uri 47 ≠ -1 then substring uri 0 (indexOf uri 47) else uri
  -- the comparison is one character longer than the name of the scheme
  let port := if cString uri = ascii "https" then 443 else 80
  let path := substringFrom uri (indexOf uri 47)
  if indexOf host 58 ≠ -1 then
    let port ← atoi (cString (substringFrom host (indexOf host 58 + 1)))
    return { host := substring host 0 (indexOf host 58), port := port, path := path }
  return { host := host, port := port, path := path }

/-- An `int` under `%d`. -/
def formatInt (value : ℤ) : Bytes := (if value < 0 then ascii "-" else []) ++ decimal value.natAbs

/-- What is printed about a connection that was not made. -/
def failureText (request : PlatformHTTP) : Bytes :=
  ascii "Failed to connect to http server\n Host: " ++ cString request.host ++ ascii " Port: " ++
    formatInt request.port ++ ascii " Path: " ++ cString request.path ++ ascii "\n"

/-- `sprintf` of that text and its NUL into an array of 256 elements. -/
def printFailure (request : PlatformHTTP) : Exec Unit :=
  if (failureText request).length < 256 then .ok () else .error .outOfBounds

/-- What `initialize` leaves behind: its result, the arguments of `connect` and the members. -/
structure Initialized where
  connected : Bool
  host : Bytes
  port : ℤ
  members : PlatformHTTP
deriving DecidableEq

/-- `initialize` on a URL. -/
def initializeRequest (connect : Connect) (uri : Bytes) : Exec Initialized := do
  let members ← readUrl uri
  let connected := connect (cString members.host) members.port
  if !connected then printFailure members
  return { connected := connected, host := cString members.host, port := members.port, members := members }

end Nano33

end Iotex
