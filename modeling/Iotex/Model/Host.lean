import Iotex.Model.Machine

/-! # Hosts

The name, port and base URL that requests are sent to. The two arrays have no initializer, so an object
is made on memory with given contents. A base URL is a pointer, which may be null.
-/

namespace Iotex

/-- The arrays have a size of 129. -/
structure Host where
  hostname : Bytes
  baseUrl : Bytes
  port : ℤ := -1
deriving DecidableEq

namespace Host

def ipMaxStringLen : ℕ := 128

def baseurlMaxStringLen : ℕ := 128

/-- An array of one more element, after `memset` and a `memcpy` of a shorter C string. -/
def filled (maxStringLen : ℕ) (text : Bytes) : Bytes := text ++ List.replicate (maxStringLen + 1 - text.length) 0

/-- The first guard of `set`; a null pointer passes it. -/
def rejects (hostname : Bytes) (baseUrl : Option Bytes) : Bool :=
  ipMaxStringLen ≤ (cString hostname).length || baseUrl.any fun url => baseurlMaxStringLen ≤ (cString url).length

/-- `set`: the result and the object afterwards. The second use of the base URL reads through it. -/
def set (host : Host) (hostname : Bytes) (port : ℤ) (baseUrl : Option Bytes) : Exec (Bool × Host) :=
  if rejects hostname baseUrl then .ok (false, host)
  else
    match baseUrl with
    | none => .error .outOfBounds
    | some url => .ok (true, {
        hostname := filled ipMaxStringLen (cString hostname)
        baseUrl := filled baseurlMaxStringLen (cString url)
        port := port })

/-- A new object on memory with the given contents: only the port has an initializer. -/
def declared (memory : Host) : Host := { memory with port := -1 }

/-- The constructor with three arguments, which drops the result of `set`. -/
def construct (memory : Host) (hostname : Bytes) (port : ℤ) (baseUrl : Option Bytes) : Exec Host :=
  (set (declared memory) hostname port baseUrl).map Prod.snd

/-- `snprintf` of the port with `%u` into an array of six elements. -/
def portStr (host : Host) : Bytes := (decimal (host.port % 2 ^ 32).toNat).take 5

def toString (host : Host) : Exec Bytes := do
  let hostname ← stringIn host.hostname
  let baseUrl ← stringIn host.baseUrl
  return hostname ++ ascii ":" ++ host.portStr ++ (if baseUrl ≠ [] then ascii "/" ++ baseUrl else []) ++ ascii "/"

end Host

end Iotex
