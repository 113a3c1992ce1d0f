import Iotex.Model.Abi

/-! # The memory of the type parser

The parser of type strings with the arrays it writes to: `sizeBuf` and `buf` start as zeros, each character
is stored at an index, and `atoi` looks for a NUL in the array it is given. The C standard lets `memcmp`
look at all characters of its operands; an implementation may also stop at the first difference. The loop
counters are numbers, as an `int` is enough for every string of fewer than 2^31 characters.
-/

namespace Iotex.TypeMemory

/-- An array that was set to zero. -/
def zeroed (size : ℕ) : Bytes := List.replicate size 0

/-- A store to an element of an array. -/
def store (array : Bytes) (index : ℕ) (char : UInt8) : Exec Bytes :=
  if index < array.length then .ok (array.set index char) else .error .outOfBounds

/-- `atoi` of an array. -/
def atoiIn (array : Bytes) : Exec ℤ := do atoi (← stringIn array)

/-- The comparison that stops at the first difference. -/
def compareFrom (str : Bytes) : ℕ → Bytes → Exec Bool
  | _, [] => .ok true
  | index, expected :: literal => do
    if (← charAt str index) ≠ expected then return false
    compareFrom str (index + 1) literal

/-- Whether `memcmp` of the string and a literal is zero. -/
def memcmp (whole : Bool) (str literal : Bytes) : Exec Bool :=
  if whole then do
    let chars ← readFirst (str ++ [0]) literal.length
    return chars == literal
  else compareFrom str 0 literal

/-- The loop that fills `sizeBuf`, with the iterations left; `none` is the early error return. -/
def copySize (str : Bytes) : ℕ → ℕ → ℕ → Bytes → Exec (Option (ℕ × Bytes))
  | 0, _, pCurr, sizeBuf => .ok (some (pCurr, sizeBuf))
  | left + 1, i, pCurr, sizeBuf => do
    let char ← charAt str pCurr
    if char = 91 then return some (pCurr, sizeBuf)
    if char < 48 ∨ 57 < char then return none
    let sizeBuf ← store sizeBuf i char
    if pCurr + 1 = str.length then return some (pCurr + 1, sizeBuf)
    copySize str left (i + 1) (pCurr + 1) sizeBuf

/-- The loop that fills `buf`: the pointer moves, and the index into it too. -/
def copyArraySize (str : Bytes) : ℕ → ℕ → ℕ → Bytes → Exec (ℕ × Bytes)
  | 0, _, pCurr, buf => .ok (pCurr, buf)
  | left + 1, i, pCurr, buf => do
    if (← charAt str pCurr) = 93 then return (pCurr, buf)
    let char ← charAt str (pCurr + i)
    let buf ← store buf i char
    copyArraySize str left (i + 1) (pCurr + 1) buf

/-- The part of `getSizeFromStringAndCheckIfArray` behind the size: an array suffix or the end. -/
def checkIfArray (str : Bytes) (pCurr : ℕ) (out : InputOutputAbi) : Exec (ResultCode × InputOutputAbi) := do
  if pCurr = str.length then return (.success, out)
  if (← charAt str pCurr) ≠ 91 then return (.success, out)
  if (← charAt str (pCurr + 1)) = 93 then
    return (.success, { out with arrayType := out.type, type := .arrayDynamic })
  let out := { out with arrayType := out.type, type := .arrayStatic }
  let (pCurr, buf) ← copyArraySize str str.length 0 (pCurr + 1) (zeroed str.length)
  if (← charAt str pCurr) ≠ 93 then return (.errorBadParameter, out)
  let arraySize ← atoiIn buf
  return (.success, { out with arraySize := toUint32 arraySize })

def getSizeFromStringAndCheckIfArray (str : Bytes) (out : InputOutputAbi) :
    Exec (ResultCode × InputOutputAbi) := do
  let typeText ← out.type.toText
  if (out.type = .uint ∨ out.type = .int) ∧ typeText.length = str.length then
    return (.success, { out with sizeBytes := 32 })
  if out.type = .uint ∨ out.type = .int ∨ out.type = .bytesStatic then
    match ← copySize str 4 0 typeText.length (zeroed 4) with
    | none => return (.errorBadParameter, out)
    | some (pCurr, sizeBuf) =>
      let size ← atoiIn sizeBuf
      let sizeBytes := toUint32 (if out.type = .bytesStatic then size else size / 8)
      checkIfArray str pCurr { out with sizeBytes := sizeBytes, arrayTypeSizeBytes := sizeBytes }
  else checkIfArray str typeText.length out

/-- The type named by a string's first characters, tried in the order of the source. -/
def getTypeAndSizeFromString (whole : Bool) (str : Bytes) (out : InputOutputAbi) :
    Exec (ResultCode × InputOutputAbi) := do
  if str.length = 0 then return (.errorBadParameter, out)
  if (← charAt str 0) = 40 then return (.success, { out with type := .tupleStatic })
  if ← memcmp whole str (ascii "uint") then getSizeFromStringAndCheckIfArray str { out with type := .uint }
  else if ← memcmp whole str (ascii "int") then getSizeFromStringAndCheckIfArray str { out with type := .int }
  else if ← memcmp whole str (ascii "address") then
    getSizeFromStringAndCheckIfArray str { out with type := .address }
  else if ← memcmp whole str (ascii "bool") then getSizeFromStringAndCheckIfArray str { out with type := .bool }
  else if ← memcmp whole str (ascii "bytes") then
    if str = ascii "bytes" then return (.success, { out with type := .bytesDynamic })
    else if ← memcmp whole str (ascii "bytes[") then
      getSizeFromStringAndCheckIfArray str { out with type := .bytesDynamic }
    else getSizeFromStringAndCheckIfArray str { out with type := .bytesStatic }
  else if ← memcmp whole str (ascii "string") then
    getSizeFromStringAndCheckIfArray str { out with type := .string }
  else return (.success, out)

end Iotex.TypeMemory
