import Iotex.Model.JsonHelper

/-! # The contract ABI

Types of function inputs and outputs, the parser of their type strings, the printer of function
signatures, and parameter values. Objects that the sources declare without an initializer are
given with their previous contents, so that a result can depend on a field no statement has set.
-/

namespace Iotex

inductive EthereumTypeName where
  | uint
  | int
  | address
  | bool
  | fixed
  | ufixed
  | bytesStatic
  | string
  | bytesDynamic
  | arrayStatic
  | arrayDynamic
  | tupleStatic
  | tupleDynamic
  | unknown
deriving DecidableEq, Repr

/-- The string lookup table; it has no entry for the last enumerator. -/
def ethereumTypeNameToStringLT : List Bytes :=
  [ascii "uint", ascii "int", ascii "address", ascii "bool", ascii "fixed", ascii "ufixed", ascii "bytes",
    ascii "string", ascii "bytes", [], [], [], []]

namespace EthereumTypeName

/-- The table entry of a type. -/
def toText (type : EthereumTypeName) : Exec Bytes :=
  match ethereumTypeNameToStringLT[type.ctorIdx]? with
  | some text => .ok text
  | none => .error .outOfBounds

/-- The types whose encoding is referred to by an offset. -/
def isDynamic : EthereumTypeName → Bool
  | bytesDynamic | string | arrayDynamic | tupleDynamic => true
  | _ => false

end EthereumTypeName

structure InputOutputAbi where
  name : Bytes := []
  type : EthereumTypeName
  sizeBytes : UInt32
  arrayType : EthereumTypeName
  arrayTypeSizeBytes : UInt32 := 0
  arraySize : UInt32
deriving DecidableEq, Repr

namespace InputOutputAbi

/-- A new object on memory with the given contents: only two fields have initializers. -/
def construct (memory : InputOutputAbi) : InputOutputAbi := { memory with name := [], arrayTypeSizeBytes := 0 }

def isDynamic (input : InputOutputAbi) : Bool :=
  input.type.isDynamic || (input.type == .arrayStatic && input.arrayType.isDynamic)

end InputOutputAbi

structure FunctionAbi where
  constant : Bool
  inputs : List InputOutputAbi := []
  name : Bytes := []
  outputs : List InputOutputAbi := []
  stateMutability : Bytes := []
  payable : Bool
deriving DecidableEq, Repr

/-! ## Parsing of type strings -/

/-- The character at an index of a string's buffer, which ends with a NUL. -/
def charAt (str : Bytes) (index : ℕ) : Exec UInt8 :=
  if index < str.length then .ok (str.getD index 0)
  else if index = str.length then .ok 0
  else .error .outOfBounds

/-- `memcmp` against a literal: the terminating NUL of the string differs from each of its characters. -/
def startsWith (str literal : Bytes) : Bool := literal.isPrefixOf str

/-- Conversion to `uint32_t`. -/
def toUint32 (value : ℤ) : UInt32 := UInt32.ofNat (value % 2 ^ 32).toNat

/-- The loop that fills `sizeBuf`, with the iterations left; `none` is the early error return. -/
def copySize (str : Bytes) : ℕ → ℕ → Bytes → Exec (Option (ℕ × Bytes))
  | 0, pCurr, sizeBuf => .ok (some (pCurr, sizeBuf))
  | left + 1, pCurr, sizeBuf => do
    let char ← charAt str pCurr
    if char = 91 then return some (pCurr, sizeBuf)
    if char < 48 ∨ 57 < char then return none
    if pCurr + 1 = str.length then return some (pCurr + 1, sizeBuf ++ [char])
    copySize str left (pCurr + 1) (sizeBuf ++ [char])

/-- The loop that fills `buf` with the array size: the index and the pointer both advance. -/
def copyArraySize (str : Bytes) : ℕ → ℕ → ℕ → Bytes → Exec (ℕ × Bytes)
  | 0, _, pCurr, buf => .ok (pCurr, buf)
  | left + 1, i, pCurr, buf => do
    if (← charAt str pCurr) = 93 then return (pCurr, buf)
    let char ← charAt str (pCurr + i)
    copyArraySize str left (i + 1) (pCurr + 1) (buf ++ [char])

/-- `atoi` on the four characters of `sizeBuf`: four digits leave no room for a NUL. -/
def atoiSizeBuf (sizeBuf : Bytes) : Exec ℤ :=
  if 4 ≤ sizeBuf.length then .error .outOfBounds else atoi sizeBuf

/-- The part of `getSizeFromStringAndCheckIfArray` behind the size: an array suffix or the end. -/
def checkIfArray (str : Bytes) (pCurr : ℕ) (out : InputOutputAbi) : Exec (ResultCode × InputOutputAbi) := do
  if pCurr = str.length then return (.success, out)
  if (← charAt str pCurr) ≠ 91 then return (.success, out)
  if (← charAt str (pCurr + 1)) = 93 then
    return (.success, { out with arrayType := out.type, type := .arrayDynamic })
  let out := { out with arrayType := out.type, type := .arrayStatic }
  let (pCurr, buf) ← copyArraySize str str.length 0 (pCurr + 1) []
  if (← charAt str pCurr) ≠ 93 then return (.errorBadParameter, out)
  let arraySize ← atoi buf
  return (.success, { out with arraySize := toUint32 arraySize })

def getSizeFromStringAndCheckIfArray (str : Bytes) (out : InputOutputAbi) :
    Exec (ResultCode × InputOutputAbi) := do
  let typeText ← out.type.toText
  if (out.type = .uint ∨ out.type = .int) ∧ typeText.length = str.length then
    return (.success, { out with sizeBytes := 32 })
  if out.type = .uint ∨ out.type = .int ∨ out.type = .bytesStatic then
    match ← copySize str 4 typeText.length [] with
    | none => return (.errorBadParameter, out)
    | some (pCurr, sizeBuf) =>
      let size ← atoiSizeBuf sizeBuf
      let sizeBytes := toUint32 (if out.type = .bytesStatic then size else size / 8)
      checkIfArray str pCurr { out with sizeBytes := sizeBytes, arrayTypeSizeBytes := sizeBytes }
  else checkIfArray str typeText.length out

/-- The type named by a string's first characters, tried in the order of the source. -/
def getTypeAndSizeFromString (str : Bytes) (out : InputOutputAbi) : Exec (ResultCode × InputOutputAbi) :=
  if str.length = 0 then .ok (.errorBadParameter, out)
  else if str.head? = some 40 then .ok (.success, { out with type := .tupleStatic })
  else if startsWith str (ascii "uint") then getSizeFromStringAndCheckIfArray str { out with type := .uint }
  else if startsWith str (ascii "int") then getSizeFromStringAndCheckIfArray str { out with type := .int }
  else if startsWith str (ascii "address") then getSizeFromStringAndCheckIfArray str { out with type := .address }
  else if startsWith str (ascii "bool") then getSizeFromStringAndCheckIfArray str { out with type := .bool }
  else if startsWith str (ascii "bytes") then
    if str = ascii "bytes" then .ok (.success, { out with type := .bytesDynamic })
    else if startsWith str (ascii "bytes[") then
      getSizeFromStringAndCheckIfArray str { out with type := .bytesDynamic }
    else getSizeFromStringAndCheckIfArray str { out with type := .bytesStatic }
  else if startsWith str (ascii "string") then getSizeFromStringAndCheckIfArray str { out with type := .string }
  else .ok (.success, out)

def parseInputOutput (data : Json) (out : InputOutputAbi) : Exec (ResultCode × InputOutputAbi) := do
  let (ret, name) := setStringFromJsonObject (getObjectItem data (ascii "name")) out.name 0
  let out := { out with name := name }
  if ret ≠ .success then return (ret, out)
  let (ret, type) := setStringFromJsonObject (getObjectItem data (ascii "type")) [] 0
  if ret ≠ .success then return (ret, out)
  let (ret, out) ← getTypeAndSizeFromString type out
  if ret ≠ .success then return (ret, out)
  if out.type = .tupleDynamic ∨ out.type = .tupleStatic then return (.errorWrongType, out)
  return (.success, out)

/-! ## Printing of signatures -/

/-- `sprintf` with `%d` of an `uint32_t`. -/
def formatD (value : UInt32) : Bytes :=
  if value.toNat < 2 ^ 31 then decimal value.toNat else 45 :: decimal (2 ^ 32 - value.toNat)

theorem formatD_of_lt {value : UInt32} (bound : value.toNat < 2 ^ 31) : formatD value = decimal value.toNat :=
  if_pos bound

/-- What `getSignature` appends for one input. -/
def signatureOfInput (input : InputOutputAbi) : Exec Bytes := do
  let text ← input.type.toText
  match input.type with
  | .int | .uint => return text ++ formatD (input.sizeBytes * 8)
  | .bytesStatic => return text ++ formatD input.sizeBytes
  | .arrayStatic | .arrayDynamic =>
    let element ← input.arrayType.toText
    let size :=
      if 0 < input.arrayTypeSizeBytes then
        if input.arrayType = .int ∨ input.arrayType = .uint then decimal (input.arrayTypeSizeBytes.toNat * 8)
        else decimal input.arrayTypeSizeBytes.toNat
      else []
    let count := if input.type = .arrayStatic then formatD input.arraySize else []
    return text ++ element ++ size ++ [91] ++ count ++ [93]
  | _ => return text

/-- The loop over the inputs; a comma follows all but the last. -/
def signatureOfInputs : List InputOutputAbi → Exec Bytes
  | [] => .ok []
  | [input] => signatureOfInput input
  | input :: rest => do
    let text ← signatureOfInput input
    let texts ← signatureOfInputs rest
    return text ++ [44] ++ texts

/-- `getSignature`, whose loop counts the inputs in an `int`. -/
def FunctionAbi.getSignature (function : FunctionAbi) : Exec Bytes := do
  let inputs ← signatureOfInputs function.inputs
  countInt function.inputs.length
  return function.name ++ [40] ++ inputs ++ [41]

/-! ## Parameter values -/

/-- The union of a parameter's value. `plain` stands for the integer members and the boolean: the bytes
written from the start of the union, the rest of its eight bytes being unwritten. A pointer member comes
with the bytes of the pointer, as a number, and with what it points to. -/
inductive ValueUnion (Element : Type) where
  | plain (written : Bytes)
  | string (pointer : UInt64) (text : IotexString)
  | bytes (pointer : UInt64) (data : Cells)
  | elements (pointer : UInt64) (items : List Element)
deriving Repr

namespace ValueUnion

/-- A union of which an integer member of the given width was written. -/
def integer {Element : Type} (width value : ℕ) : ValueUnion Element := .plain (leBytes width value)

/-- A union of which the boolean was written. -/
def boolean {Element : Type} (value : Bool) : ValueUnion Element := .plain [if value then 1 else 0]

end ValueUnion

structure ParameterValue where
  value : ValueUnion ParameterValue
  size : Int32 := -1
  isBigInt : Bool := false
  type : EthereumTypeName := .unknown
deriving Repr

def makeParamUint (value : UInt64) : ParameterValue where
  value := .integer 8 value.toNat
  size := 8
  type := .uint

def makeParamInt (value : UInt64) : ParameterValue where
  value := .integer 8 value.toNat
  size := 8
  type := .int

def makeParamString (pointer : UInt64) (value : IotexString) : ParameterValue where
  value := .string pointer value
  size := Int32.ofNat value.text.length
  type := .string

def makeParamAddress (pointer : UInt64) (value : Vector UInt8 20) : ParameterValue where
  value := .bytes pointer (cells value.toList)
  size := 20
  type := .address

def makeParamBytes (pointer : UInt64) (value : Cells) (size : ℕ) (dynamic : Bool) : ParameterValue where
  value := .bytes pointer value
  size := Int32.ofNat size
  type := if dynamic then .bytesDynamic else .bytesStatic

def ParameterValue.isDynamic (param : ParameterValue) : Bool := param.type.isDynamic

end Iotex
