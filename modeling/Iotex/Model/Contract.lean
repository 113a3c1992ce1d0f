import Iotex.Model.Abi
import Iotex.Model.Signer
import Iotex.Lib.Hex

/-! # Call data

`Contract` and its encoders. An encoder returns what the source returns, where `none` is a
variable that was never set, and the bytes it appends to the output vector, where an unwritten
byte of a local array is an unwritten cell. Reads outside an array, through another pointer member than
the one written, of a value that depends on an unwritten byte, and overflows of `int` are faults.
-/

namespace Iotex

/-- A returned byte count; `none` when the variable behind it was never set. -/
abbrev Count := Option ℤ

/-- Conversion of a count to `size_t`. -/
def Count.toSizeT (count : Count) : Option ℕ := count.map Iotex.toSizeT

/-- The bytes of a `size_t` variable. -/
def sizeTBytes : Option ℕ → Cells
  | some value => cells (leBytes 8 value)
  | none => uninitialized 8

/-- The sum of two `size_t` values. -/
def addSizeT (a b : Option ℕ) : Option ℕ := do some (((← a) + (← b)) % 2 ^ 64)

/-- The sum of two `int` values; an unset operand leaves an unset result. -/
def addCount : Count → Count → Exec Count
  | some a, some b => (addInt a b).map some
  | _, _ => .ok none

theorem addCount_some (a b : ℤ) :
    addCount (some a) (some b) =
      if -2 ^ 31 ≤ a + b ∧ a + b < 2 ^ 31 then .ok (some (a + b)) else .error .intOverflow := by
  rw [addCount, addInt]
  split_ifs
  · rfl
  · rfl

namespace Contract

/-! ## Words -/

/-- Exchange of the bytes at two positions. -/
def swapBytes {α : Type} [Inhabited α] (pData : List α) (i j : ℕ) : List α :=
  (pData.set i (pData.getD j default)).set j (pData.getD i default)

/-- The first and the last bytes of an array exchanged pairwise, inwards. -/
def endianSwap {α : Type} [Inhabited α] (pData : List α) : List α :=
  (List.range (pData.length / 2)).foldl (fun bytes i => swapBytes bytes i (pData.length - 1 - i)) pData

/-- Zero padding and the value's bytes in reverse, into an array of 32 bytes. -/
def generateBytesForUint (pVal : Cells) (size : ℕ) (out : Cells) : Exec (ℤ × Cells) := do
  if 32 < size then return (-1, out)
  let value ← readFirst pVal size
  return (32, cells (List.replicate (32 - size) 0) ++ value.reverse)

def generateBytesForAddress (pVal : Cells) (out : Cells) : Exec (ℤ × Cells) := do
  let address ← readFirst pVal 20
  generateBytesForUint (endianSwap address) 20 out

/-- Whether the value at the pointer is negative, read at the width that the size selects. -/
def isNegative (pVal : Cells) (size : ℕ) : Exec Bool := do
  if size = 1 then return 2 ^ 7 ≤ leNat (← readBytes pVal 1)
  if size = 2 then return 2 ^ 15 ≤ leNat (← readBytes pVal 2)
  if 2 < size ∧ size ≤ 4 then return 2 ^ 31 ≤ leNat (← readBytes pVal 4)
  if 4 < size ∧ size ≤ 8 then return 2 ^ 63 ≤ leNat (← readBytes pVal 8)
  return false

/-- Sign padding and the value's bytes in reverse. A size above 32 that passes the check makes the
padding count wrap around. The bytes are read as `int8_t`, which an unwritten byte has no value of. -/
def generateBytesForInt (pVal : Cells) (size : ℕ) (out : Cells) : Exec (ℤ × Cells) := do
  if 256 < size ∨ (8 < size ∧ size % 8 ≠ 0) then return (-1, out)
  let negative ← isNegative pVal size
  if 32 < size then throw .outOfBounds
  let value ← readBytes pVal size
  return (32, cells (List.replicate (32 - size) (if negative then 0xff else 0) ++ value.reverse))

def generateBytesForBool (val : Bool) : ℤ × Cells :=
  (32, cells (List.replicate 31 0 ++ [if val then 1 else 0]))

/-- The bytes and zero padding, into an array of the given size. -/
def generateBytesForStaticBytes (pVal : Cells) (size outSize : ℕ) : Exec (ℤ × Cells) := do
  let totalSize := n32ByteGroups size * 32 % 2 ^ 64
  if outSize < totalSize ∨ outSize < size then throw .outOfBounds
  let value ← readFirst pVal size
  return (toInt32 totalSize, value ++ cells (List.replicate (totalSize - size) 0))

/-- The length word and the bytes. -/
def generateBytesForBytes (pVal : Cells) (size outSize : ℕ) : Exec (ℤ × Cells) := do
  let (encodedBytes, length) ← generateBytesForUint (cells (leBytes 8 size)) 8 []
  let (bytes, body) ← generateBytesForStaticBytes pVal size (outSize - 32)
  return (toInt32 (toSizeT encodedBytes + toSizeT bytes), length ++ body)

def generateBytesForString (pVal : Cells) (size outSize : ℕ) : Exec (ℤ × Cells) :=
  generateBytesForBytes pVal size outSize

/-- A loop that appends the first `bytes` bytes of an array. -/
def pushBytes (buf : Cells) (bytes : ℤ) : Exec Cells := readFirst buf (toSizeT bytes)

/-! ## Parameters -/

/-- The eight bytes of a value, as the pointer to its first member reads them. -/
def integerBytes {α : Type} : ValueUnion α → Cells
  | .plain written => (cells written ++ uninitialized 8).take 8
  | .string pointer _ | .bytes pointer _ | .elements pointer _ => cells (leBytes 8 pointer.toNat)

def bytesMember {α : Type} : ValueUnion α → Exec Cells
  | .bytes _ data => .ok data
  | _ => .error .inactiveMember

def stringMember {α : Type} : ValueUnion α → Exec Bytes
  | .string _ text => .ok text.text
  | _ => .error .inactiveMember

/-- The word of an elementary value; the local count is zero unless an encoder sets it. -/
def generateBytesForSimpleType {α : Type} (value : ValueUnion α) (size : Int32) (isBigInt : Bool)
    (type : EthereumTypeName) (buf : Cells) : Exec (ℤ × Cells) :=
  match type with
  | .uint =>
    if size.toInt ≤ 8 ∧ isBigInt = false then generateBytesForUint (integerBytes value) (toSizeT size.toInt) buf
    else .ok (0, buf)
  | .int =>
    if size.toInt ≤ 8 ∧ isBigInt = false then generateBytesForInt (integerBytes value) (toSizeT size.toInt) buf
    else .ok (0, buf)
  | .bool =>
    -- the argument is the address of the member, which is never null
    .ok (generateBytesForBool true)
  | .address => do
    generateBytesForAddress (← bytesMember value) buf
  | _ => .ok (0, buf)

/-- The size of a local buffer of 32-byte groups. -/
def bufSize (groups : ℕ) : ℕ := groups * 32 % 2 ^ 64

/-- The branch for strings and dynamic bytes: a buffer for the length word and the groups. -/
def generateBytesForDynamicData (pVal : Cells) (size : ℕ) : Exec (Count × Cells) := do
  let (bytes, buf) ← generateBytesForBytes pVal size (bufSize (n32ByteGroups size + 1))
  let data ← pushBytes buf bytes
  return (some bytes, data)

/-- The branch for static bytes. -/
def generateBytesForStaticData (pVal : Cells) (size : ℕ) : Exec (Count × Cells) := do
  let (bytes, buf) ← generateBytesForStaticBytes pVal size (bufSize (n32ByteGroups size))
  let data ← pushBytes buf bytes
  return (some bytes, data)

/-- The loop that builds the heads of an array of dynamic elements, from the next offset. -/
def buildHeads : Option ℕ → List Count → Exec Cells
  | _, [] => .ok []
  | offset, tailSize :: tailSizes => do
    let (_, head) ← generateBytesForUint (sizeTBytes offset) 8 (cells (List.replicate 32 0))
    let heads ← buildHeads (addSizeT offset tailSize.toSizeT) tailSizes
    return head ++ heads

/-- `generateBytesForDynamicArrayOfStaticElements` around the loop over its elements: the size word
and the elements. -/
def withSizeWord (size : Int32) (elements : Exec (Count × Cells)) : Exec (Count × Cells) := do
  let (bytes, buf) ← generateBytesForUint (cells (leBytes 4 size.toUInt32.toNat)) 4 (cells (List.replicate 32 0))
  let (added, data) ← elements
  return (added.map fun added => toInt32 (toSizeT bytes + toSizeT added), buf ++ data)

/-- `generateBytesForStaticArrayOfDynamicElements` around the loop that encodes its elements: the
heads and then the tails. -/
def withHeads (size : Int32) (elements : Exec (List (Count × Cells))) : Exec (Count × Cells) := do
  let headsSizeBytes ← mulInt 32 size.toInt
  let encodedElements ← elements
  let heads ← buildHeads (some (toSizeT headsSizeBytes)) (encodedElements.map Prod.fst)
  let tails := (encodedElements.map Prod.snd).flatten
  return (some (toInt32 (32 * size.toInt + tails.length)), heads ++ tails)

mutual

def generateBytesForParameter : ParameterValue → EthereumTypeName → Exec (Count × Cells)
  | ⟨value, size, isBigInt, _⟩, type =>
    match type with
    | .uint | .int | .bool | .address => do
      let (bytes, buf) ← generateBytesForSimpleType value size isBigInt type (uninitialized 32)
      return (some bytes, buf)
    | .bytesDynamic => do
      generateBytesForDynamicData (← bytesMember value) (toSizeT size.toInt)
    | .string => do
      let text ← stringMember value
      generateBytesForDynamicData (cells text) text.length
    | .bytesStatic => do
      generateBytesForStaticData (← bytesMember value) (toSizeT size.toInt)
    | .arrayStatic => if size.toInt ≤ 0 then .ok (none, []) else generateBytesForStaticArray value size
    | .arrayDynamic => if size.toInt ≤ 0 then .ok (none, []) else generateBytesForDynamicArray value size
    | _ => .ok (none, [])
termination_by structural param => param

/-- The branch for fixed arrays, by the type of the first element. -/
def generateBytesForStaticArray : ValueUnion ParameterValue → Int32 → Exec (Count × Cells)
  | .elements _ (first :: rest), size =>
    if first.isDynamic then withHeads size (generateBytesForElements (first :: rest) size.toNatClampNeg)
    else generateBytesForStaticElements (first :: rest) size.toNatClampNeg (some 0)
  | .elements _ [], _ => .error .outOfBounds
  | _, _ => .error .inactiveMember
termination_by structural value => value

/-- The branch for dynamic arrays, by the type of the first element. -/
def generateBytesForDynamicArray : ValueUnion ParameterValue → Int32 → Exec (Count × Cells)
  | .elements _ (first :: rest), size =>
    if first.isDynamic then .ok (some (-1), [])
    else withSizeWord size (generateBytesForStaticElements (first :: rest) size.toNatClampNeg (some 0))
  | .elements _ [], _ => .error .outOfBounds
  | _, _ => .error .inactiveMember
termination_by structural value => value

/-- The loop over static elements, with the elements left and the count so far. -/
def generateBytesForStaticElements : List ParameterValue → ℕ → Count → Exec (Count × Cells)
  | thisParam :: rest, left + 1, bytes => do
    if thisParam.type = .unknown then return (bytes, [])
    let (added, data) ← generateBytesForParameter thisParam thisParam.type
    let bytes ← addCount bytes added
    let (bytes, more) ← generateBytesForStaticElements rest left bytes
    return (bytes, data ++ more)
  | [], _ + 1, _ => .error .outOfBounds
  | _, 0, bytes => .ok (bytes, [])
termination_by structural elements => elements

/-- The loop that encodes dynamic elements one by one, with the elements left. -/
def generateBytesForElements : List ParameterValue → ℕ → Exec (List (Count × Cells))
  | currentElement :: rest, left + 1 => do
    let element ← generateBytesForParameter currentElement currentElement.type
    let elements ← generateBytesForElements rest left
    return element :: elements
  | [], _ + 1 => .error .outOfBounds
  | _, 0 => .ok []
termination_by structural elements => elements

end

def generateBytesForStaticArrayOfStaticElements (elements : List ParameterValue) (size : Int32) :
    Exec (Count × Cells) :=
  generateBytesForStaticElements elements size.toNatClampNeg (some 0)

def generateBytesForDynamicArrayOfStaticElements (elements : List ParameterValue) (size : Int32) :
    Exec (Count × Cells) :=
  withSizeWord size (generateBytesForStaticArrayOfStaticElements elements size)

def generateBytesForStaticArrayOfDynamicElements (elements : List ParameterValue) (size : Int32) :
    Exec (Count × Cells) :=
  withHeads size (generateBytesForElements elements size.toNatClampNeg)

/-- The count and the output vector after an encoder that was handed the vector: encoders insert at its
end only. -/
def insertedInto (data : Cells) (encoded : Exec (Count × Cells)) : Exec (Count × Cells) :=
  encoded.map fun result => (result.1, data ++ result.2)

/-- The branch for fixed arrays in terms of the two array encoders. -/
theorem generateBytesForStaticArray_cons (pointer : UInt64) (first : ParameterValue) (rest : List ParameterValue)
    (size : Int32) :
    generateBytesForStaticArray (.elements pointer (first :: rest)) size =
      if first.isDynamic then generateBytesForStaticArrayOfDynamicElements (first :: rest) size
      else generateBytesForStaticArrayOfStaticElements (first :: rest) size := rfl

/-- The branch for dynamic arrays in terms of the array encoder. -/
theorem generateBytesForDynamicArray_cons (pointer : UInt64) (first : ParameterValue) (rest : List ParameterValue)
    (size : Int32) :
    generateBytesForDynamicArray (.elements pointer (first :: rest)) size =
      if first.isDynamic then .ok (some (-1), [])
      else generateBytesForDynamicArrayOfStaticElements (first :: rest) size := rfl

end Contract

/-! ## Call data -/

/-- The values supplied for a call, at most one under a name. -/
structure ParameterValuesDictionary where
  entries : List (Bytes × ParameterValue)
  distinct : (entries.map Prod.fst).Nodup

namespace ParameterValuesDictionary

def empty : ParameterValuesDictionary := ⟨[], List.nodup_nil⟩

def getParameter? (params : ParameterValuesDictionary) (name : Bytes) : Option ParameterValue :=
  (params.entries.find? fun entry => entry.1 == name).map Prod.snd

def containsParameter (params : ParameterValuesDictionary) (name : Bytes) : Bool :=
  params.entries.any fun entry => entry.1 == name

/-- `emplace`: an existing entry is kept. -/
def addParameter (params : ParameterValuesDictionary) (name : Bytes) (value : ParameterValue) :
    ParameterValuesDictionary :=
  if present : params.containsParameter name then params
  else
    ⟨(name, value) :: params.entries, by
      rw [List.map_cons, List.nodup_cons]
      refine ⟨fun member => present ?_, params.distinct⟩
      obtain ⟨entry, found, same⟩ := List.mem_map.mp member
      exact List.any_eq_true.mpr ⟨entry, found, beq_iff_eq.mpr same⟩⟩

theorem containsParameter_eq (params : ParameterValuesDictionary) (name : Bytes) :
    params.containsParameter name = (params.getParameter? name).isSome := by
  rw [getParameter?, Option.isSome_map, List.isSome_find?, containsParameter]

/-- An added value is found under its name unless the name was taken; no other entry changes. -/
theorem getParameter?_addParameter (params : ParameterValuesDictionary) (name other : Bytes) (value : ParameterValue) :
    (params.addParameter name value).getParameter? other =
      if other = name then some ((params.getParameter? name).getD value) else params.getParameter? other := by
  have taken := params.containsParameter_eq name
  rw [addParameter]
  split_ifs with present same same
  · subst same
    obtain ⟨found, known⟩ := Option.isSome_iff_exists.mp (taken.symm.trans present)
    rw [known, Option.getD_some]
  · rfl
  · subst same
    rw [taken, Option.not_isSome_iff_eq_none] at present
    rw [present]
    simp [getParameter?]
  · have differ : (name == other) = false := beq_eq_false_iff_ne.mpr (Ne.symm same)
    simp [getParameter?, differ]

end ParameterValuesDictionary

/-- The text of one byte under `%02x`. -/
def hexCell : Cell → Cells
  | some byte => cells (hexByte byte)
  | none => uninitialized 2

/-- The text of memory, two characters for each byte. -/
def hexText (data : Cells) : Cells := data.flatMap hexCell

/-- `vectorToHexString`: the new contents of the output string. The bytes are counted in an `int`. -/
def vectorToHexString (data : Cells) : Exec Cells := do
  countInt data.length
  return hexText data

structure Contract where
  functions : List FunctionAbi

namespace Contract

/-- What the loop over the inputs keeps for one input. -/
structure EncodedInput where
  isDynamic : Bool
  bytes : Count
  data : Cells

/-- The element of `tailSizes`, an `uint32_t`, as a `size_t`. -/
def EncodedInput.tailSize (input : EncodedInput) : Option ℕ := input.bytes.map fun bytes => (toUint32 bytes).toNat

def EncodedInput.headSize (input : EncodedInput) : Option ℕ :=
  if input.isDynamic then some 32 else input.bytes.toSizeT

/-- The loop over the inputs; `none` when a value is missing. The text of each encoding is made for the
log. -/
def encodeInputs (params : ParameterValuesDictionary) : List InputOutputAbi → Exec (Option (List EncodedInput))
  | [] => .ok (some [])
  | input :: rest =>
    match params.getParameter? input.name with
    | none => .ok none
    | some param => do
      let (bytes, data) ← generateBytesForParameter param input.type
      let _valString ← vectorToHexString data
      let encoded ← encodeInputs params rest
      return encoded.map fun encoded => ⟨input.isDynamic, bytes, data⟩ :: encoded

def headsSize (inputs : List EncodedInput) : Option ℕ :=
  inputs.foldl (fun size input => addSizeT size input.headSize) (some 0)

/-- The loop that moves the static heads to the output. The head of a dynamic input is generated
into a local array and goes no further. -/
def moveHeads : Option ℕ → List EncodedInput → Exec Cells
  | _, [] => .ok []
  | bytesUntilThisTail, current :: rest => do
    let moved ←
      if !current.isDynamic then pure current.data
      else do
        let (_, _head) ← generateBytesForUint (sizeTBytes bytesUntilThisTail) 8 (cells (List.replicate 32 0))
        pure []
    let others ← moveHeads (addSizeT bytesUntilThisTail current.tailSize) rest
    return moved ++ others

/-- The loop that moves the dynamic tails to the output. -/
def moveTails (inputs : List EncodedInput) : Cells :=
  inputs.flatMap fun current => if current.isDynamic then current.data else []

/-- The output of the last two loops. -/
def assemble (inputs : List EncodedInput) : Exec Cells := do
  let heads ← moveHeads (headsSize inputs) inputs
  return heads ++ moveTails inputs

section
variable (keccak_256 : Keccak)

/-- The first four bytes of the hash of the signature. -/
def generateFunctionSelector (function : FunctionAbi) : Exec Bytes := do
  let functionSign ← function.getSignature
  return (Signer.getHash keccak_256 functionSign).toList.take 4

/-- The loop over the functions, on the call data and the output string so far. -/
def callDataLoop (functionName : Bytes) (params : ParameterValuesDictionary) :
    List FunctionAbi → Cells → Cells → Exec (ResultCode × Cells)
  | [], _, out => .ok (.success, out)
  | function :: rest, contractData, out =>
    if function.name = functionName then do
      let selector ← generateFunctionSelector keccak_256 function
      let contractData := contractData ++ cells selector
      let out ← vectorToHexString contractData
      match ← encodeInputs params function.inputs with
      | none => return (.errorBadParameter, out)
      | some inputs =>
        let contractData := contractData ++ (← assemble inputs)
        callDataLoop functionName params rest contractData (← vectorToHexString contractData)
    else callDataLoop functionName params rest contractData out

/-- `generateCallData`: the result and the contents of `out` afterwards. -/
def generateCallData (contract : Contract) (functionName : Bytes) (params : ParameterValuesDictionary)
    (out : Cells) : Exec (ResultCode × Cells) :=
  callDataLoop keccak_256 functionName params contract.functions [] out

end

end Contract

end Iotex
