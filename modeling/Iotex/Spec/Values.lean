import Iotex.Lib.HeadTail
import Iotex.Model.Contract

/-! # Contract argument values

What the call-data encoder is for: values of the contract ABI types, the standard encoding of an
argument list, and the value that a supplied parameter denotes at a declared type. A parameter of
another type, size or range denotes no value.
-/

namespace Iotex.Spec

/-- A value of an elementary static type. -/
inductive Scalar where
  | uint (value : ℕ)
  | int (value : ℤ)
  | bool (value : Bool)
  | address (bytes : Bytes)
  | bytesN (data : Bytes)
deriving DecidableEq, Repr

namespace Scalar

/-- The 32-byte word of a value. -/
def word : Scalar → Bytes
  | uint value => beBytes 32 value
  | int value => beBytes 32 (value % 2 ^ 256).toNat
  | bool value => beBytes 32 (if value then 1 else 0)
  | address bytes => List.replicate 12 0 ++ bytes
  | bytesN data => padRight 32 data

end Scalar

def words (items : List Scalar) : Bytes := (items.map Scalar.word).flatten

/-- The length word and the padded bytes of a string. -/
def encodeData (data : Bytes) : Bytes := beBytes 32 data.length ++ padRight 32 data

/-- An argument. -/
inductive Value where
  | scalar (value : Scalar)
  | fixedArray (items : List Scalar)
  | data (bytes : Bytes)
  | dynamicArray (items : List Scalar)
  | dataArray (items : List Bytes)
deriving DecidableEq, Repr

open HeadTail in
/-- An argument as a part of the argument tuple. -/
def Value.part : Value → Part
  | scalar value => .inPlace value.word
  | fixedArray items => .inPlace (words items)
  | data bytes => .byOffset (encodeData bytes)
  | dynamicArray items => .byOffset (beBytes 32 items.length ++ words items)
  | dataArray items => .byOffset (layout 32 (beBytes 32) (items.map fun item => .byOffset (encodeData item)))

/-- The standard encoding of an argument list. -/
def encodeArguments (values : List Value) : Bytes := HeadTail.layout 32 (beBytes 32) (values.map Value.part)

/-! ## Values of parameters -/

/-- The number that a buffer holds in two's complement, least significant byte first. -/
def twosComplement (buffer : Bytes) : ℤ := (leNat buffer : ℤ).bmod (256 ^ buffer.length)

/-- Whether a size is one of the integer members of a parameter value. -/
def isIntegerSize (size : Int32) : Bool := size.toInt = 1 ∨ size.toInt = 2 ∨ size.toInt = 4 ∨ size.toInt = 8

/-- The width of an integer type; an array of bare integers leaves its element width unset. -/
def integerWidth (sizeBytes : UInt32) : ℕ := if sizeBytes = 0 then 32 else sizeBytes.toNat

/-- The values of an elementary type of the given width. -/
def Scalar.HasType : EthereumTypeName → UInt32 → Scalar → Prop
  | .uint, sizeBytes, .uint value => integerWidth sizeBytes ≤ 32 ∧ value < 256 ^ integerWidth sizeBytes
  | .int, sizeBytes, .int value =>
    integerWidth sizeBytes ≤ 32 ∧ -256 ^ integerWidth sizeBytes ≤ 2 * value ∧ 2 * value < 256 ^ integerWidth sizeBytes
  | .bool, _, .bool _ => True
  | .address, _, .address bytes => bytes.length = 20
  | .bytesStatic, sizeBytes, .bytesN data =>
    data.length = sizeBytes.toNat ∧ 1 ≤ sizeBytes.toNat ∧ sizeBytes.toNat ≤ 32
  | _, _, _ => False

/-- The first bytes of an array, if it has as many and all of them are written. -/
def firstBytes? (data : Cells) (count : ℕ) : Option Bytes :=
  if count ≤ data.length then writtenBytes? (data.take count) else none

theorem firstBytes?_eq_some {data : Cells} {count : ℕ} {bytes : Bytes} :
    firstBytes? data count = some bytes ↔ bytes.length = count ∧ data.take count = cells bytes := by
  rw [firstBytes?]
  split_ifs with enough
  · rw [writtenBytes?_eq_some, iff_and_self]
    intro same
    have length := congrArg List.length same
    rw [List.length_take, Nat.min_eq_left enough, cells_length] at length
    exact length.symm
  · simp only [false_iff, not_and]
    intro sized same
    have length := congrArg List.length same
    rw [List.length_take, cells_length, sized] at length
    omega

theorem firstBytes?_cells {bytes : Bytes} {count : ℕ} (enough : count ≤ bytes.length) :
    firstBytes? (cells bytes) count = some (bytes.take count) := by
  rw [firstBytes?_eq_some, List.length_take, Nat.min_eq_left enough]
  exact ⟨rfl, cells_take bytes count⟩

/-- The value of a parameter at an elementary type of the given width. -/
def scalarOf? (type : EthereumTypeName) (sizeBytes : UInt32) (param : ParameterValue) : Option Scalar :=
  match type, param.value with
  | .uint, .plain written =>
    if param.isBigInt = false ∧ isIntegerSize param.size ∧ param.size.toNatClampNeg ≤ written.length ∧
        integerWidth sizeBytes ≤ 32 ∧ leNat (written.take param.size.toNatClampNeg) < 256 ^ integerWidth sizeBytes then
      some (.uint (leNat (written.take param.size.toNatClampNeg)))
    else none
  | .int, .plain written =>
    if param.isBigInt = false ∧ isIntegerSize param.size ∧ param.size.toNatClampNeg ≤ written.length ∧
        integerWidth sizeBytes ≤ 32 ∧
        -256 ^ integerWidth sizeBytes ≤ 2 * twosComplement (written.take param.size.toNatClampNeg) ∧
        2 * twosComplement (written.take param.size.toNatClampNeg) < 256 ^ integerWidth sizeBytes then
      some (.int (twosComplement (written.take param.size.toNatClampNeg)))
    else none
  | .bool, .plain (byte :: _) =>
    if byte = 0 then some (.bool false) else if byte = 1 then some (.bool true) else none
  | .address, .bytes _ data => (firstBytes? data 20).map .address
  | .bytesStatic, .bytes _ data =>
    if param.size.toInt = sizeBytes.toNat ∧ 1 ≤ sizeBytes.toNat ∧ sizeBytes.toNat ≤ 32 then
      (firstBytes? data sizeBytes.toNat).map .bytesN
    else none
  | _, _ => none

/-- The bytes of a string or of dynamic bytes. -/
def dataOf? (type : EthereumTypeName) (param : ParameterValue) : Option Bytes :=
  match type, param.value with
  | .string, .string _ text => some text.text
  | .bytesDynamic, .bytes _ data => if 0 ≤ param.size.toInt then firstBytes? data param.size.toNatClampNeg else none
  | _, _ => none

/-- The elements of an array whose elements carry the declared type. -/
def elementsOf? {α : Type} (type : EthereumTypeName) (read : ParameterValue → Option α) (param : ParameterValue) :
    Option (List α) :=
  match param.value with
  | .elements _ items =>
    if 1 ≤ param.size.toInt ∧ param.size.toInt ≤ items.length then
      (items.take param.size.toNatClampNeg).mapM fun item => if item.type = type then read item else none
    else none
  | _ => none

/-- The value of a parameter at the type of an input. -/
def valueOf? (input : InputOutputAbi) (param : ParameterValue) : Option Value :=
  match input.type with
  | .uint | .int | .bool | .address | .bytesStatic => (scalarOf? input.type input.sizeBytes param).map .scalar
  | .string | .bytesDynamic => (dataOf? input.type param).map .data
  | .arrayStatic =>
    if param.size.toInt = input.arraySize.toNat then
      if input.arrayType.isDynamic then
        (elementsOf? input.arrayType (dataOf? input.arrayType) param).map .dataArray
      else
        (elementsOf? input.arrayType (scalarOf? input.arrayType input.arrayTypeSizeBytes) param).map .fixedArray
    else none
  | .arrayDynamic =>
    (elementsOf? input.arrayType (scalarOf? input.arrayType input.arrayTypeSizeBytes) param).map .dynamicArray
  | _ => none

/-- The argument list of a call; `none` when a value is missing or of another type. -/
def valuesOf? (params : ParameterValuesDictionary) (inputs : List InputOutputAbi) : Option (List Value) :=
  inputs.mapM fun input => (params.getParameter? input.name).bind (valueOf? input)

/-- The function selector: the first four bytes of the hash of the signature. -/
def selector (keccak_256 : Keccak) (signature : Bytes) : Bytes := (keccak_256 signature).toList.take 4

/-- A stand-in for the hash in concrete runs: the data itself, cut or padded to 32 bytes. -/
def paddedHash : Keccak := fun data => Vector.ofFn fun i => data.getD i 0

/-- Every byte length is exact in the encoder's single-precision arithmetic. -/
def Value.Short : Value → Prop
  | data bytes => bytes.length < 2 ^ 24
  | dataArray items => ∀ item ∈ items, item.length < 2 ^ 24
  | _ => True

end Iotex.Spec
