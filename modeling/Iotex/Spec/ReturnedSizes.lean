import Iotex.Spec.Encodability

/-! # Counts and appended words

How many words an encoder appends for a parameter, and which parameters get a byte count that says so.
Nothing is appended behind an element of unknown type in an array of static elements; an array of dynamic
elements goes on.
-/

namespace Iotex.Spec

/-- The bytes behind the pointer, or the characters, that a value comes with. -/
def ownBytes (value : ValueUnion ParameterValue) : ℕ :=
  match value with
  | .bytes _ data => data.length
  | .string _ text => text.text.length
  | _ => 0

mutual

/-- The words that are appended for a parameter. -/
def appendedWords : ParameterValue → EthereumTypeName → ℕ
  | ⟨value, size, _, _⟩, type =>
    match type with
    | .uint | .int | .bool | .address => 1
    | .bytesStatic => blocks 32 (toSizeT size.toInt)
    | .bytesDynamic => 1 + blocks 32 (toSizeT size.toInt)
    | .string => 1 + blocks 32 (ownBytes value)
    | .arrayStatic => fixedArrayWords value size.toNatClampNeg
    | .arrayDynamic => dynamicArrayWords value size.toNatClampNeg
    | _ => 0
termination_by structural param => param

def fixedArrayWords : ValueUnion ParameterValue → ℕ → ℕ
  | .elements _ (first :: rest), count =>
    if first.isDynamic then count + dynamicElementsWords (first :: rest) count
    else staticElementsWords (first :: rest) count
  | _, _ => 0
termination_by structural value => value

def dynamicArrayWords : ValueUnion ParameterValue → ℕ → ℕ
  | .elements _ (first :: rest), count + 1 =>
    if first.isDynamic then 0 else 1 + staticElementsWords (first :: rest) (count + 1)
  | _, _ => 0
termination_by structural value => value

def staticElementsWords : List ParameterValue → ℕ → ℕ
  | item :: rest, count + 1 =>
    if item.type = .unknown then 0 else appendedWords item item.type + staticElementsWords rest count
  | _, _ => 0
termination_by structural items => items

def dynamicElementsWords : List ParameterValue → ℕ → ℕ
  | item :: rest, count + 1 => appendedWords item item.type + dynamicElementsWords rest count
  | _, _ => 0
termination_by structural items => items

end

mutual

/-- Whether the returned count is set: not for empty arrays, fixed-point numbers, tuples and unknown types. -/
def countReturned : ParameterValue → EthereumTypeName → Bool
  | ⟨value, size, _, _⟩, type =>
    match type with
    | .uint | .int | .bool | .address | .bytesStatic | .bytesDynamic | .string => true
    | .arrayStatic | .arrayDynamic => 0 < size.toInt && arrayCountReturned value size.toNatClampNeg
    | _ => false
termination_by structural param => param

def arrayCountReturned : ValueUnion ParameterValue → ℕ → Bool
  | .elements _ (first :: rest), count => first.isDynamic || elementCountsReturned (first :: rest) count
  | _, _ => false
termination_by structural value => value

def elementCountsReturned : List ParameterValue → ℕ → Bool
  | item :: rest, count + 1 =>
    item.type == .unknown || (countReturned item item.type && elementCountsReturned rest count)
  | _, _ => true
termination_by structural items => items

end

mutual

/-- Whether the returned count is that of the appended bytes: integers are held in an integer member, arrays
are not empty, the elements in front of one of unknown type agree, and a sum that is converted to an `int`
fits. Behind offsets the elements' own counts do not matter. -/
def countAgrees : ParameterValue → EthereumTypeName → Bool
  | ⟨value, size, isBigInt, _⟩, type =>
    match type with
    | .uint | .int => !oversized size isBigInt
    | .bool | .address | .bytesStatic | .bytesDynamic | .string => true
    | .arrayStatic => 0 < size.toInt && fixedArrayCountAgrees value size.toNatClampNeg
    | .arrayDynamic => 0 < size.toInt && dynamicArrayCountAgrees value size.toNatClampNeg
    | _ => false
termination_by structural param => param

def fixedArrayCountAgrees : ValueUnion ParameterValue → ℕ → Bool
  | .elements _ (first :: rest), count =>
    if first.isDynamic then 32 * (count + dynamicElementsWords (first :: rest) count) < 2 ^ 31
    else elementCountsAgree (first :: rest) count
  | _, _ => false
termination_by structural value => value

def dynamicArrayCountAgrees : ValueUnion ParameterValue → ℕ → Bool
  | .elements _ (first :: rest), count =>
    !first.isDynamic && elementCountsAgree (first :: rest) count &&
      32 * (1 + staticElementsWords (first :: rest) count) < 2 ^ 31
  | _, _ => false
termination_by structural value => value

def elementCountsAgree : List ParameterValue → ℕ → Bool
  | item :: rest, count + 1 => item.type == .unknown || (countAgrees item item.type && elementCountsAgree rest count)
  | _, _ => true
termination_by structural items => items

end

mutual

/-- Every byte string and text of a parameter is shorter than 2^24 bytes; of a byte string count those that
are there and lie within the size. -/
def shortData : ParameterValue → EthereumTypeName → Bool
  | ⟨value, size, _, _⟩, type =>
    match type with
    | .bytesStatic | .bytesDynamic => min (toSizeT size.toInt) (ownBytes value) < 2 ^ 24
    | .string => ownBytes value < 2 ^ 24
    | .arrayStatic | .arrayDynamic => shortArrayData value size.toNatClampNeg
    | _ => true
termination_by structural param => param

def shortArrayData : ValueUnion ParameterValue → ℕ → Bool
  | .elements _ items, count => shortElementData items count
  | _, _ => true
termination_by structural value => value

def shortElementData : List ParameterValue → ℕ → Bool
  | item :: rest, count + 1 => shortData item item.type && shortElementData rest count
  | _, _ => true
termination_by structural items => items

end

mutual

/-- Whether a parameter holds anything: static bytes of a size other than zero, an array with elements, which
hold something in a fixed array of static elements; everything else does. -/
def holdsSomething : ParameterValue → EthereumTypeName → Bool
  | ⟨value, size, _, _⟩, type =>
    match type with
    | .bytesStatic => size.toInt != 0
    | .arrayStatic => 0 < size.toInt && arrayHoldsSomething value size.toNatClampNeg
    | .arrayDynamic => 0 < size.toInt
    | _ => true
termination_by structural param => param

def arrayHoldsSomething : ValueUnion ParameterValue → ℕ → Bool
  | .elements _ (first :: rest), count => first.isDynamic || someElementHolds (first :: rest) count
  | _, _ => false
termination_by structural value => value

def someElementHolds : List ParameterValue → ℕ → Bool
  | item :: rest, count + 1 => holdsSomething item item.type || someElementHolds rest count
  | _, _ => false
termination_by structural items => items

end

/-! ## What a returned number says -/

/-- The number may come back for a count: a variable that was never set may hold any number. -/
def MayReturn (count : Count) (number : ℤ) : Prop := ∀ value ∈ count, value = number

/-- A number that is not negative is that of the appended bytes, whole words of them for a supported
parameter that is not empty; with a negative number nothing has changed. -/
structure Reports (param : ParameterValue) (type : EthereumTypeName) (data after : Cells) (number : ℤ) : Prop where
  appended : 0 ≤ number → ∃ added, after = data ++ added ∧ (added.length : ℤ) = number
  words : 0 ≤ number → unencodable param type = false → holdsSomething param type = true → 0 < number ∧ 32 ∣ number
  unchanged : number < 0 → after = data

end Iotex.Spec
