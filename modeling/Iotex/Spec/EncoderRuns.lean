import Iotex.Spec.Encodability

/-! # Runs of the encoder

What a parameter says of the run that encodes it: whether the run keeps to the memory behind the parameter
and to the range of `int`, which count it returns, how many bytes it appends and whether they are all
written. The loop over static elements stops at an element of unknown type; the one over dynamic elements
does not.
-/

namespace Iotex.Spec

/-! ## Elementary values -/

/-- The written bytes among the eight of a value. -/
def writtenWidth {α : Type} : ValueUnion α → ℕ
  | .plain written => min written.length 8
  | _ => 8

/-- The width of the number that the sign of an integer is taken from. -/
def signWidth (size : ℕ) : ℕ := if size ≤ 2 then size else if size ≤ 4 then 4 else 8

/-- An integer of the signed type, whose value is looked at, has its bytes written. -/
def intReadable {α : Type} (value : ValueUnion α) (size : Int32) (isBigInt : Bool) : Bool :=
  oversized size isBigInt || signWidth size.toNatClampNeg ≤ writtenWidth value

def addressReadable {α : Type} : ValueUnion α → Bool
  | .bytes _ data => 20 ≤ data.length
  | _ => false

/-- The number that the encoder of an integer returns. -/
def integerCount (size : Int32) (isBigInt : Bool) : ℤ :=
  if isBigInt ∨ 8 < size.toInt then 0 else if size.toInt < 0 then -1 else 32

/-! ## Byte strings -/

/-- The bytes of this many words, as an `int` counts them. -/
def wordsLength (words : ℕ) : ℕ := 32 * words % 2 ^ 32

/-- A byte string is there as far as its size says, its buffer has room for it, and the bytes that an `int`
counts are not negative. -/
def dataReadable (available size words : ℕ) : Bool :=
  size < 2 ^ 63 && size ≤ available && size ≤ 32 * n32ByteGroups size && wordsLength words < 2 ^ 31

def bytesReadable {α : Type} (value : ValueUnion α) (size words : ℕ) : Bool :=
  match value with
  | .bytes _ data => dataReadable data.length size words
  | _ => false

def textReadable {α : Type} : ValueUnion α → Bool
  | .string _ text => dataReadable text.text.length text.text.length (n32ByteGroups text.text.length + 1)
  | _ => false

def textLength {α : Type} : ValueUnion α → ℕ
  | .string _ text => wordsLength (n32ByteGroups text.text.length + 1)
  | _ => 0

/-- The first bytes behind a pointer are written. -/
def bytesWritten {α : Type} (value : ValueUnion α) (size : ℕ) : Bool :=
  match value with
  | .bytes _ data => (data.take size).all Option.isSome
  | _ => true

/-! ## Parameters -/

mutual

/-- The bytes that are appended for a parameter. -/
def encodedLength : ParameterValue → EthereumTypeName → ℕ
  | ⟨value, size, _, _⟩, type =>
    match type with
    | .uint | .int | .bool | .address => 32
    | .bytesStatic => wordsLength (n32ByteGroups (toSizeT size.toInt))
    | .bytesDynamic => wordsLength (n32ByteGroups (toSizeT size.toInt) + 1)
    | .string => textLength value
    | .arrayStatic => fixedArrayLength value size.toNatClampNeg
    | .arrayDynamic => dynamicArrayLength value size.toNatClampNeg
    | _ => 0
termination_by structural param => param

def fixedArrayLength : ValueUnion ParameterValue → ℕ → ℕ
  | .elements _ (first :: rest), count =>
    if first.isDynamic then 32 * count + dynamicElementsLength (first :: rest) count
    else staticElementsLength (first :: rest) count
  | _, _ => 0
termination_by structural value => value

def dynamicArrayLength : ValueUnion ParameterValue → ℕ → ℕ
  | .elements _ (first :: rest), count + 1 =>
    if first.isDynamic then 0 else 32 + staticElementsLength (first :: rest) (count + 1)
  | _, _ => 0
termination_by structural value => value

def staticElementsLength : List ParameterValue → ℕ → ℕ
  | item :: rest, count + 1 =>
    if item.type = .unknown then 0 else encodedLength item item.type + staticElementsLength rest count
  | _, _ => 0
termination_by structural items => items

def dynamicElementsLength : List ParameterValue → ℕ → ℕ
  | item :: rest, count + 1 => encodedLength item item.type + dynamicElementsLength rest count
  | _, _ => 0
termination_by structural items => items

end

/-- The sum of two counts; it is not set when one of them is not. -/
def sumCounts (a b : Count) : Count := do some ((← a) + (← b))

mutual

/-- The count that is returned for a parameter. It is not set for empty arrays, fixed-point numbers, tuples and
unknown types. -/
def returnedCount : ParameterValue → EthereumTypeName → Count
  | ⟨value, size, isBigInt, _⟩, type =>
    match type with
    | .uint | .int => some (integerCount size isBigInt)
    | .bool | .address => some 32
    | .bytesStatic => some (wordsLength (n32ByteGroups (toSizeT size.toInt)))
    | .bytesDynamic => some (wordsLength (n32ByteGroups (toSizeT size.toInt) + 1))
    | .string => some (textLength value)
    | .arrayStatic => if size.toInt ≤ 0 then none else fixedArrayCount value size.toNatClampNeg
    | .arrayDynamic => if size.toInt ≤ 0 then none else dynamicArrayCount value size.toNatClampNeg
    | _ => none
termination_by structural param => param

def fixedArrayCount : ValueUnion ParameterValue → ℕ → Count
  | .elements _ (first :: rest), count =>
    if first.isDynamic then some (toInt32 (32 * count + dynamicElementsLength (first :: rest) count))
    else staticElementsCount (first :: rest) count (some 0)
  | _, _ => none
termination_by structural value => value

def dynamicArrayCount : ValueUnion ParameterValue → ℕ → Count
  | .elements _ (first :: rest), count =>
    if first.isDynamic then some (-1)
    else (staticElementsCount (first :: rest) count (some 0)).map fun added => toInt32 (32 + added)
  | _, _ => none
termination_by structural value => value

def staticElementsCount : List ParameterValue → ℕ → Count → Count
  | item :: rest, count + 1, sum =>
    if item.type = .unknown then sum
    else staticElementsCount rest count (sumCounts sum (returnedCount item item.type))
  | _, _, sum => sum
termination_by structural items => items

end

/-- A count that is set is in the range of `int`. -/
def countInRange (count : Count) : Bool := count.all fun value => -2 ^ 31 ≤ value && value < 2 ^ 31

mutual

/-- Whether a parameter is encoded with defined behavior: the values behind its pointers are there, byte
strings are not cut by rounding, and the counts of elements add up in the range of `int`. -/
def readable : ParameterValue → EthereumTypeName → Bool
  | ⟨value, size, isBigInt, _⟩, type =>
    match type with
    | .int => intReadable value size isBigInt
    | .address => addressReadable value
    | .bytesStatic => bytesReadable value (toSizeT size.toInt) (n32ByteGroups (toSizeT size.toInt))
    | .bytesDynamic => bytesReadable value (toSizeT size.toInt) (n32ByteGroups (toSizeT size.toInt) + 1)
    | .string => textReadable value
    | .arrayStatic => size.toInt ≤ 0 || fixedArrayReadable value size.toNatClampNeg
    | .arrayDynamic => size.toInt ≤ 0 || dynamicArrayReadable value size.toNatClampNeg
    | _ => true
termination_by structural param => param

def fixedArrayReadable : ValueUnion ParameterValue → ℕ → Bool
  | .elements _ (first :: rest), count =>
    if first.isDynamic then 32 * count < 2 ^ 31 && dynamicElementsReadable (first :: rest) count
    else staticElementsReadable (first :: rest) count (some 0)
  | _, _ => false
termination_by structural value => value

def dynamicArrayReadable : ValueUnion ParameterValue → ℕ → Bool
  | .elements _ (first :: rest), count =>
    first.isDynamic || staticElementsReadable (first :: rest) count (some 0)
  | _, _ => false
termination_by structural value => value

def staticElementsReadable : List ParameterValue → ℕ → Count → Bool
  | item :: rest, count + 1, sum =>
    item.type == .unknown ||
      (readable item item.type && countInRange (sumCounts sum (returnedCount item item.type)) &&
        staticElementsReadable rest count (sumCounts sum (returnedCount item item.type)))
  | [], _ + 1, _ => false
  | _, 0, _ => true
termination_by structural items => items

def dynamicElementsReadable : List ParameterValue → ℕ → Bool
  | item :: rest, count + 1 => readable item item.type && dynamicElementsReadable rest count
  | [], _ + 1 => false
  | _, 0 => true
termination_by structural items => items

end

mutual

/-- Whether all bytes that are appended for a parameter are written: integers are held in an integer member,
the values themselves are written, and in a fixed array of dynamic elements all counts but the last are set. -/
def bytesSet : ParameterValue → EthereumTypeName → Bool
  | ⟨value, size, isBigInt, _⟩, type =>
    match type with
    | .uint => !oversized size isBigInt && size.toNatClampNeg ≤ writtenWidth value
    | .int => !oversized size isBigInt
    | .address => bytesWritten value 20
    | .bytesStatic | .bytesDynamic => bytesWritten value (toSizeT size.toInt)
    | .arrayStatic => size.toInt ≤ 0 || fixedArrayBytesSet value size.toNatClampNeg
    | .arrayDynamic => size.toInt ≤ 0 || dynamicArrayBytesSet value size.toNatClampNeg
    | _ => true
termination_by structural param => param

def fixedArrayBytesSet : ValueUnion ParameterValue → ℕ → Bool
  | .elements _ (first :: rest), count =>
    if first.isDynamic then
      dynamicElementsBytesSet (first :: rest) count &&
        ((first :: rest).take (count - 1)).all fun item => (returnedCount item item.type).isSome
    else staticElementsBytesSet (first :: rest) count
  | _, _ => true
termination_by structural value => value

def dynamicArrayBytesSet : ValueUnion ParameterValue → ℕ → Bool
  | .elements _ (first :: rest), count => first.isDynamic || staticElementsBytesSet (first :: rest) count
  | _, _ => true
termination_by structural value => value

def staticElementsBytesSet : List ParameterValue → ℕ → Bool
  | item :: rest, count + 1 => item.type == .unknown || (bytesSet item item.type && staticElementsBytesSet rest count)
  | _, _ => true
termination_by structural items => items

def dynamicElementsBytesSet : List ParameterValue → ℕ → Bool
  | item :: rest, count + 1 => bytesSet item item.type && dynamicElementsBytesSet rest count
  | _, _ => true
termination_by structural items => items

end

/-! ## Functions -/

/-- The types that a signature prints are known, and an `int` counts the inputs. -/
structure SignaturePrintable (function : FunctionAbi) : Prop where
  counted : function.inputs.length < 2 ^ 31
  types : ∀ input ∈ function.inputs, input.type ≠ .unknown
  elementTypes : ∀ input ∈ function.inputs, input.type ∈ [.arrayStatic, .arrayDynamic] → input.arrayType ≠ .unknown

/-- The input has a value that is encoded with defined behavior. -/
def Supplied (params : ParameterValuesDictionary) (input : InputOutputAbi) : Prop :=
  ∃ param, params.getParameter? input.name = some param ∧ readable param input.type = true

/-- The bytes of the value of an input. -/
def inputLength (params : ParameterValuesDictionary) (input : InputOutputAbi) : ℕ :=
  (params.getParameter? input.name).elim 0 fun param => encodedLength param input.type

/-- The function is encoded with defined behavior, if its call data is not too long. -/
structure Callable (params : ParameterValuesDictionary) (function : FunctionAbi) : Prop where
  signature : SignaturePrintable function
  supplied : ∀ input ∈ function.inputs, Supplied params input

/-- The bytes of the selector and of the values of a function's inputs. -/
def callLength (params : ParameterValuesDictionary) (function : FunctionAbi) : ℕ :=
  4 + (function.inputs.map (inputLength params)).sum

/-- An input of the function has no value, and those in front of it are encoded with defined behavior. -/
structure StopsCall (params : ParameterValuesDictionary) (function : FunctionAbi) : Prop where
  signature : SignaturePrintable function
  missing : ∃ before input after, function.inputs = before ++ input :: after ∧
    params.getParameter? input.name = none ∧
    ∀ earlier ∈ before, Supplied params earlier ∧ inputLength params earlier < 2 ^ 31

/-- The bytes of every value of a function's inputs are written. -/
def BytesSet (params : ParameterValuesDictionary) (function : FunctionAbi) : Prop :=
  ∀ input ∈ function.inputs, ∀ param, params.getParameter? input.name = some param →
    bytesSet param input.type = true

end Iotex.Spec
