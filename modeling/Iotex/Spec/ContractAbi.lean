import Iotex.Model.ContractAbi
import Iotex.Spec.Responses
import Iotex.Spec.TypeNames

/-! # What a contract's ABI says

The functions that the elements of an ABI describe: names, types of inputs and outputs in order, and
the members that may be left out. The parser's results are compared with it, and so are the elements
on which the parser gives up before it has changed anything.
-/

namespace Iotex.Spec

/-! ## Types -/

/-- The enumerator and the width in bytes of an elementary type; a bare integer has the full width. -/
def ElementaryType.tagAndWidth : ElementaryType → EthereumTypeName × Option ℕ
  | uint none => (.uint, some 32)
  | uint (some width) => (.uint, some width.bytes)
  | int none => (.int, some 32)
  | int (some width) => (.int, some width.bytes)
  | address => (.address, none)
  | bool => (.bool, none)
  | string => (.string, none)
  | bytes => (.bytesDynamic, none)
  | bytesN width => (.bytesStatic, some width.bytes)

/-- The input has the type; members that the type leaves open may hold anything. -/
def Represents (input : InputOutputAbi) : AbiType → Prop
  | .elementary type =>
    input.type = type.tagAndWidth.1 ∧ ∀ width ∈ type.tagAndWidth.2, input.sizeBytes.toNat = width
  | .dynamicArray element =>
    input.type = .arrayDynamic ∧ input.arrayType = element.tagAndWidth.1 ∧
      input.arrayTypeSizeBytes.toNat = element.tagAndWidth.2.getD 0
  | .fixedArray element length =>
    input.type = .arrayStatic ∧ input.arrayType = element.tagAndWidth.1 ∧
      input.arrayTypeSizeBytes.toNat = element.tagAndWidth.2.getD 0 ∧ input.arraySize.toNat = length.count

/-- The name and the type of an entry are those of the input. -/
def DescribesInput (data : Json) (input : InputOutputAbi) : Prop :=
  charsOf? (data.get? (ascii "name")) = some input.name ∧
    ∃ type : AbiType, charsOf? (data.get? (ascii "type")) = some type.text ∧ Represents input type

/-! ## Functions -/

/-- What stands for a member that an element leaves out. -/
structure Defaults where
  constant : Bool
  payable : Bool
  stateMutability : Bytes

/-- The flag that a member gives, or the default without the member. -/
def FlagIs (default : Bool) (member : Option Json) (value : Bool) : Prop :=
  boolOf? member = some value ∨ member = none ∧ value = default

/-- The characters that a member gives, or the default without the member. -/
def TextIs (default : Bytes) (member : Option Json) (value : Bytes) : Prop :=
  charsOf? member = some value ∨ member = none ∧ value = default

/-- The entries of an array describe the inputs in order. -/
def DescribesInputs (member : Option Json) (inputs : List InputOutputAbi) : Prop :=
  ∃ entries, member = some (.arr entries) ∧ List.Forall₂ DescribesInput entries inputs

structure DescribesFunction (defaults : Defaults) (element : Json) (function : FunctionAbi) : Prop where
  name : charsOf? (element.get? (ascii "name")) = some function.name
  inputs : DescribesInputs (element.get? (ascii "inputs")) function.inputs
  outputs : DescribesInputs (element.get? (ascii "outputs")) function.outputs
  constant : FlagIs defaults.constant (element.get? (ascii "constant")) function.constant
  payable : FlagIs defaults.payable (element.get? (ascii "payable")) function.payable
  stateMutability :
    TextIs defaults.stateMutability (element.get? (ascii "stateMutability")) function.stateMutability

/-- The element is a function of the contract. -/
def isFunction (element : Json) : Bool := charsOf? (element.get? (ascii "type")) == some (ascii "function")

/-! ## Elements that are read exactly -/

/-- An entry with a name and a type that the parser reads exactly. -/
def ReadableInput (data : Json) : Prop :=
  (charsOf? (data.get? (ascii "name"))).isSome ∧
    ∃ type : AbiType, charsOf? (data.get? (ascii "type")) = some type.text ∧ type.Printable

def ReadableInputs (member : Option Json) : Prop :=
  ∃ entries, member = some (.arr entries) ∧ ∀ entry ∈ entries, ReadableInput entry

/-- A function with all members that the parser has no default for, each of the right type. -/
structure ReadableFunction (element : Json) : Prop where
  name : (charsOf? (element.get? (ascii "name"))).isSome
  inputs : ReadableInputs (element.get? (ascii "inputs"))
  outputs : ReadableInputs (element.get? (ascii "outputs"))
  constant : (boolOf? (element.get? (ascii "constant"))).isSome
  payable : (boolOf? (element.get? (ascii "payable"))).isSome
  stateMutability : element.get? (ascii "stateMutability") = none ∨
    (charsOf? (element.get? (ascii "stateMutability"))).isSome

/-! ## Strings that the parser gets through -/

/-- Every other character of a text, which a NUL terminates. -/
def everyOther : ℕ → Bytes → Bytes
  | 0, _ => []
  | count + 1, text => text.headD 0 :: everyOther count (text.drop 2)

/-- Behind an opening bracket: the loop over the length ends at a closing one before its index has
left the string, and the characters it copied denote an `int`. -/
def LengthStays (behind : Bytes) : Prop :=
  ∃ number rest, behind = number ++ 93 :: rest ∧ 93 ∉ number ∧
    (number = [] ∨ number.length ≤ rest.length + 3 ∧ ∃ value, atoi (everyOther number.length behind) = .ok value)

/-- Behind an element type. -/
def SuffixStays (suffix : Bytes) : Prop := ∀ behind, suffix = 91 :: behind → LengthStays behind

/-- Behind an opening bracket: the loop over the length ends at a closing one before its index has left
the string, whatever the characters denote. -/
def LengthInside (behind : Bytes) : Prop :=
  ∃ number rest, behind = number ++ 93 :: rest ∧ 93 ∉ number ∧ (number = [] ∨ number.length ≤ rest.length + 3)

def SuffixInside (suffix : Bytes) : Prop := ∀ behind, suffix = 91 :: behind → LengthInside behind

/-- The strings on whose characters the type parser stays inside of them and of its arrays, whatever
numbers they hold: up to three digits behind a keyword with a width, and a suffix that it reads. -/
def KeywordsInside (text : Bytes) : Prop :=
  (∀ keyword ∈ [ascii "uint", ascii "int", ascii "bytes"], ∀ behind, text = keyword ++ behind →
    (behind.takeWhile isDigit).length < 4 ∧ SuffixInside (behind.dropWhile isDigit)) ∧
  ∀ keyword ∈ [ascii "address", ascii "bool", ascii "string"], ∀ behind, text = keyword ++ behind →
    SuffixInside behind

/-- A string that has the characters of every literal it is compared with, its NUL included. -/
def Comparable (text : Bytes) : Prop :=
  text = [] ∨ text.head? = some 40 ∨ startsWith text (ascii "uint") = true ∨ startsWith text (ascii "int") = true ∨
    6 ≤ text.length

/-- The strings on which the part behind the keyword stays inside, for a type with an entry in the table. -/
def SizeInside (tag : EthereumTypeName) (text : Bytes) : Prop :=
  ∃ keyword, tag.toText = .ok keyword ∧ keyword.length ≤ text.length ∧
    if tag = .uint ∨ tag = .int ∨ tag = .bytesStatic then
      ((text.drop keyword.length).takeWhile isDigit).length < 4 ∧
        SuffixInside ((text.drop keyword.length).dropWhile isDigit)
    else SuffixInside (text.drop keyword.length)

/-- The strings that the type parser reads without leaving them or its arrays. -/
def StaysInside (text : Bytes) : Prop :=
  (∀ keyword ∈ [ascii "uint", ascii "int", ascii "bytes"], ∀ behind, text = keyword ++ behind →
    (behind.takeWhile isDigit).length < 4 ∧ SuffixStays (behind.dropWhile isDigit)) ∧
  ∀ keyword ∈ [ascii "address", ascii "bool", ascii "string"], ∀ behind, text = keyword ++ behind →
    SuffixStays behind

/-! ## Elements that are refused -/

/-- An entry that is an error whatever is in memory. -/
def RefusedInput (data : Json) : Prop :=
  charsOf? (data.get? (ascii "name")) = none ∨ charsOf? (data.get? (ascii "type")) = none ∨
    ∃ text, charsOf? (data.get? (ascii "type")) = some text ∧ RejectedType text

/-- An entry that the parser gets through. -/
def QuietInput (data : Json) : Prop :=
  charsOf? (data.get? (ascii "name")) = none ∨
    ∀ text, charsOf? (data.get? (ascii "type")) = some text → StaysInside text

/-- A member that is no array, or an array in which an entry is refused and all before it are got through. -/
def RefusedInputs (member : Option Json) : Prop :=
  ∀ entries, member = some (.arr entries) → ∃ before entry after, entries = before ++ entry :: after ∧
    (∀ other ∈ before, QuietInput other) ∧ RefusedInput entry

def QuietInputs (member : Option Json) : Prop :=
  ∀ entries, member = some (.arr entries) → ∀ entry ∈ entries, QuietInput entry

/-- A function that is an error whatever is in memory. -/
def RefusedFunction (element : Json) : Prop :=
  RefusedInputs (element.get? (ascii "inputs")) ∨
    QuietInputs (element.get? (ascii "inputs")) ∧ RefusedInputs (element.get? (ascii "outputs"))

def RefusedElement (element : Json) : Prop :=
  charsOf? (element.get? (ascii "type")) = none ∨ isFunction element = true ∧ RefusedFunction element

/-- Every element has a type and every function is read exactly, or an element is refused that no
function stands in front of. -/
def WholeOrRefused (elements : List Json) : Prop :=
  (∀ element ∈ elements, (charsOf? (element.get? (ascii "type"))).isSome ∧
    (isFunction element = true → ReadableFunction element)) ∨
  ∃ before element after, elements = before ++ element :: after ∧
    (∀ other ∈ before, (charsOf? (other.get? (ascii "type"))).isSome ∧ isFunction other = false) ∧
    RefusedElement element

end Iotex.Spec
