import Iotex.Model.Abi

/-! # Type names of the contract ABI

The supported type names: elementary types and one level of arrays over them. Widths and array
lengths carry their bounds, so every value is a type name of the grammar. The canonical form spells
out the width of a bare integer; it is what a function selector is computed from.
-/

namespace Iotex.Spec

/-- The width of a sized type in bytes. -/
structure ByteWidth where
  bytes : ℕ
  positive : 1 ≤ bytes
  bound : bytes ≤ 32
deriving DecidableEq

/-- The length of a fixed array, a positive 32-bit number. -/
structure ArrayLength where
  count : ℕ
  positive : 1 ≤ count
  bound : count < 2 ^ 32
deriving DecidableEq

inductive ElementaryType where
  | uint (width : Option ByteWidth)
  | int (width : Option ByteWidth)
  | address
  | bool
  | string
  | bytes
  | bytesN (width : ByteWidth)
deriving DecidableEq

inductive AbiType where
  | elementary (type : ElementaryType)
  | dynamicArray (element : ElementaryType)
  | fixedArray (element : ElementaryType) (length : ArrayLength)
deriving DecidableEq

namespace ElementaryType

/-- The keyword of a type. -/
def keyword : ElementaryType → Bytes
  | uint _ => ascii "uint"
  | int _ => ascii "int"
  | address => ascii "address"
  | bool => ascii "bool"
  | string => ascii "string"
  | bytes => ascii "bytes"
  | bytesN _ => ascii "bytes"

/-- The number behind the keyword, in bits for integers and in bytes for byte strings. -/
def digits : ElementaryType → Bytes
  | uint (some width) => decimal (8 * width.bytes)
  | int (some width) => decimal (8 * width.bytes)
  | bytesN width => decimal width.bytes
  | _ => []

def text (type : ElementaryType) : Bytes := type.keyword ++ type.digits

/-- An integer type whose width is left out. -/
def isBare : ElementaryType → Bool
  | uint none | int none => true
  | _ => false

/-- The text with the width of an integer spelled out. -/
def canonical (type : ElementaryType) : Bytes := type.text ++ if type.isBare then ascii "256" else []

end ElementaryType

namespace AbiType

def element : AbiType → ElementaryType
  | elementary type => type
  | dynamicArray element => element
  | fixedArray element _ => element

/-- What stands behind the element type. -/
def suffix : AbiType → Bytes
  | elementary _ => []
  | dynamicArray _ => ascii "[]"
  | fixedArray _ length => 91 :: decimal length.count ++ [93]

def text (type : AbiType) : Bytes := type.element.text ++ type.suffix

def canonical (type : AbiType) : Bytes := type.element.canonical ++ type.suffix

/-- A type that is printed as it should be: its array length has one digit, and the elements of an
array are not bare integers. -/
def Printable : AbiType → Prop
  | elementary _ => True
  | dynamicArray element => element.isBare = false
  | fixedArray element length => element.isBare = false ∧ length.count < 10

end AbiType

/-- The strings that name a type. -/
def TypeName (text : Bytes) : Prop := ∃ type : AbiType, text = type.text

/-- The strings that the parser rejects. -/
def RejectedType (text : Bytes) : Prop :=
  text = [] ∨ text.head? = some 40 ∨
    ∃ keyword ∈ [ascii "uint", ascii "int", ascii "bytes"], ∃ digits char rest,
      text = keyword ++ (digits ++ char :: rest) ∧ digits.length ≤ 3 ∧ (∀ digit ∈ digits, isDigit digit = true) ∧
        isDigit char = false ∧ char ≠ 91

/-- An entry of a function's inputs in the ABI, with the memory the parser reads it into. -/
structure AbiEntry where
  type : AbiType
  json : Json
  name : Bytes
  memory : InputOutputAbi
  nameGiven : getObjectItem json (ascii "name") = some (.str name)
  typeGiven : getObjectItem json (ascii "type") = some (.str type.text)

/-- Pieces separated by commas. -/
def commaSeparated (pieces : List Bytes) : Bytes := (pieces.intersperse [44]).flatten

end Iotex.Spec
