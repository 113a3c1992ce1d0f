import Iotex.Model.Contract

/-! # What can be encoded

Which parameters the encoder is documented not to support, at any depth of their arrays. The elements of
an array are as many of the items behind its pointer as its size says.
-/

namespace Iotex.Spec

/-- An integer that is not held in one of the integer members. -/
def oversized (size : Int32) (isBigInt : Bool) : Bool := isBigInt || size.toInt < 0 || 8 < size.toInt

mutual

/-- A parameter that cannot be encoded at a type: an unsupported integer, a dynamic array of dynamic
elements, a tuple or an unknown type, or an array with such an element. -/
def unencodable : ParameterValue → EthereumTypeName → Bool
  | ⟨value, size, isBigInt, _⟩, type =>
    match type with
    | .uint | .int => oversized size isBigInt
    | .arrayStatic => unencodableArray value false size.toNatClampNeg
    | .arrayDynamic => unencodableArray value true size.toNatClampNeg
    | .tupleStatic | .tupleDynamic | .unknown => true
    | _ => false
termination_by structural param => param

def unencodableArray : ValueUnion ParameterValue → Bool → ℕ → Bool
  | .elements _ items, isDynamicArray, count => unencodableElements items isDynamicArray count
  | _, _, _ => false
termination_by structural value => value

def unencodableElements : List ParameterValue → Bool → ℕ → Bool
  | item :: rest, isDynamicArray, count + 1 =>
    (isDynamicArray && item.isDynamic) || unencodable item item.type || unencodableElements rest isDynamicArray count
  | _, _, _ => false
termination_by structural items => items

end

theorem unencodable_unknown (param : ParameterValue) : unencodable param .unknown = true := by
  cases param
  rfl

end Iotex.Spec
