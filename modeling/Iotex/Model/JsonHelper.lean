import Iotex.Lib.Json
import Iotex.Model.Machine

/-! # Reading members of a parsed JSON value

`SetValueFromJsonObject` for the kinds of target the library stores into. A missing member is
`none`, as the null pointer that the lookup returns. A refused value leaves the target unchanged.
-/

namespace Iotex

/-- `cJSON_GetObjectItemCaseSensitive`: the first member with the given name, by `strcmp`. -/
def getObjectItem (data : Json) (name : Bytes) : Option Json := data.get? name

/-- `SetValueFromJsonObject` for `CppType::STRING`; a zero `maxSize` is no limit. -/
def setStringFromJsonObject (json : Option Json) (target : Bytes) (maxSize : ℕ) : ResultCode × Bytes :=
  match json with
  | some (.str text) =>
    if 0 < maxSize ∧ maxSize < (cString text).length then (.errorJsonParse, target)
    else (.success, cString text)
  | _ => (.errorJsonParse, target)

/-- `SetValueFromJsonObject` for `CppType::C_STRING`: the characters are copied without a NUL. -/
def setCStringFromJsonObject (json : Option Json) (target : Cells) (maxSize : ℕ) : Exec (ResultCode × Cells) :=
  match json with
  | some (.str text) =>
    if 0 < maxSize ∧ maxSize < (cString text).length then .ok (.errorJsonParse, target)
    else if target.length < (cString text).length then .error .outOfBounds
    else .ok (.success, cells (cString text) ++ target.drop (cString text).length)
  | _ => .ok (.errorJsonParse, target)

/-- `SetValueFromJsonObject` for `CppType::BOOLEAN`. -/
def setBoolFromJsonObject (json : Option Json) (target : Bool) : ResultCode × Bool :=
  match json with
  | some (.bool value) => (.success, value)
  | _ => (.errorJsonParse, target)

/-- The `valueint` of a number: without its fraction, within the range of `int`. -/
def valueint (mantissa exponent : ℤ) : ℤ :=
  let truncated := if 0 ≤ exponent then mantissa * 10 ^ exponent.toNat else mantissa.tdiv (10 ^ (-exponent).toNat)
  max (-2 ^ 31) (min truncated (2 ^ 31 - 1))

/-- `SetValueFromJsonObject` for `CppType::UINT32`. -/
def setUint32FromJsonObject (json : Option Json) (target : UInt32) : ResultCode × UInt32 :=
  match json with
  | some (.num mantissa exponent) => (.success, UInt32.ofNat (valueint mantissa exponent % 2 ^ 32).toNat)
  | _ => (.errorJsonParse, target)

/-- The kinds of unsigned target. -/
inductive UnsignedType where
  | uint8
  | uint16
  | uint32
  | uint64
deriving DecidableEq, Repr

def UnsignedType.bits : UnsignedType → ℕ
  | uint8 => 8
  | uint16 => 16
  | uint32 => 32
  | uint64 => 64

/-- `SetValueFromJsonObject` for the unsigned kinds, in both copies of the function: an `int` is converted
to the type of the target. -/
def setUnsignedFromJsonObject (type : UnsignedType) (json : Option Json) (target : BitVec type.bits) :
    ResultCode × BitVec type.bits :=
  match json with
  | some (.num mantissa exponent) => (.success, BitVec.ofInt type.bits (valueint mantissa exponent))
  | _ => (.errorJsonParse, target)

/-- The extraction of a version is the case of 32 bits. -/
theorem setUint32FromJsonObject_eq (json : Option Json) (target : UInt32) :
    Prod.map id UInt32.toBitVec (setUint32FromJsonObject json target) =
      setUnsignedFromJsonObject .uint32 json target.toBitVec := by
  have converted (number : ℤ) : (UInt32.ofNat (number % 2 ^ 32).toNat).toBitVec = BitVec.ofInt 32 number := by
    apply BitVec.eq_of_toNat_eq
    rw [UInt32.toNat_toBitVec, UInt32.toNat_ofNat', BitVec.toNat_ofInt]
    omega
  cases json with
  | none => rfl
  | some value =>
    cases value with
    | num mantissa exponent => exact congrArg (Prod.mk ResultCode.success) (converted _)
    | _ => rfl

theorem setStringFromJsonObject_str {text target : Bytes} (noNul : (0 : UInt8) ∉ text) :
    setStringFromJsonObject (some (.str text)) target 0 = (.success, text) := by
  simp only [setStringFromJsonObject, lt_irrefl, false_and, ↓reduceIte, cString_of_noNul noNul]

end Iotex
