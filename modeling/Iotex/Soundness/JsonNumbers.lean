import Iotex.Proofs.ActionResponses

/-! # Numbers of a response

What is stored for a JSON number. The parser has already cut it to an `int`, and the conversion to the
type of the target is not checked; so every number is a success, and exactly the natural numbers in the
range of both types are stored as they are.
-/

namespace Iotex

open Spec

/-- A number that the target's type has is stored as it is, and any other one is refused. -/
structure StoresExactly (type : UnsignedType) (mantissa exponent : ℤ) (target : BitVec type.bits) : Prop where
  stores : ∀ value < 2 ^ type.bits, NumberIs (some (.num mantissa exponent)) value →
    setUnsignedFromJsonObject type (some (.num mantissa exponent)) target = (.success, BitVec.ofNat type.bits value)
  refuses : (∀ value < 2 ^ type.bits, ¬NumberIs (some (.num mantissa exponent)) value) →
    setUnsignedFromJsonObject type (some (.num mantissa exponent)) target = (.errorJsonParse, target)

theorem numberIs_num {mantissa exponent : ℤ} {value : ℕ} :
    NumberIs (some (.num mantissa exponent)) value ↔
      mantissa * 10 ^ exponent.toNat = value * 10 ^ (-exponent).toNat := by
  constructor
  · rintro ⟨m, e, given, same⟩
    obtain ⟨rfl, rfl⟩ := Json.num.inj (Option.some.inj given)
    exact same
  · intro same
    exact ⟨_, _, rfl, same⟩

/-- A number equals at most one natural number. -/
theorem numberIs_inj {mantissa exponent : ℤ} {a b : ℕ} (first : NumberIs (some (.num mantissa exponent)) a)
    (second : NumberIs (some (.num mantissa exponent)) b) : a = b := by
  have same := (numberIs_num.mp first).symm.trans (numberIs_num.mp second)
  have positive : (10 : ℤ) ^ (-exponent).toNat ≠ 0 := by positivity
  exact_mod_cast mul_right_cancel₀ positive same

/-- A natural number is stored as what `int` leaves of it. -/
theorem setUnsignedFromJsonObject_natural {type : UnsignedType} {mantissa exponent : ℤ} {value : ℕ}
    (natural : NumberIs (some (.num mantissa exponent)) value) (target : BitVec type.bits) :
    setUnsignedFromJsonObject type (some (.num mantissa exponent)) target =
      (.success, BitVec.ofNat type.bits (min value (2 ^ 31 - 1))) := by
  have cut : valueint mantissa exponent = ((min value (2 ^ 31 - 1) : ℕ) : ℤ) := by
    rw [valueint_of_natural (numberIs_num.mp natural)]
    omega
  rw [setUnsignedFromJsonObject, cut, BitVec.ofInt_natCast]

/-- A number is treated exactly when it is a natural number that both the target's type and `int` have. -/
theorem setUnsignedFromJsonObject_exact_iff (type : UnsignedType) (mantissa exponent : ℤ) (target : BitVec type.bits) :
    StoresExactly type mantissa exponent target ↔
      ∃ value, value < 2 ^ type.bits ∧ value < 2 ^ 31 ∧ NumberIs (some (.num mantissa exponent)) value := by
  constructor
  · intro exact
    by_contra none
    by_cases natural : ∃ value < 2 ^ type.bits, NumberIs (some (.num mantissa exponent)) value
    · obtain ⟨value, bound, same⟩ := natural
      have large : 2 ^ 31 ≤ value := by
        by_contra small
        exact none ⟨value, bound, by omega, same⟩
      have stored := (setUnsignedFromJsonObject_natural same target).symm.trans (exact.stores value bound same)
      have equal := congrArg BitVec.toNat (Prod.mk.inj stored).2
      rw [BitVec.toNat_ofNat, BitVec.toNat_ofNat, Nat.mod_eq_of_lt bound, Nat.mod_eq_of_lt (by omega)] at equal
      omega
    · have refused := exact.refuses fun value bound same => natural ⟨value, bound, same⟩
      rw [setUnsignedFromJsonObject] at refused
      simp at refused
  · rintro ⟨value, bound, small, same⟩
    constructor
    · intro other _ equal
      rw [← numberIs_inj same equal, setUnsignedFromJsonObject_natural same, Nat.min_eq_left (by omega)]
    · intro none
      exact absurd same (none value bound)

/-- A negative number becomes a large one, and a large one becomes the greatest `int`. -/
theorem minusOne_not_refused :
    setUnsignedFromJsonObject .uint32 (some (.num (-1) 0)) 7 = (.success, 4294967295) ∧
      setUnsignedFromJsonObject .uint64 (some (.num 3000000000 0)) 7 = (.success, 2147483647) ∧
      ¬StoresExactly .uint32 (-1) 0 7 ∧ ¬StoresExactly .uint64 3000000000 0 7 := by
  refine ⟨by decide, by decide, ?_, ?_⟩
  · intro exact
    have refused := exact.refuses fun value _ same => by
      have equal := numberIs_num.mp same
      simp at equal
    rw [setUnsignedFromJsonObject] at refused
    simp at refused
  · intro exact
    have stored := exact.stores 3000000000 (by decide) (numberIs_num.mpr (by norm_num))
    exact absurd stored (by decide)

end Iotex
