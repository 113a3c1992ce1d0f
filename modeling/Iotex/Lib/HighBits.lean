import Mathlib.Data.Nat.Bitwise
import Mathlib.Tactic.Ring

/-! # Numbers read from their highest bit down

The digits of a number above a position, the step that adds the digit at the next position, and the
number with every bit set up to the highest bit of another, which shifts of growing width compute.
-/

namespace Iotex

/-- The digits of a number below a position, the highest first. -/
def bitsBelow (value : ℕ) : ℕ → List Bool
  | 0 => []
  | position + 1 => value.testBit position :: bitsBelow value position

@[simp] theorem bitsBelow_length (value position : ℕ) : (bitsBelow value position).length = position := by
  induction position with
  | zero => rfl
  | succ position ih => rw [bitsBelow, List.length_cons, ih]

/-- The number without its digits below a position. -/
def highPart (value position : ℕ) : ℕ := value / 2 ^ position * 2 ^ position

@[simp] theorem highPart_zero (value : ℕ) : highPart value 0 = value := by simp [highPart]

theorem highPart_le (value position : ℕ) : highPart value position ≤ value := Nat.div_mul_le_self value _

theorem highPart_of_lt {value position : ℕ} (bound : value < 2 ^ position) : highPart value position = 0 := by
  rw [highPart, Nat.div_eq_of_lt bound, Nat.zero_mul]

theorem two_pow_dvd_highPart (value position : ℕ) : 2 ^ position ∣ highPart value position := Dvd.intro_left _ rfl

/-- Setting a bit below all set bits adds its value. -/
theorem or_two_pow {value position : ℕ} (aligned : 2 ^ (position + 1) ∣ value) :
    value ||| 2 ^ position = value + 2 ^ position := by
  obtain ⟨high, rfl⟩ := aligned
  have below : 2 ^ position < 2 ^ (position + 1) := Nat.pow_lt_pow_right (by norm_num) (Nat.lt_succ_self position)
  rw [← Nat.two_pow_add_eq_or_of_lt below]

/-- The digit at a position extends the part of the number above it. -/
theorem highPart_step (value position : ℕ) :
    (if value.testBit position = true then highPart value (position + 1) ||| 2 ^ position
      else highPart value (position + 1)) = highPart value position := by
  have digit := @Nat.testBit_eq_decide_div_mod_eq position value
  have halves : value / 2 ^ (position + 1) = value / 2 ^ position / 2 := by
    rw [pow_succ, Nat.div_div_eq_div_mul]
  have parts := Nat.div_add_mod (value / 2 ^ position) 2
  rw [or_two_pow (two_pow_dvd_highPart value (position + 1)), digit]
  simp only [decide_eq_true_eq, highPart, halves]
  generalize value / 2 ^ position = quotient at parts ⊢
  rw [pow_succ]
  split
  · rename_i odd
    rw [odd] at parts
    calc quotient / 2 * (2 ^ position * 2) + 2 ^ position = (2 * (quotient / 2) + 1) * 2 ^ position := by ring
      _ = quotient * 2 ^ position := by rw [parts]
  · rename_i even
    rw [Nat.mod_two_ne_one.mp even, Nat.add_zero] at parts
    calc quotient / 2 * (2 ^ position * 2) = 2 * (quotient / 2) * 2 ^ position := by ring
      _ = quotient * 2 ^ position := by rw [parts]

/-! ## The bits below the highest -/

/-- Each bit of a number is set where one of `width` bits of another is, counted upwards from there. -/
def Spreads (value width spread : ℕ) : Prop :=
  ∀ position, spread.testBit position = true ↔ ∃ offset < width, value.testBit (position + offset) = true

theorem spreads_self (value : ℕ) : Spreads value 1 value := by
  intro position
  simp

/-- A shift by the width doubles it. -/
theorem Spreads.double {value width spread : ℕ} (spreads : Spreads value width spread) :
    Spreads value (2 * width) (spread ||| spread >>> width) := by
  intro position
  rw [Nat.testBit_or, Nat.testBit_shiftRight, Bool.or_eq_true, spreads, spreads]
  constructor
  · rintro (⟨offset, bound, set⟩ | ⟨offset, bound, set⟩)
    · exact ⟨offset, by omega, set⟩
    · refine ⟨width + offset, by omega, ?_⟩
      rwa [← Nat.add_assoc, Nat.add_comm position]
  · rintro ⟨offset, bound, set⟩
    rcases Nat.lt_or_ge offset width with near | far
    · exact .inl ⟨offset, near, set⟩
    · refine .inr ⟨offset - width, by omega, ?_⟩
      rwa [show width + position + (offset - width) = position + offset by omega]

/-- Spread over its whole length, a number has all bits up to its highest. -/
theorem Spreads.eq_of_lt {value width spread : ℕ} (spreads : Spreads value width spread) (positive : value ≠ 0)
    (bound : value < 2 ^ width) : spread = 2 ^ (value.log2 + 1) - 1 := by
  apply Nat.eq_of_testBit_eq
  intro position
  rw [Nat.testBit_two_pow_sub_one, Bool.eq_iff_iff, spreads, decide_eq_true_eq]
  constructor
  · rintro ⟨offset, _, set⟩
    have reached := (Nat.le_log2 positive).mpr (Nat.ge_two_pow_of_testBit set)
    omega
  · intro below
    have high := (Nat.log2_lt positive).mpr bound
    refine ⟨value.log2 - position, by omega, ?_⟩
    rw [show position + (value.log2 - position) = value.log2 by omega]
    exact Nat.testBit_log2 positive

end Iotex
