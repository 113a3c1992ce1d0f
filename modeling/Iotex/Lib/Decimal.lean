import Mathlib.Data.Nat.Digits.Defs
import Mathlib.Data.Nat.Digits.Lemmas
import Iotex.Lib.Bytes

/-! # Decimal text

The decimal text of a natural number, as `printf` writes it, and the number a run of digits
denotes. Leading zeros are accepted on the way back and never produced.
-/

namespace Iotex

/-- The character of a decimal digit. -/
def digitChar (digit : ℕ) : UInt8 := UInt8.ofNat (48 + digit)

/-- Whether a character is one of `0` to `9`. -/
def isDigit (char : UInt8) : Bool := 48 ≤ char.toNat && char.toNat ≤ 57

/-- Decimal text without leading zeros; zero is one digit. -/
def decimal (value : ℕ) : Bytes :=
  if value = 0 then [48] else ((Nat.digits 10 value).map digitChar).reverse

/-- The number denoted by a run of digits, most significant first. -/
def decimalValue (text : Bytes) : ℕ := Nat.ofDigits 10 (text.reverse.map fun char => char.toNat - 48)

theorem digitChar_toNat {digit : ℕ} (bound : digit < 10) : (digitChar digit).toNat = 48 + digit := by
  rw [digitChar, UInt8.toNat_ofNat']
  omega

theorem isDigit_digitChar {digit : ℕ} (bound : digit < 10) : isDigit (digitChar digit) = true := by
  simp only [isDigit, digitChar_toNat bound, Bool.and_eq_true, decide_eq_true_eq]
  omega

theorem isDigit_decimal (value : ℕ) : ∀ char ∈ decimal value, isDigit char = true := by
  intro char member
  rw [decimal] at member
  split at member
  · obtain rfl := List.mem_singleton.mp member
    rfl
  · obtain ⟨digit, present, rfl⟩ := List.mem_map.mp (List.mem_reverse.mp member)
    exact isDigit_digitChar (Nat.digits_lt_base (by norm_num) present)

theorem decimal_ne_nil (value : ℕ) : decimal value ≠ [] := by
  rw [decimal]
  split
  · simp
  · rename_i nonzero
    simp [Nat.digits_ne_nil_iff_ne_zero.mpr nonzero]

/-- Reading back the text of a number gives the number. -/
theorem decimalValue_decimal (value : ℕ) : decimalValue (decimal value) = value := by
  rw [decimalValue, decimal]
  split
  · subst value
    simp
  · rw [List.reverse_reverse, List.map_map]
    have digits : (Nat.digits 10 value).map ((fun char : UInt8 => char.toNat - 48) ∘ digitChar) =
        Nat.digits 10 value := by
      rw [List.map_congr_left (g := id) ?_, List.map_id]
      intro digit present
      have bound := Nat.digits_lt_base (by norm_num) present
      simp only [Function.comp_apply, digitChar_toNat bound, Nat.add_sub_cancel_left, id_eq]
    rw [digits, Nat.ofDigits_digits]

/-- A run of digits denotes a number with at most as many digits. -/
theorem decimalValue_lt (text : Bytes) (each : ∀ char ∈ text, isDigit char = true) :
    decimalValue text < 10 ^ text.length := by
  have bound := Nat.ofDigits_lt_base_pow_length (b := 10) (l := text.reverse.map fun char => char.toNat - 48) (by omega)
    (by
      intro digit member
      obtain ⟨char, present, rfl⟩ := List.mem_map.mp member
      have := each char (List.mem_reverse.mp present)
      simp only [isDigit, Bool.and_eq_true, decide_eq_true_eq] at this
      omega)
  rwa [List.length_map, List.length_reverse] at bound

/-- A number below a power of ten has at most as many digits. -/
theorem decimal_length_le (value : ℕ) {count : ℕ} (positive : 1 ≤ count) (bound : value < 10 ^ count) :
    (decimal value).length ≤ count := by
  rw [decimal]
  split_ifs with zero
  · simpa using positive
  · rw [List.length_reverse, List.length_map]
    exact (Nat.digits_length_le_iff (by omega) value).mpr bound

/-- A single digit. -/
theorem decimal_of_lt {value : ℕ} (bound : value < 10) : decimal value = [digitChar value] := by
  rw [decimal]
  split_ifs with zero
  · rw [zero]
    rfl
  · rw [Nat.digits_of_lt 10 value zero bound]
    rfl

/-- The last digit of a number stands behind the others. -/
theorem decimal_append {value : ℕ} (long : 10 ≤ value) :
    decimal value = decimal (value / 10) ++ [digitChar (value % 10)] := by
  rw [decimal, decimal, if_neg (by omega), if_neg (by omega), Nat.digits_def' (by omega) (by omega), List.map_cons,
    List.reverse_cons]

theorem decimal_length_mono {a b : ℕ} (below : a ≤ b) : (decimal a).length ≤ (decimal b).length := by
  have size (value : ℕ) : (decimal value).length = if value = 0 then 1 else (Nat.digits 10 value).length := by
    rw [decimal]
    split_ifs
    · rfl
    · rw [List.length_reverse, List.length_map]
  have digits := Nat.le_length_digits_le 10 a b below
  have positive (nonzero : b ≠ 0) : 0 < (Nat.digits 10 b).length :=
    List.length_pos_iff.mpr (Nat.digits_ne_nil_iff_ne_zero.mpr nonzero)
  rw [size, size]
  split_ifs with zeroA zeroB zeroB
  · exact le_rfl
  · exact positive zeroB
  · omega
  · exact digits

example : decimal 4092 = ascii "4092" := by decide

end Iotex
