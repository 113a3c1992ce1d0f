import Mathlib.Tactic.NormNum
import Iotex.Lib.LinearRegister
import Iotex.Model.Bech32

/-! # The checksum of Bech32

`PolyMod` is a linear register: its step is an exclusive or of shifted state, symbol and one
multiple for each bit of the leading coefficient. The six checksum values spell the difference
between the state that zeros lead to and the constant, so with them the state is the constant.
-/

namespace Iotex.Bech32

/-- The multiple that one bit of the leading coefficient adds. -/
private def multipleOf (c0 bit : UInt8) (multiple : UInt32) : UInt32 := if c0 &&& bit ≠ 0 then multiple else 0

private theorem addMultiple_eq (c0 bit : UInt8) (multiple c : UInt32) :
    addMultiple c0 bit multiple c = c ^^^ multipleOf c0 bit multiple := by
  rw [addMultiple, multipleOf]
  split_ifs
  · rfl
  · rw [UInt32.xor_zero]

/-- A mask of one bit keeps nothing or the bit. -/
private theorem masked {bit : UInt8} (single : bit ∈ [1, 2, 4, 8, 16]) (x : UInt8) :
    x &&& bit = 0 ∨ x &&& bit = bit := by
  have all : ∀ bit ∈ ([1, 2, 4, 8, 16] : List UInt8), ∀ x : Fin 256,
      UInt8.ofNat x.val &&& bit = 0 ∨ UInt8.ofNat x.val &&& bit = bit := by
    decide +kernel
  have each := all bit single ⟨x.toNat, x.toNat_lt⟩
  rwa [UInt8.ofNat_toNat] at each

private theorem multipleOf_xor {bit : UInt8} (single : bit ∈ [1, 2, 4, 8, 16]) (multiple : UInt32) (x y : UInt8) :
    multipleOf (x ^^^ y) bit multiple = multipleOf x bit multiple ^^^ multipleOf y bit multiple := by
  have positive : bit ≠ 0 := by
    rintro rfl
    exact absurd single (by decide)
  have distributed : (x ^^^ y) &&& bit = (x &&& bit) ^^^ (y &&& bit) := by
    apply UInt8.toNat_inj.mp
    simp only [UInt8.toNat_and, UInt8.toNat_xor, Nat.and_xor_distrib_right]
  rw [multipleOf, multipleOf, multipleOf, distributed]
  rcases masked single x with first | first <;> rcases masked single y with second | second <;>
    simp [first, second, positive]

private theorem polyModStep_eq (c : UInt32) (v_i : UInt8) :
    polyModStep c v_i = (c &&& 0x1ffffff) <<< 5 ^^^ v_i.toUInt32 ^^^
      multipleOf (c >>> 25).toUInt8 1 0x3b6a57b2 ^^^ multipleOf (c >>> 25).toUInt8 2 0x26508e6d ^^^
      multipleOf (c >>> 25).toUInt8 4 0x1ea119fa ^^^ multipleOf (c >>> 25).toUInt8 8 0x3d4233dd ^^^
      multipleOf (c >>> 25).toUInt8 16 0x2a1462b3 := by
  simp only [polyModStep, addMultiple_eq]

theorem polyModStep_xor (c d : UInt32) (x y : UInt8) :
    polyModStep (c ^^^ d) (x ^^^ y) = polyModStep c x ^^^ polyModStep d y := by
  have shifted : ((c ^^^ d) &&& 0x1ffffff) <<< 5 = (c &&& 0x1ffffff) <<< 5 ^^^ (d &&& 0x1ffffff) <<< 5 := by
    have kept : (c ^^^ d) &&& 0x1ffffff = (c &&& 0x1ffffff) ^^^ (d &&& 0x1ffffff) := by
      apply UInt32.toNat_inj.mp
      simp only [UInt32.toNat_and, UInt32.toNat_xor, Nat.and_xor_distrib_right]
    rw [kept, UInt32.shiftLeft_xor]
  have leading : ((c ^^^ d) >>> 25).toUInt8 = (c >>> 25).toUInt8 ^^^ (d >>> 25).toUInt8 := by
    rw [UInt32.shiftRight_xor, UInt32.toUInt8_xor]
  rw [polyModStep_eq, polyModStep_eq, polyModStep_eq, shifted, leading, UInt8.toUInt32_xor]
  rw [multipleOf_xor (by decide), multipleOf_xor (by decide), multipleOf_xor (by decide),
    multipleOf_xor (by decide), multipleOf_xor (by decide)]
  ac_rfl

/-- The register of `PolyMod`. -/
def register : LinearRegister UInt32 UInt8 := ⟨polyModStep, polyModStep_xor⟩

theorem polyMod_eq (v : Bytes) : polyMod v = register.absorb 1 v := rfl

/-! ## States of thirty bits -/

theorem polyModStep_lt (c : UInt32) {v_i : UInt8} (small : v_i.toNat < 32) : (polyModStep c v_i).toNat < 2 ^ 30 := by
  have added : ∀ bit multiple, multiple.toNat < 2 ^ 30 →
      (multipleOf (c >>> 25).toUInt8 bit multiple).toNat < 2 ^ 30 := by
    intro bit multiple fits
    rw [multipleOf]
    split_ifs
    · exact fits
    · decide
  have shifted : ((c &&& 0x1ffffff) <<< 5).toNat < 2 ^ 30 := by
    have low : (c &&& 0x1ffffff).toNat ≤ 0x1ffffff := by
      rw [UInt32.toNat_and]
      exact Nat.and_le_right
    rw [UInt32.toNat_shiftLeft, Nat.shiftLeft_eq]
    apply (Nat.mod_le _ _).trans_lt
    calc
      _ ≤ 0x1ffffff * 2 ^ 5 := Nat.mul_le_mul_right _ low
      _ < 2 ^ 30 := by decide
  have symbol : v_i.toUInt32.toNat < 2 ^ 30 := by
    rw [UInt8.toNat_toUInt32]
    omega
  rw [polyModStep_eq]
  simp only [UInt32.toNat_xor]
  repeat' apply Nat.xor_lt_two_pow
  · exact shifted
  · exact symbol
  all_goals exact added _ _ (by decide)

theorem polyMod_lt {v : Bytes} (small : ∀ value ∈ v, value.toNat < 32) : (polyMod v).toNat < 2 ^ 30 := by
  rw [polyMod]
  induction v using List.reverseRecOn with
  | nil => decide
  | append_singleton front last _ =>
    rw [List.foldl_append, List.foldl_cons, List.foldl_nil]
    exact polyModStep_lt _ (small last (by simp))

/-! ## Spelling a state -/

private theorem shifted_xor_low (m : ℕ) : (m >>> 5) <<< 5 ^^^ (m &&& 31) = m := by
  apply Nat.eq_of_testBit_eq
  intro index
  have mask : Nat.testBit 31 index = decide (index < 5) := Nat.testBit_two_pow_sub_one 5 index
  rw [Nat.testBit_xor, Nat.testBit_shiftLeft, Nat.testBit_shiftRight, Nat.testBit_and, mask]
  by_cases low : index < 5
  · simp [low, show ¬5 ≤ index by omega]
  · simp [low, show 5 ≤ index by omega]

/-- A small state moves up without a carry and takes up the five bits behind it. -/
private theorem polyModStep_shifted {m : UInt32} (small : (m >>> 5).toNat < 2 ^ 25) :
    polyModStep (m >>> 5) (m &&& (31 : UInt32)).toUInt8 = m := by
  have leading : m >>> 5 >>> 25 = 0 := by
    apply UInt32.toNat_inj.mp
    rw [UInt32.toNat_shiftRight, Nat.shiftRight_eq_div_pow]
    exact Nat.div_eq_of_lt small
  have kept : (m >>> 5) &&& (0x1ffffff : UInt32) = m >>> 5 := by
    apply UInt32.toNat_inj.mp
    rw [UInt32.toNat_and]
    exact Nat.and_two_pow_sub_one_of_lt_two_pow small
  have nothing : ∀ bit multiple, multipleOf (0 : UInt32).toUInt8 bit multiple = 0 := by
    intro bit multiple
    simp [multipleOf]
  have low : (m.toNat &&& 31) % 256 = m.toNat &&& 31 := by
    apply Nat.mod_eq_of_lt
    exact Nat.and_le_right.trans_lt (by decide)
  have bounded : (m.toNat >>> 5) <<< 5 % 2 ^ 32 = (m.toNat >>> 5) <<< 5 := by
    have bound := m.toNat_lt
    apply Nat.mod_eq_of_lt
    rw [Nat.shiftLeft_eq, Nat.shiftRight_eq_div_pow]
    omega
  rw [polyModStep_eq, leading, kept]
  simp only [nothing, UInt32.xor_zero]
  apply UInt32.toNat_inj.mp
  rw [UInt32.toNat_xor, UInt8.toNat_toUInt32, UInt32.toNat_toUInt8, UInt32.toNat_shiftLeft, UInt32.toNat_and,
    UInt32.toNat_shiftRight]
  change (m.toNat >>> 5) <<< 5 % 2 ^ 32 ^^^ (m.toNat &&& 31) % 256 = m.toNat
  rw [low, bounded, shifted_xor_low]

/-- The state before a value is the one behind it without its five bits. -/
private theorem polyModStep_group {mod : UInt32} (bound : mod.toNat < 2 ^ 30) {i : ℕ} (inside : i < 6) :
    polyModStep (mod >>> UInt32.ofNat (5 * (6 - i))) ((mod >>> UInt32.ofNat (5 * (5 - i))) &&& 31).toUInt8 =
      mod >>> UInt32.ofNat (5 * (5 - i)) := by
  have behind : 5 * (6 - i) = 5 * (5 - i) + 5 := by omega
  have split : mod >>> UInt32.ofNat (5 * (6 - i)) = mod >>> UInt32.ofNat (5 * (5 - i)) >>> 5 := by
    apply UInt32.toNat_inj.mp
    rw [UInt32.toNat_shiftRight, UInt32.toNat_shiftRight, UInt32.toNat_shiftRight, behind,
      UInt32.toNat_ofNat_of_lt' (by norm_num; omega), UInt32.toNat_ofNat_of_lt' (by norm_num; omega),
      Nat.mod_eq_of_lt (by omega), Nat.mod_eq_of_lt (by omega), Nat.shiftRight_add]
    rfl
  rw [split]
  apply polyModStep_shifted
  rw [← split, UInt32.toNat_shiftRight, UInt32.toNat_ofNat_of_lt' (by norm_num; omega), Nat.shiftRight_eq_div_pow,
    Nat.mod_eq_of_lt (by omega)]
  calc
    mod.toNat / 2 ^ (5 * (6 - i)) ≤ mod.toNat / 2 ^ 5 :=
      Nat.div_le_div_left (Nat.pow_le_pow_right (by decide) (by omega)) (by decide)
    _ < 2 ^ 25 := by omega

/-- The state after the first values of a spelling. -/
private theorem foldl_spelling {mod : UInt32} (bound : mod.toNat < 2 ^ 30) {count : ℕ} (inside : count ≤ 6) :
    ((List.range count).map fun i => ((mod >>> UInt32.ofNat (5 * (5 - i))) &&& 31).toUInt8).foldl polyModStep 0 =
      mod >>> UInt32.ofNat (5 * (6 - count)) := by
  induction count with
  | zero =>
    apply UInt32.toNat_inj.mp
    rw [UInt32.toNat_shiftRight, Nat.shiftRight_eq_div_pow]
    exact (Nat.div_eq_of_lt bound).symm
  | succ count ih =>
    have group := polyModStep_group bound (show count < 6 by omega)
    rw [List.range_succ, List.map_append, List.foldl_append, ih (by omega), List.map_singleton, List.foldl_cons,
      List.foldl_nil, group, show 6 - (count + 1) = 5 - count by omega]

/-- The six values of a state spell it. -/
theorem absorb_checksumValues {mod : UInt32} (bound : mod.toNat < 2 ^ 30) :
    register.absorb 0 (checksumValues mod) = mod := by
  have spelled := foldl_spelling bound (le_refl 6)
  have whole : mod >>> UInt32.ofNat (5 * (6 - 6)) = mod := by simp
  rwa [whole] at spelled

/-- Values followed by their checksum lead to the constant. -/
theorem polyMod_createChecksum (encoding : Encoding) {hrp values : Bytes}
    (small : ∀ value ∈ expandHRP hrp ++ values, value.toNat < 32) :
    polyMod (expandHRP hrp ++ values ++ createChecksum encoding hrp values) = encodingConstant encoding := by
  have zeros : ∀ value ∈ expandHRP hrp ++ values ++ List.replicate 6 0, value.toNat < 32 := by
    intro value member
    rw [List.mem_append, List.mem_replicate] at member
    rcases member with member | ⟨-, rfl⟩
    · exact small value member
    · decide
  have bound : (polyMod (expandHRP hrp ++ values ++ List.replicate 6 0) ^^^ encodingConstant encoding).toNat <
      2 ^ 30 := by
    rw [UInt32.toNat_xor]
    apply Nat.xor_lt_two_pow (polyMod_lt zeros)
    cases encoding <;> decide
  have cancel : ∀ a b : UInt32, a ^^^ (a ^^^ b) = b := by
    intro a b
    rw [← UInt32.xor_assoc, UInt32.xor_self, UInt32.zero_xor]
  rw [polyMod_eq, LinearRegister.absorb_append]
  apply register.absorb_checksum (fun _ => UInt32.xor_zero) (fun _ => UInt8.zero_xor) cancel
  rw [createChecksum, absorb_checksumValues bound, polyMod_eq, LinearRegister.absorb_append]
  rfl

end Iotex.Bech32
