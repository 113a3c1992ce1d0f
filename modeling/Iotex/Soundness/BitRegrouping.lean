import Iotex.Proofs.Bech32Text

/-! # Bits of five and of eight

What the regrouping in front of the Bech32 encoder keeps. The bits behind the last complete group of
five never reach the output, where a zero stands for them. The bytes can therefore be recovered
exactly when these bits are zero, and two byte strings that differ in nothing else share their values.
-/

namespace Iotex

open Encoder

/-- The bits of bytes, the highest first. -/
def bitsOfBytes (bytes : Bytes) : List Bool := (bytes.map UInt8.toNat).flatMap (bitsOf 8)

/-- The bits of values of five bits, the highest first. -/
def bitsOfValues (values : Bytes) : List Bool := (values.map UInt8.toNat).flatMap (bitsOf 5)

/-- As many bytes as given, from the first bits of values. -/
def recoveredBytes (count : ℕ) (values : Bytes) : Bytes := (groups 8 count (bitsOfValues values)).map UInt8.ofNat

/-- The number of bits in complete groups. -/
def completeSize (input : Bytes) : ℕ := 5 * (8 * input.length / 5)

def completeBits (input : Bytes) : List Bool := (bitsOfBytes input).take (completeSize input)

def leftOverBits (input : Bytes) : List Bool := (bitsOfBytes input).drop (completeSize input)

/-- Values that hold the bits of bytes and less than a group of zeros behind them. -/
structure HoldsBits (input values : Bytes) : Prop where
  length : values.length = blocks 5 (8 * input.length)
  small : ∀ value ∈ values, value.toNat < 32
  bits : ∃ padding < 5, bitsOfValues values = bitsOfBytes input ++ List.replicate padding false
  recovered : recoveredBytes input.length values = input

/-- The regrouping returns such values. -/
def KeepsBits (input : Bytes) : Prop := ∃ values, bech32ConvertBytesTo5Bit input = .ok values ∧ HoldsBits input values

/-- Byte strings of one length with the same values are the same. -/
theorem HoldsBits.inj {a b values : Bytes} (holdsA : HoldsBits a values) (holdsB : HoldsBits b values)
    (length : a.length = b.length) : a = b := by
  rw [← holdsA.recovered, length, holdsB.recovered]

theorem bitsOfBytes_length (bytes : Bytes) : (bitsOfBytes bytes).length = 8 * bytes.length := by
  rw [bitsOfBytes, flatMap_bitsOf_length, List.length_map]

theorem completeSize_le (input : Bytes) : completeSize input ≤ (bitsOfBytes input).length := by
  rw [completeSize, bitsOfBytes_length]
  omega

theorem bits_split (input : Bytes) : completeBits input ++ leftOverBits input = bitsOfBytes input :=
  List.take_append_drop _ _

theorem leftOverBits_length (input : Bytes) : (leftOverBits input).length = 8 * input.length % 5 := by
  rw [leftOverBits, List.length_drop, completeSize, bitsOfBytes_length]
  omega

private theorem regroup_bits (input : Bytes) :
    (regroup 8 5 (input.map UInt8.toNat)).flatMap (bitsOf 5) = completeBits input := by
  have enough := completeSize_le input
  rw [completeSize] at enough
  rw [regroup, List.length_map, completeBits, completeSize]
  exact flatMap_groups_take enough

/-- The values hold the complete groups, and zeros if bits are left over. -/
theorem bitsOfValues_fiveBitValues (input : Bytes) :
    bitsOfValues (fiveBitValues input) =
      completeBits input ++ if 8 * input.length % 5 = 0 then [] else List.replicate 5 false := by
  rw [bitsOfValues, fiveBitValues, List.map_append, List.flatMap_append, map_toNat_map_ofNat (regroup_small input),
    regroup_bits]
  split_ifs with whole
  · rfl
  · rfl

/-- Bits and zeros behind them are the bits of the bytes again. -/
private theorem recoveredBytes_of_bits {input values : Bytes} {rest : List Bool}
    (bits : bitsOfValues values = bitsOfBytes input ++ rest) : recoveredBytes input.length values = input := by
  have enough : 8 * input.length ≤ (bitsOfBytes input).length := (bitsOfBytes_length input).ge
  have symbols := @groups_flatMap 8 (input.map UInt8.toNat) fun _ member => lt_of_mem_map_toNat member
  rw [List.length_map] at symbols
  rw [recoveredBytes, bits, groups_append rest enough, bitsOfBytes, symbols, map_ofNat_map_toNat]

/-- If the bits that are left over are zeros, the values hold all bits. -/
private theorem holdsBits_of_zeros {input : Bytes} (zeros : ∀ bit ∈ leftOverBits input, bit = false) :
    HoldsBits input (fiveBitValues input) := by
  have rest : leftOverBits input = List.replicate (8 * input.length % 5) false :=
    List.eq_replicate_iff.mpr ⟨leftOverBits_length input, zeros⟩
  have bits : ∃ padding < 5,
      bitsOfValues (fiveBitValues input) = bitsOfBytes input ++ List.replicate padding false := by
    rw [bitsOfValues_fiveBitValues, ← bits_split, rest]
    split_ifs with whole
    · exact ⟨0, by omega, by simp [whole]⟩
    · refine ⟨5 - 8 * input.length % 5, by omega, ?_⟩
      rw [List.append_assoc, List.replicate_append_replicate, Nat.add_sub_cancel' (by omega)]
  obtain ⟨padding, few, same⟩ := bits
  exact ⟨fiveBitValues_length input, fiveBitValues_small input, ⟨padding, few, same⟩, recoveredBytes_of_bits same⟩

/-- If the values hold all bits, those that are left over are zeros. -/
private theorem zeros_of_holdsBits {input : Bytes} (holds : HoldsBits input (fiveBitValues input)) :
    ∀ bit ∈ leftOverBits input, bit = false := by
  obtain ⟨padding, -, same⟩ := holds.bits
  rw [bitsOfValues_fiveBitValues, ← bits_split, List.append_assoc] at same
  have rest := List.append_cancel_left same
  intro bit member
  have found : bit ∈ leftOverBits input ++ List.replicate padding false := List.mem_append_left _ member
  rw [← rest] at found
  split_ifs at found with whole
  · simp at found
  · exact List.eq_of_mem_replicate found

/-- The values depend on the complete groups only. -/
private theorem fiveBitValues_eq_iff {a b : Bytes} (length : a.length = b.length) :
    fiveBitValues a = fiveBitValues b ↔ completeBits a = completeBits b := by
  constructor
  · intro same
    have bits := congrArg bitsOfValues same
    rw [bitsOfValues_fiveBitValues, bitsOfValues_fiveBitValues, length] at bits
    exact List.append_cancel_right bits
  · intro same
    have first (input : Bytes) :
        regroup 8 5 (input.map UInt8.toNat) = groups 5 (8 * input.length / 5) (completeBits input) := by
      have enough : 5 * (8 * input.length / 5) ≤ (completeBits input).length := by
        rw [completeBits, List.length_take_of_le (completeSize_le input), completeSize]
      rw [regroup, List.length_map, ← groups_append (leftOverBits input) enough, bits_split, bitsOfBytes]
    rw [fiveBitValues, fiveBitValues, first a, first b, same, length]

/-- All bits are kept exactly when those behind the last complete group are zeros and an `int` counts the
groups. Byte strings of one length are told apart exactly by the bits of their complete groups. -/
theorem bech32ConvertBytesTo5Bit_keepsBits_iff (input : Bytes) :
    (KeepsBits input ↔ 8 * input.length / 5 < 2 ^ 31 ∧ ∀ bit ∈ leftOverBits input, bit = false) ∧
      ∀ other : Bytes, other.length = input.length → 8 * input.length / 5 < 2 ^ 31 →
        (bech32ConvertBytesTo5Bit other = bech32ConvertBytesTo5Bit input ↔
          completeBits other = completeBits input) := by
  refine ⟨?_, ?_⟩
  · rw [KeepsBits, bech32ConvertBytesTo5Bit_eq]
    split_ifs with counted
    · simp only [Except.ok.injEq, exists_eq_left', counted, true_and]
      exact ⟨zeros_of_holdsBits, holdsBits_of_zeros⟩
    · apply iff_of_false
      · rintro ⟨values, returned, -⟩
        simp at returned
      · exact fun both => counted both.1
  · intro other length counted
    rw [bech32ConvertBytesTo5Bit_eq, bech32ConvertBytesTo5Bit_eq, length, if_pos counted, if_pos counted,
      Except.ok.injEq, fiveBitValues_eq_iff length]

/-- The lowest three bits of a single byte are lost. -/
theorem oneByte_not_keepsBits :
    bech32ConvertBytesTo5Bit [1] = .ok [0, 0] ∧ bech32ConvertBytesTo5Bit [0] = .ok [0, 0] ∧ ¬KeepsBits [1] := by
  have values : bech32ConvertBytesTo5Bit [1] = .ok [0, 0] := by decide
  refine ⟨values, by decide, ?_⟩
  rintro ⟨kept, returned, holds⟩
  rw [values, Except.ok.injEq] at returned
  have recovered := holds.recovered
  rw [← returned] at recovered
  exact absurd recovered (by decide)

end Iotex
