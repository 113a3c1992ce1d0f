import Iotex.Proofs.Words

/-! # Integers of every size

Buffers of any number of bytes as numbers, and the words the two integer encoders make of them. The
unsigned encoder is exact for every size. The signed one takes the sign from a cast that the size
selects: it reads beyond three, five, six or seven bytes, misses the sign of sixteen and of
twenty-four, and lets the padding count wrap around above thirty-two.
-/

namespace Iotex

open Spec

/-- The word of a number or a refusal that leaves the array alone. -/
def WritesWord (value : ℤ) (out : Cells) (result : Exec (ℤ × Cells)) : Prop :=
  (∃ code < 0, result = .ok (code, out)) ∨ result = .ok (32, cells (beBytes 32 (value % 2 ^ 256).toNat))

/-- The buffers whose sign the encoder finds without reading beyond them, and those it refuses. -/
def SignFound (buffer : Bytes) : Prop :=
  buffer.length ∈ [0, 1, 2, 4, 8, 32] ∨ 256 < buffer.length ∨ (8 < buffer.length ∧ buffer.length % 8 ≠ 0) ∨
    (buffer.length ∈ [16, 24] ∧ 0 ≤ twosComplement buffer)

instance (buffer : Bytes) : Decidable (SignFound buffer) := by
  unfold SignFound
  infer_instance

/-- The sign of the number is the highest bit of the buffer. -/
theorem twosComplement_neg {buffer : Bytes} :
    twosComplement buffer < 0 ↔ buffer ≠ [] ∧ 256 ^ buffer.length ≤ 2 * leNat buffer := by
  have low := leNat_lt buffer
  have reduced : ((leNat buffer : ℕ) : ℤ) % ((256 ^ buffer.length : ℕ) : ℤ) = leNat buffer :=
    Int.emod_eq_of_lt (by omega) (by exact_mod_cast low)
  cases buffer with
  | nil => simp [twosComplement, leNat]
  | cons byte rest =>
    have even : 256 ^ (byte :: rest).length = 2 * (128 * 256 ^ rest.length) := by
      rw [List.length_cons, pow_succ]
      ring
    rw [twosComplement, Int.bmod_def, reduced]
    simp only [ne_eq, reduceCtorEq, not_false_eq_true, true_and]
    split_ifs <;> omega

theorem cells_take_length (buffer : Bytes) : (cells buffer).take buffer.length = cells buffer := by
  rw [cells_take, List.take_length]

/-- The unsigned encoder on a buffer of any size. -/
theorem generateBytesForUint_buffer (buffer : Bytes) (out : Cells) :
    Contract.generateBytesForUint (cells buffer) buffer.length out =
      if 32 < buffer.length then .ok (-1, out) else .ok (32, cells (beBytes 32 (leNat buffer))) := by
  split_ifs with large
  · rw [Contract.generateBytesForUint, if_pos large, pure_eq_ok]
  · exact generateBytesForUint_eq out (by omega) (cells_take_length buffer)

/-- No cast is made of no bytes and of more than eight. -/
private theorem isNegative_none {buffer : Bytes} (sized : buffer.length = 0 ∨ 8 < buffer.length) :
    Contract.isNegative (cells buffer) buffer.length = .ok false := by
  rw [Contract.isNegative, if_neg (by omega), if_neg (by omega), if_neg (by omega), if_neg (by omega)]
  rfl

/-- The cast of the other sizes reads beyond the buffer. -/
private theorem isNegative_beyond {buffer : Bytes} (sized : buffer.length ∈ [3, 5, 6, 7]) :
    Contract.isNegative (cells buffer) buffer.length = .error .outOfBounds := by
  simp only [List.mem_cons, List.not_mem_nil, or_false] at sized
  rcases sized with size | size | size | size <;>
    simp [Contract.isNegative, size, readBytes, readFirst, cells_length, error_bind]

private theorem not_writesWord_error {value : ℤ} {out : Cells} {fault : Fault} :
    ¬WritesWord value out (.error fault) := by
  simp [WritesWord]

/-- A padding byte that repeats the highest bit, and a buffer that fills the word, are exact. -/
private theorem writesWord_signExtended {buffer : Bytes} (out : Cells) {negative : Bool} (bound : buffer.length ≤ 32)
    (accepted : buffer.length ≤ 8 ∨ buffer.length % 8 = 0)
    (sign : Contract.isNegative (cells buffer) buffer.length = .ok negative)
    (right : negative = decide (256 ^ buffer.length ≤ 2 * leNat buffer) ∨ buffer.length = 32) :
    WritesWord (twosComplement buffer) out (Contract.generateBytesForInt (cells buffer) buffer.length out) := by
  rw [generateBytesForInt_eq out bound accepted (cells_take_length buffer) sign, WritesWord, ← sign_extend_buffer bound]
  right
  rcases right with rfl | full
  · simp only [decide_eq_true_eq]
  · rw [full, Nat.sub_self, List.replicate_zero, List.replicate_zero]

/-- Sixteen and twenty-four bytes have no cast of their own and are padded with zeros. -/
private theorem writesWord_zeroPadded {buffer : Bytes} (out : Cells) (sized : buffer.length ∈ [16, 24]) :
    WritesWord (twosComplement buffer) out (Contract.generateBytesForInt (cells buffer) buffer.length out) ↔
      0 ≤ twosComplement buffer := by
  have bound : 8 < buffer.length ∧ buffer.length < 32 ∧ buffer.length % 8 = 0 := by
    simp only [List.mem_cons, List.not_mem_nil, or_false] at sized
    omega
  have padded := @sign_extend_buffer buffer (by omega)
  have sign := @twosComplement_neg buffer
  have nonempty : buffer ≠ [] := List.ne_nil_of_length_pos (by omega)
  rw [generateBytesForInt_eq out (by omega) (.inr bound.2.2) (cells_take_length buffer)
    (isNegative_none (.inr bound.1)), WritesWord, ← padded]
  by_cases negative : 256 ^ buffer.length ≤ 2 * leNat buffer
  · apply iff_of_false
    · obtain ⟨more, size⟩ : ∃ more, 32 - buffer.length = more + 1 := ⟨31 - buffer.length, by omega⟩
      rw [size, if_pos negative]
      rintro (⟨code, less, same⟩ | same)
      · obtain ⟨rfl, -⟩ := Prod.mk.inj (Except.ok.inj same)
        omega
      · have words := cells_inj (Prod.mk.inj (Except.ok.inj same)).2
        simp [List.replicate_succ] at words
    · rw [not_le]
      exact sign.mpr ⟨nonempty, negative⟩
  · apply iff_of_true
    · rw [if_neg negative]
      exact .inr rfl
    · rw [← not_lt]
      intro below
      exact negative (sign.mp below).2

/-- The unsigned encoder is exact, and the signed one exactly where it finds the sign. -/
theorem integerWords_exact_iff (buffer : Bytes) (out : Cells) :
    WritesWord (leNat buffer) out (Contract.generateBytesForUint (cells buffer) buffer.length out) ∧
      (WritesWord (twosComplement buffer) out (Contract.generateBytesForInt (cells buffer) buffer.length out) ↔
        SignFound buffer) := by
  constructor
  · rw [generateBytesForUint_buffer]
    split_ifs with large
    · exact .inl ⟨-1, by omega, rfl⟩
    · right
      have low := leNat_lt buffer
      have room : 256 ^ buffer.length ≤ 2 ^ 256 := by
        calc 256 ^ buffer.length ≤ 256 ^ 32 := Nat.pow_le_pow_right (by omega) (by omega)
          _ = 2 ^ 256 := by norm_num
      have value : ((leNat buffer : ℤ) % 2 ^ 256).toNat = leNat buffer := by
        rw [Int.emod_eq_of_lt] <;> omega
      rw [value]
  · by_cases refused : 256 < buffer.length ∨ (8 < buffer.length ∧ buffer.length % 8 ≠ 0)
    · apply iff_of_true
      · rw [Contract.generateBytesForInt, if_pos refused]
        exact .inl ⟨-1, by omega, rfl⟩
      · exact .inr (by tauto)
    by_cases large : 32 < buffer.length
    · have sign := @isNegative_none buffer (.inr (by omega))
      apply iff_of_false
      · rw [Contract.generateBytesForInt, if_neg refused, sign, ok_bind, if_pos large]
        exact not_writesWord_error
      · rw [SignFound]
        simp only [List.mem_cons, List.not_mem_nil, or_false]
        omega
    by_cases padded : buffer.length ∈ [16, 24]
    · rw [writesWord_zeroPadded out padded, SignFound]
      simp only [List.mem_cons, List.not_mem_nil, or_false] at padded ⊢
      omega
    by_cases beyond : buffer.length ∈ [3, 5, 6, 7]
    · apply iff_of_false
      · rw [Contract.generateBytesForInt, if_neg refused, isNegative_beyond beyond, error_bind]
        exact not_writesWord_error
      · rw [SignFound]
        simp only [List.mem_cons, List.not_mem_nil, or_false] at beyond ⊢
        omega
    have found : buffer.length ∈ [1, 2, 4, 8] ∨ buffer.length = 0 ∨ buffer.length = 32 := by
      simp only [List.mem_cons, List.not_mem_nil, or_false] at padded beyond ⊢
      omega
    apply iff_of_true
    · rcases found with cast | empty | full
      · apply writesWord_signExtended out (by omega) (by omega) (isNegative_eq cast (cells_take_length buffer)) (.inl rfl)
      · apply writesWord_signExtended out (by omega) (by omega) (isNegative_none (.inl empty))
        rw [List.length_eq_zero_iff.mp empty]
        exact .inl (by decide)
      · exact writesWord_signExtended out (by omega) (by omega) (isNegative_none (.inr (by omega))) (.inr full)
    · rw [SignFound]
      simp only [List.mem_cons, List.not_mem_nil, or_false] at found ⊢
      omega

/-- The number minus one in sixteen bytes becomes a positive word. -/
theorem minusOne_loses_sign :
    twosComplement (List.replicate 16 0xff) = -1 ∧
      Contract.generateBytesForInt (cells (List.replicate 16 0xff)) 16 (uninitialized 32) =
        .ok (32, cells (List.replicate 16 0 ++ List.replicate 16 0xff)) ∧
      ¬WritesWord (-1) (uninitialized 32)
        (Contract.generateBytesForInt (cells (List.replicate 16 0xff)) 16 (uninitialized 32)) := by
  have written : Contract.generateBytesForInt (cells (List.replicate 16 0xff)) 16 (uninitialized 32) =
      .ok (32, cells (List.replicate 16 0 ++ List.replicate 16 0xff)) := by decide
  refine ⟨by decide, written, ?_⟩
  rw [written]
  rintro (⟨code, less, same⟩ | same)
  · obtain ⟨rfl, -⟩ := Prod.mk.inj (Except.ok.inj same)
    omega
  · exact absurd same (by decide)

end Iotex
