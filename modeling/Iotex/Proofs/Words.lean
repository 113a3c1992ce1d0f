import Iotex.Spec.Values

/-! # Words of elementary values

Each word encoder produces the standard 32-byte word of the value its parameter denotes, with one
exception: the boolean encoder is handed a pointer, so it always writes the word of `true`.
-/

namespace Iotex

open Spec

/-! ## Byte order -/

section
variable {α : Type} [Inhabited α]

theorem swapBytes_length (data : List α) (i j : ℕ) : (Contract.swapBytes data i j).length = data.length := by
  simp only [Contract.swapBytes, List.length_set]

private theorem foldl_swapBytes_length (partner : ℕ → ℕ) (indices : List ℕ) (data : List α) :
    (indices.foldl (fun acc i => Contract.swapBytes acc i (partner i)) data).length = data.length := by
  induction indices generalizing data with
  | nil => rfl
  | cons i rest ih => rw [List.foldl_cons, ih, swapBytes_length]

private theorem getElem?_swapBytes (data : List α) {i j : ℕ} (boundI : i < data.length) (boundJ : j < data.length)
    (index : ℕ) :
    (Contract.swapBytes data i j)[index]? =
      if index = j then data[i]? else if index = i then data[j]? else data[index]? := by
  rw [Contract.swapBytes, List.getD_eq_getElem?_getD, List.getD_eq_getElem?_getD, List.getElem?_set,
    List.getElem?_set, List.length_set, List.getElem?_eq_getElem boundI, List.getElem?_eq_getElem boundJ,
    Option.getD_some, Option.getD_some]
  split_ifs <;> first | rfl | omega

/-- After `steps` exchanges the outer bytes are reversed and the inner ones untouched. -/
private theorem getElem?_swaps (data : List α) (steps : ℕ) (bound : steps ≤ data.length / 2) (index : ℕ)
    (inside : index < data.length) :
    ((List.range steps).foldl (fun acc i => Contract.swapBytes acc i (data.length - 1 - i)) data)[index]? =
      if index < steps ∨ data.length - steps ≤ index then data[data.length - 1 - index]? else data[index]? := by
  induction steps generalizing index with
  | zero =>
    rw [List.range_zero, List.foldl_nil, if_neg (by omega)]
  | succ steps ih =>
    have length := foldl_swapBytes_length (data.length - 1 - ·) (List.range steps) data
    rw [List.range_succ, List.foldl_append, List.foldl_cons, List.foldl_nil,
      getElem?_swapBytes _ (by omega) (by omega), ih (by omega) steps (by omega),
      ih (by omega) (data.length - 1 - steps) (by omega), ih (by omega) index inside]
    split_ifs <;> first | omega | (congr 1; omega) | rfl

theorem endianSwap_eq (data : List α) : Contract.endianSwap data = data.reverse := by
  have length := foldl_swapBytes_length (data.length - 1 - ·) (List.range (data.length / 2)) data
  apply List.ext_getElem?
  intro index
  by_cases inside : index < data.length
  · rw [Contract.endianSwap, getElem?_swaps data _ (le_refl _) index inside, List.getElem?_reverse inside]
    split_ifs with outer
    · rfl
    · congr 1
      omega
  · rw [List.getElem?_eq_none (by rw [Contract.endianSwap]; omega),
      List.getElem?_eq_none (by simpa using inside)]

end

/-! ## Integer words -/

private theorem beBytes_mod (width value : ℕ) : beBytes width (value % 256 ^ width) = beBytes width value := by
  rw [beBytes, leBytes_mod, beBytes]

/-- Zero extension of a value's low bytes. -/
theorem zero_extend {size : ℕ} (value : ℕ) (bound : size ≤ 32) :
    List.replicate (32 - size) 0 ++ beBytes size value = beBytes 32 (value % 256 ^ size) := by
  have extended := beBytes_add size (32 - size) (value % 256 ^ size) (Nat.mod_lt _ (by positivity))
  rw [Nat.add_sub_cancel' bound, beBytes_mod] at extended
  exact extended.symm

private theorem bmod_eq (value modulus : ℕ) :
    (value : ℤ).bmod modulus =
      if modulus ≤ 2 * (value % modulus) then ((value % modulus : ℕ) : ℤ) - modulus
      else ((value % modulus : ℕ) : ℤ) := by
  rw [Int.bmod_def, ← Int.natCast_mod]
  generalize value % modulus = residue
  split_ifs <;> omega

/-- Sign extension of a value's low bytes. -/
theorem sign_extend {size : ℕ} (value : ℕ) (bound : size ≤ 32) :
    List.replicate (32 - size) (if 256 ^ size ≤ 2 * (value % 256 ^ size) then 0xff else 0) ++ beBytes size value =
      beBytes 32 ((value : ℤ).bmod (256 ^ size) % 2 ^ 256).toNat := by
  have low : value % 256 ^ size < 256 ^ size := Nat.mod_lt _ (by positivity)
  have whole : 256 ^ size * 256 ^ (32 - size) = 2 ^ 256 := by
    rw [← pow_add, Nat.add_sub_cancel' bound]
    norm_num
  have high : 0 < 256 ^ (32 - size) := by positivity
  have room : 256 ^ size ≤ 2 ^ 256 := by
    rw [← whole]
    exact Nat.le_mul_of_pos_right _ high
  rw [bmod_eq]
  split_ifs with negative
  · have residue : ((((value % 256 ^ size : ℕ) : ℤ) - (256 ^ size : ℕ)) % 2 ^ 256).toNat =
        value % 256 ^ size + 256 ^ size * (256 ^ (32 - size) - 1) := by
      rw [Nat.mul_sub, whole, Nat.mul_one, ← Int.add_emod_right, Int.emod_eq_of_lt] <;> omega
    have quotient : (value % 256 ^ size + 256 ^ size * (256 ^ (32 - size) - 1)) / 256 ^ size =
        256 ^ (32 - size) - 1 := by
      rw [Nat.add_mul_div_left _ _ (by positivity), Nat.div_eq_of_lt low, Nat.zero_add]
    have split := leBytes_split size (32 - size) (value % 256 ^ size + 256 ^ size * (256 ^ (32 - size) - 1))
    have part := leBytes_mod size (value % 256 ^ size + 256 ^ size * (256 ^ (32 - size) - 1))
    rw [Nat.add_mul_mod_self_left, Nat.mod_mod, leBytes_mod] at part
    rw [Nat.add_sub_cancel' bound, quotient, leBytes_max, ← part] at split
    rw [residue, beBytes, beBytes, split, List.reverse_append, List.reverse_replicate]
  · have residue : (((value % 256 ^ size : ℕ) : ℤ) % 2 ^ 256).toNat = value % 256 ^ size := by
      rw [Int.emod_eq_of_lt] <;> omega
    rw [residue, zero_extend value bound]

theorem leNat_lt (bytes : Bytes) : leNat bytes < 256 ^ bytes.length := by
  rw [← leBytes_leNat bytes, leNat_leBytes, leBytes_length]
  exact Nat.mod_lt _ (by positivity)

/-- Zero padding in front of a buffer's bytes is the word of the unsigned number. -/
theorem zero_extend_buffer {buffer : Bytes} (bound : buffer.length ≤ 32) :
    List.replicate (32 - buffer.length) 0 ++ buffer.reverse = beBytes 32 (leNat buffer) := by
  have extended := zero_extend (leNat buffer) bound
  rwa [beBytes, leBytes_leNat, Nat.mod_eq_of_lt (leNat_lt buffer)] at extended

/-- Sign padding in front of a buffer's bytes is the word of the signed number. -/
theorem sign_extend_buffer {buffer : Bytes} (bound : buffer.length ≤ 32) :
    List.replicate (32 - buffer.length) (if 256 ^ buffer.length ≤ 2 * leNat buffer then 0xff else 0) ++
      buffer.reverse = beBytes 32 (twosComplement buffer % 2 ^ 256).toNat := by
  have extended := sign_extend (leNat buffer) bound
  rwa [beBytes, leBytes_leNat, Nat.mod_eq_of_lt (leNat_lt buffer)] at extended

/-- The first bytes of an array that holds a buffer in front can be read. -/
private theorem length_le_of_take {memory : Cells} {buffer : Bytes}
    (holds : memory.take buffer.length = cells buffer) : buffer.length ≤ memory.length := by
  have length := congrArg List.length holds
  rw [List.length_take, cells_length] at length
  omega

/-- The unsigned encoder on an array that starts with a buffer. -/
theorem generateBytesForUint_eq {memory : Cells} {buffer : Bytes} (out : Cells) (bound : buffer.length ≤ 32)
    (holds : memory.take buffer.length = cells buffer) :
    Contract.generateBytesForUint memory buffer.length out = .ok (32, cells (beBytes 32 (leNat buffer))) := by
  rw [Contract.generateBytesForUint, if_neg (by omega), readFirst_of_le (length_le_of_take holds), ok_bind, holds,
    ← zero_extend_buffer bound, cells_append, cells_reverse, pure_eq_ok]

/-- The integer encoder on the low bytes of a number. -/
theorem generateBytesForUint_leBytes {size : ℕ} (width value : ℕ) (out : Cells) (bound : size ≤ 32)
    (inside : size ≤ width) :
    Contract.generateBytesForUint (cells (leBytes width value)) size out =
      .ok (32, cells (beBytes 32 (value % 256 ^ size))) := by
  have length : (leBytes size value).length = size := leBytes_length size value
  have encoded := @generateBytesForUint_eq (cells (leBytes width value)) (leBytes size value) out (by rwa [length])
    (by rw [length, cells_take, leBytes_take size width value inside])
  rwa [length, leNat_leBytes] at encoded

/-- The sign that is read from an array that starts with one, two, four or eight bytes. -/
theorem isNegative_eq {memory : Cells} {buffer : Bytes} (sized : buffer.length ∈ [1, 2, 4, 8])
    (holds : memory.take buffer.length = cells buffer) :
    Contract.isNegative memory buffer.length = .ok (decide (256 ^ buffer.length ≤ 2 * leNat buffer)) := by
  have read : readBytes memory buffer.length = .ok buffer := readBytes_eq_ok.mpr ⟨length_le_of_take holds, holds⟩
  simp only [List.mem_cons, List.not_mem_nil, or_false] at sized
  rcases sized with size | size | size | size <;> rw [size] at read <;>
    simp only [Contract.isNegative, size, read, ok_bind, pure_eq_ok] <;> norm_num <;> omega

/-- The signed encoder on an array that starts with a buffer whose sign is known. -/
theorem generateBytesForInt_eq {memory : Cells} {buffer : Bytes} (out : Cells) {negative : Bool}
    (bound : buffer.length ≤ 32) (accepted : buffer.length ≤ 8 ∨ buffer.length % 8 = 0)
    (holds : memory.take buffer.length = cells buffer)
    (sign : Contract.isNegative memory buffer.length = .ok negative) :
    Contract.generateBytesForInt memory buffer.length out =
      .ok (32, cells (List.replicate (32 - buffer.length) (if negative then 0xff else 0) ++ buffer.reverse)) := by
  have read : readBytes memory buffer.length = .ok buffer := readBytes_eq_ok.mpr ⟨length_le_of_take holds, holds⟩
  rw [Contract.generateBytesForInt, if_neg (by omega), sign, ok_bind, if_neg (by omega), read, ok_bind, pure_eq_ok]

/-- The word of one, two, four or eight bytes in two's complement. -/
theorem generateBytesForInt_word {memory : Cells} {buffer : Bytes} (out : Cells)
    (sized : buffer.length ∈ [1, 2, 4, 8]) (holds : memory.take buffer.length = cells buffer) :
    Contract.generateBytesForInt memory buffer.length out =
      .ok (32, cells (beBytes 32 (twosComplement buffer % 2 ^ 256).toNat)) := by
  have small : buffer.length ≤ 8 := by
    simp only [List.mem_cons, List.not_mem_nil, or_false] at sized
    omega
  rw [generateBytesForInt_eq out (by omega) (.inl small) holds (isNegative_eq sized holds),
    ← sign_extend_buffer (by omega)]
  simp only [decide_eq_true_eq]

/-! ## Elementary values -/

/-- The value whose word the encoder writes: every boolean is sent as `true`. -/
def Spec.Scalar.sent : Scalar → Scalar
  | .bool _ => .bool true
  | value => value

/-- A non-negative `int32_t` as a `size_t`. -/
theorem toSizeT_toInt {size : Int32} (nonneg : 0 ≤ size.toInt) : toSizeT size.toInt = size.toNatClampNeg := by
  have := size.toInt_lt
  rw [toSizeT, Int32.toNatClampNeg]
  omega

/-- The number of elements that a size stands for. -/
theorem toNatClampNeg_cast {size : Int32} (nonneg : 0 ≤ size.toInt) : (size.toNatClampNeg : ℤ) = size.toInt :=
  Int.toNat_of_nonneg nonneg

theorem toNatClampNeg_eq {size : Int32} {count : ℕ} (sized : size.toInt = count) : size.toNatClampNeg = count := by
  rw [Int32.toNatClampNeg, sized, Int.toNat_natCast]

theorem toNatClampNeg_pos {size : Int32} (positive : 0 < size.toInt) : 0 < size.toNatClampNeg :=
  Int.lt_toNat.mpr positive

theorem toNatClampNeg_of_not_pos {size : Int32} (empty : size.toInt ≤ 0) : size.toNatClampNeg = 0 :=
  Int.toNat_of_nonpos empty

private theorem integerSize {size : Int32} (sized : isIntegerSize size = true) :
    0 ≤ size.toInt ∧ size.toInt ≤ 8 ∧ (size.toNatClampNeg = 1 ∨ size.toNatClampNeg = 2 ∨ size.toNatClampNeg = 4 ∨
      size.toNatClampNeg = 8) := by
  rw [isIntegerSize, decide_eq_true_eq] at sized
  rw [Int32.toNatClampNeg]
  omega

/-- The twenty bytes of an address are reversed twice. -/
theorem generateBytesForAddress_of_le {data : Cells} (out : Cells) (enough : 20 ≤ data.length) :
    Contract.generateBytesForAddress data out = .ok (32, cells (List.replicate 12 0) ++ data.take 20) := by
  have reversed : (data.take 20).reverse.length = 20 := by
    rw [List.length_reverse, List.length_take]
    omega
  rw [Contract.generateBytesForAddress, readFirst_of_le enough, ok_bind, endianSwap_eq, Contract.generateBytesForUint,
    if_neg (by omega), readFirst_of_le reversed.ge, ok_bind, List.take_of_length_le reversed.le, List.reverse_reverse]
  rfl

theorem generateBytesForAddress_eq {data : Cells} {address : Bytes} (out : Cells)
    (holds : firstBytes? data 20 = some address) :
    Contract.generateBytesForAddress data out = .ok (32, cells (List.replicate 12 0 ++ address)) := by
  obtain ⟨length, same⟩ := firstBytes?_eq_some.mp holds
  have enough : 20 ≤ data.length := by
    have taken := congrArg List.length same
    rw [List.length_take, cells_length, length] at taken
    omega
  rw [generateBytesForAddress_of_le out enough, same, cells_append]

/-- A written integer starts with its bytes. -/
theorem integerBytes_take {α : Type} {written : Bytes} {count : ℕ} (inside : count ≤ written.length) (small : count ≤ 8) :
    (Contract.integerBytes (.plain written : ValueUnion α)).take count = cells (written.take count) := by
  rw [Contract.integerBytes, List.take_take, Nat.min_eq_left small, List.take_append_of_le_length (by simpa using inside),
    cells_take]

/-- The encoder of elementary words on a parameter that denotes a value of its type. -/
theorem generateBytesForSimpleType_eq {type : EthereumTypeName} {sizeBytes : UInt32} {param : ParameterValue}
    {scalar : Scalar} (buf : Cells) (word : type ≠ .bytesStatic)
    (denotes : scalarOf? type sizeBytes param = some scalar) :
    Contract.generateBytesForSimpleType param.value param.size param.isBigInt type buf =
      .ok (32, cells scalar.sent.word) := by
  rw [scalarOf?.eq_def] at denotes
  split at denotes
  · rename_i written same
    split_ifs at denotes with typed
    obtain ⟨nonneg, fits, sized⟩ := integerSize typed.2.1
    obtain rfl := Option.some.inj denotes
    have length : (written.take param.size.toNatClampNeg).length = param.size.toNatClampNeg := by
      simpa using typed.2.2.1
    have encoded := @generateBytesForUint_eq (Contract.integerBytes (.plain written : ValueUnion ParameterValue))
      (written.take param.size.toNatClampNeg) buf (by omega) (by rw [length]; exact integerBytes_take typed.2.2.1 (by omega))
    rw [length] at encoded
    simp only [Contract.generateBytesForSimpleType, fits, typed.1, same, and_self, ↓reduceIte, toSizeT_toInt nonneg]
    exact encoded
  · rename_i written same
    split_ifs at denotes with typed
    obtain ⟨nonneg, fits, sized⟩ := integerSize typed.2.1
    obtain rfl := Option.some.inj denotes
    have length : (written.take param.size.toNatClampNeg).length = param.size.toNatClampNeg := by
      simpa using typed.2.2.1
    have encoded := @generateBytesForInt_word (Contract.integerBytes (.plain written : ValueUnion ParameterValue))
      (written.take param.size.toNatClampNeg) buf (by simpa [length] using sized) (by rw [length]; exact integerBytes_take typed.2.2.1 (by omega))
    rw [length] at encoded
    simp only [Contract.generateBytesForSimpleType, fits, typed.1, same, and_self, ↓reduceIte, toSizeT_toInt nonneg]
    exact encoded
  · split_ifs at denotes <;> obtain rfl := Option.some.inj denotes <;> rfl
  · rename_i data same
    obtain ⟨address, found, rfl⟩ := Option.map_eq_some_iff.mp denotes
    simp only [Contract.generateBytesForSimpleType, same, Contract.bytesMember, ok_bind]
    exact generateBytesForAddress_eq _ found
  · exact absurd rfl word
  · simp at denotes

end Iotex
