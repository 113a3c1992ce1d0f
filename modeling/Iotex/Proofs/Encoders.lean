import Iotex.Proofs.Words

/-! # Encoders of typed parameters

The bytes and the count that `generateBytesForParameter` yields for a parameter of each ABI type.
The loops over array elements are characterized from any count, up to the point where the `int`
counter would overflow.
-/

namespace Iotex

open Spec

/-- Sums of counts as `size_t` are those of the counts, once they are converted back. -/
theorem toInt32_toSizeT (word added : ℤ) : toInt32 (toSizeT word + toSizeT added) = toInt32 (word + added) := by
  have whole (value : ℤ) : ((toSizeT value : ℕ) : ℤ) = value % 2 ^ 64 := by
    rw [toSizeT]
    omega
  rw [whole, whole, toInt32, toInt32, Int.bmod_def, Int.bmod_def]
  omega

/-! ## Byte strings -/

theorem blocks_le (length : ℕ) : blocks 32 length * 32 ≤ length + 31 := by
  rw [blocks]
  omega

theorem generateBytesForStaticBytes_eq {pVal : Cells} {bytes : Bytes} {size outSize : ℕ} (short : size < 2 ^ 24)
    (holds : firstBytes? pVal size = some bytes) (room : blocks 32 size * 32 ≤ outSize) :
    Contract.generateBytesForStaticBytes pVal size outSize =
      .ok (((blocks 32 size * 32 : ℕ) : ℤ), cells (padRight 32 bytes)) := by
  obtain ⟨length, same⟩ := firstBytes?_eq_some.mp holds
  have enough : size ≤ pVal.length := by
    have taken := congrArg List.length same
    rw [List.length_take, cells_length] at taken
    omega
  have covered := le_blocks_mul 32 size (by omega)
  have above := blocks_le size
  have total : n32ByteGroups size * 32 % 2 ^ 64 = blocks 32 size * 32 := by
    rw [n32ByteGroups_of_lt short]
    omega
  rw [Contract.generateBytesForStaticBytes, total]
  simp only [show ¬(outSize < blocks 32 size * 32 ∨ outSize < size) by omega, ↓reduceIte, readFirst_of_le enough,
    ok_bind, pure_eq_ok, toInt32_of_lt (show blocks 32 size * 32 < 2 ^ 31 by omega), padRight, same, length,
    cells_append]

theorem generateBytesForBytes_eq {pVal : Cells} {bytes : Bytes} {size outSize : ℕ} (short : size < 2 ^ 24)
    (holds : firstBytes? pVal size = some bytes) (room : 32 + blocks 32 size * 32 ≤ outSize) :
    Contract.generateBytesForBytes pVal size outSize =
      .ok (((32 + blocks 32 size * 32 : ℕ) : ℤ), cells (encodeData bytes)) := by
  have above := blocks_le size
  have length := (firstBytes?_eq_some.mp holds).1
  have sum : toSizeT 32 + toSizeT ((blocks 32 size * 32 : ℕ) : ℤ) = 32 + blocks 32 size * 32 := by
    rw [toSizeT_of_lt (by omega)]
    rfl
  have encoded := generateBytesForUint_leBytes 8 size [] (show 8 ≤ 32 by omega) (le_refl 8)
  rw [Nat.mod_eq_of_lt (by omega)] at encoded
  rw [Contract.generateBytesForBytes, encoded, ok_bind, generateBytesForStaticBytes_eq short holds (by omega)]
  simp only [ok_bind, pure_eq_ok, ← Nat.cast_add, sum, toInt32_of_lt (show 32 + blocks 32 size * 32 < 2 ^ 31 by omega),
    encodeData, length, cells_append]

private theorem pushBytes_all {buf : Cells} {bytes : ℕ} (length : buf.length = bytes) (bound : bytes < 2 ^ 64) :
    Contract.pushBytes buf bytes = .ok buf := by
  rw [Contract.pushBytes, toSizeT_of_lt bound, readFirst_of_le (by omega), List.take_of_length_le (by omega)]

theorem encodeData_length (data : Bytes) : (encodeData data).length = 32 + blocks 32 data.length * 32 := by
  rw [encodeData, List.length_append, beBytes_length, padRight_length 32 data (by omega)]

theorem generateBytesForDynamicData_eq {pVal : Cells} {bytes : Bytes} {size : ℕ} (short : size < 2 ^ 24)
    (holds : firstBytes? pVal size = some bytes) :
    Contract.generateBytesForDynamicData pVal size =
      .ok (some (((encodeData bytes).length : ℕ) : ℤ), cells (encodeData bytes)) := by
  have above := blocks_le size
  have length := (firstBytes?_eq_some.mp holds).1
  have room : Contract.bufSize (n32ByteGroups size + 1) = 32 + blocks 32 size * 32 := by
    rw [Contract.bufSize, n32ByteGroups_of_lt short]
    omega
  rw [Contract.generateBytesForDynamicData, generateBytesForBytes_eq short holds (by omega), ok_bind]
  simp only [pushBytes_all (show (cells (encodeData bytes)).length = 32 + blocks 32 size * 32 by
    rw [cells_length, encodeData_length, length]) (by omega), ok_bind, pure_eq_ok, encodeData_length, length]

theorem generateBytesForStaticData_eq {pVal : Cells} {bytes : Bytes} {size : ℕ} (short : size < 2 ^ 24)
    (holds : firstBytes? pVal size = some bytes) :
    Contract.generateBytesForStaticData pVal size =
      .ok (some ((blocks 32 size * 32 : ℕ) : ℤ), cells (padRight 32 bytes)) := by
  have above := blocks_le size
  have length := (firstBytes?_eq_some.mp holds).1
  have room : Contract.bufSize (n32ByteGroups size) = blocks 32 size * 32 := by
    rw [Contract.bufSize, n32ByteGroups_of_lt short]
    omega
  rw [Contract.generateBytesForStaticData, generateBytesForStaticBytes_eq short holds (by omega), ok_bind]
  simp only [pushBytes_all (show (cells (padRight 32 bytes)).length = blocks 32 size * 32 by
    rw [cells_length, padRight_length _ _ (by omega), length]) (by omega), ok_bind, pure_eq_ok]

/-! ## Elementary values and byte strings as parameters -/

theorem scalarOf?_type {type : EthereumTypeName} {sizeBytes : UInt32} {param : ParameterValue} {scalar : Scalar}
    (denotes : scalarOf? type sizeBytes param = some scalar) :
    type = .uint ∨ type = .int ∨ type = .bool ∨ type = .address ∨ type = .bytesStatic := by
  rw [scalarOf?.eq_def] at denotes
  split at denotes <;> simp at denotes ⊢

theorem generateBytesForParameter_scalar {type : EthereumTypeName} {sizeBytes : UInt32} {param : ParameterValue}
    {scalar : Scalar} (denotes : scalarOf? type sizeBytes param = some scalar) :
    Contract.generateBytesForParameter param type = .ok (some 32, cells scalar.sent.word) := by
  have word (simple : type ≠ .bytesStatic) := generateBytesForSimpleType_eq (uninitialized 32) simple denotes
  obtain ⟨value, size, isBigInt, tag⟩ := param
  rcases scalarOf?_type denotes with rfl | rfl | rfl | rfl | rfl
  · rw [Contract.generateBytesForParameter, word (by decide)]
    rfl
  · rw [Contract.generateBytesForParameter, word (by decide)]
    rfl
  · rw [Contract.generateBytesForParameter, word (by decide)]
    rfl
  · rw [Contract.generateBytesForParameter, word (by decide)]
    rfl
  · rw [scalarOf?.eq_def] at denotes
    cases value with
    | bytes pointer data =>
      dsimp only at denotes
      split_ifs at denotes with typed
      obtain ⟨declared, positive, small⟩ := typed
      obtain ⟨bytes, holds, rfl⟩ := Option.map_eq_some_iff.mp denotes
      have size : toSizeT size.toInt = sizeBytes.toNat := by
        rw [declared, toSizeT_of_lt (by omega)]
      have one : blocks 32 sizeBytes.toNat * 32 = 32 := by
        rw [blocks]
        omega
      rw [Contract.generateBytesForParameter, Contract.bytesMember, ok_bind, size,
        generateBytesForStaticData_eq (by omega) holds, one]
      rfl
    | _ => simp at denotes

theorem generateBytesForParameter_data {type : EthereumTypeName} {param : ParameterValue} {data : Bytes}
    (denotes : dataOf? type param = some data) (short : data.length < 2 ^ 24) :
    Contract.generateBytesForParameter param type =
      .ok (some (((encodeData data).length : ℕ) : ℤ), cells (encodeData data)) := by
  obtain ⟨value, size, isBigInt, tag⟩ := param
  rw [dataOf?.eq_def] at denotes
  split at denotes
  · rename_i pointer text same
    obtain rfl : value = .string pointer text := same
    obtain rfl := Option.some.inj denotes
    have whole : firstBytes? (cells text.text) text.text.length = some text.text := by
      rw [firstBytes?_cells (le_refl _), List.take_length]
    rw [Contract.generateBytesForParameter, Contract.stringMember, ok_bind, generateBytesForDynamicData_eq short whole]
  · rename_i pointer bytes same
    obtain rfl : value = .bytes pointer bytes := same
    dsimp only at denotes
    split_ifs at denotes with nonneg
    have length := (firstBytes?_eq_some.mp denotes).1
    rw [Contract.generateBytesForParameter, Contract.bytesMember, ok_bind, toSizeT_toInt nonneg,
      generateBytesForDynamicData_eq (by omega) denotes]
  · simp at denotes

/-! ## Arrays -/

/-- A read of every element succeeds exactly when the values are read one by one. -/
theorem mapM_eq_some {α β : Type} {f : α → Option β} {items : List α} {values : List β} :
    items.mapM f = some values ↔ List.Forall₂ (fun item value => f item = some value) items values := by
  induction items generalizing values with
  | nil => simp [eq_comm]
  | cons item rest ih =>
    simp only [List.mapM_cons, bind, Option.bind_eq_some_iff, pure, Option.some.injEq, ih]
    constructor
    · rintro ⟨value, head, others, tail, rfl⟩
      exact .cons head tail
    · rintro (_ | ⟨head, tail⟩)
      exact ⟨_, head, _, tail, rfl⟩

/-- What a parameter that denotes an array holds: as many elements of the type as its size says. -/
theorem elementsOf?_eq_some {α : Type} {type : EthereumTypeName} {read : ParameterValue → Option α}
    {param : ParameterValue} {values : List α} (denotes : elementsOf? type read param = some values) :
    ∃ pointer first rest, param.value = .elements pointer (first :: rest) ∧ first.type = type ∧ (∃ value, read first = some value) ∧
      param.size.toInt = values.length ∧ 0 < values.length ∧ values.length ≤ (first :: rest).length ∧
      List.Forall₂ (fun item value => item.type = type ∧ read item = some value)
        ((first :: rest).take values.length) values := by
  rw [elementsOf?.eq_def] at denotes
  split at denotes
  · rename_i pointer items same
    split_ifs at denotes with sized
    have each : List.Forall₂ (fun item value => item.type = type ∧ read item = some value)
        (items.take param.size.toNatClampNeg) values := by
      apply (mapM_eq_some.mp denotes).imp
      intro item value found
      split_ifs at found with tagged
      exact ⟨tagged, found⟩
    have length := each.length_eq
    rw [List.length_take, Nat.min_eq_left (by rw [Int32.toNatClampNeg]; omega)] at length
    rw [length] at each
    rw [Int32.toNatClampNeg] at length
    cases items with
    | nil => rw [List.length_nil] at sized; omega
    | cons first rest =>
      obtain ⟨value, others, rfl⟩ : ∃ value others, values = value :: others := by
        cases values with
        | nil => rw [List.length_nil] at length; omega
        | cons value others => exact ⟨value, others, rfl⟩
      have head := each
      rw [List.length_cons, List.take_succ_cons, List.forall₂_cons] at head
      exact ⟨pointer, first, rest, same, head.1.1, ⟨value, head.1.2⟩, by omega, by simp, by omega, each⟩
  · simp at denotes

/-- The loop over static elements that each contribute one word. -/
theorem generateBytesForStaticElements_eq {items : List ParameterValue} {count : ℕ} {encoded : List Bytes}
    (start : ℕ) (below : start < 2 ^ 31) (enough : count ≤ items.length)
    (each : List.Forall₂ (fun item word => item.type ≠ .unknown ∧
      Contract.generateBytesForParameter item item.type = .ok (some 32, cells word)) (items.take count) encoded) :
    Contract.generateBytesForStaticElements items count (some (start : ℤ)) =
      if start + 32 * count < 2 ^ 31 then .ok (some ((start + 32 * count : ℕ) : ℤ), cells encoded.flatten)
      else .error .intOverflow := by
  induction count generalizing items start encoded with
  | zero =>
    rw [List.take_zero, List.forall₂_nil_left_iff] at each
    rw [each, if_pos (by omega), Contract.generateBytesForStaticElements]
    rfl
  | succ count ih =>
    obtain ⟨item, rest, rfl⟩ : ∃ item rest, items = item :: rest := by
      cases items with
      | nil => simp at enough
      | cons item rest => exact ⟨item, rest, rfl⟩
    rw [List.take_succ_cons, List.forall₂_cons_left_iff] at each
    obtain ⟨word, words, ⟨known, encodes⟩, each, rfl⟩ := each
    rw [Contract.generateBytesForStaticElements, if_neg known, encodes]
    simp only [ok_bind, pure_eq_ok]
    by_cases next : start + 32 < 2 ^ 31
    · rw [addCount_some, if_pos (by omega), ok_bind, show (start : ℤ) + 32 = ((start + 32 : ℕ) : ℤ) by push_cast; rfl,
        ih (start + 32) next (by simpa using enough) each]
      by_cases all : start + 32 * (count + 1) < 2 ^ 31
      · rw [if_pos (by omega), if_pos all, ok_bind, List.flatten_cons, cells_append,
          show start + 32 + 32 * count = start + 32 * (count + 1) by omega]
      · rw [if_neg (by omega), if_neg all, error_bind]
    · rw [addCount_some, if_neg (by omega), error_bind, if_neg (by omega)]

/-- The word of the values that are sent. -/
theorem forall₂_scalars {type : EthereumTypeName} {sizeBytes : UInt32} {items : List ParameterValue}
    {scalars : List Scalar}
    (each : List.Forall₂ (fun item scalar => item.type = type ∧ scalarOf? type sizeBytes item = some scalar)
      items scalars) :
    List.Forall₂ (fun item word => item.type ≠ .unknown ∧
      Contract.generateBytesForParameter item item.type = .ok (some 32, cells word)) items
      (scalars.map fun scalar => scalar.sent.word) := by
  rw [List.forall₂_map_right_iff]
  apply each.imp
  rintro item scalar ⟨rfl, denotes⟩
  refine ⟨?_, generateBytesForParameter_scalar denotes⟩
  rcases scalarOf?_type denotes with h | h | h | h | h <;> simp [h]

open HeadTail in
/-- The heads of an array of dynamic elements are the offsets of the layout. -/
theorem buildHeads_eq {bodies : List Bytes} (offset : ℕ) (bound : offset + bodies.flatten.length < 2 ^ 63)
    (each : ∀ body ∈ bodies, body.length < 2 ^ 31) :
    Contract.buildHeads (some offset) (bodies.map fun body => some ((body.length : ℕ) : ℤ)) =
      .ok (cells (heads (beBytes 32) offset (bodies.map .byOffset))) := by
  induction bodies generalizing offset with
  | nil => rfl
  | cons body rest ih =>
    rw [List.flatten_cons, List.length_append] at bound
    have word := generateBytesForUint_leBytes 8 offset (cells (List.replicate 32 0)) (show 8 ≤ 32 by omega)
      (le_refl 8)
    rw [Nat.mod_eq_of_lt (by omega)] at word
    have next : addSizeT (some offset) (Count.toSizeT (some ((body.length : ℕ) : ℤ))) =
        some (offset + body.length) := by
      have small := each body List.mem_cons_self
      simp only [Count.toSizeT, Option.map_some, toSizeT_of_lt (show body.length < 2 ^ 64 by omega), addSizeT, bind,
        Option.bind_some, Nat.mod_eq_of_lt (show offset + body.length < 2 ^ 64 by omega)]
    rw [List.map_cons, Contract.buildHeads, sizeTBytes, word, ok_bind, next,
      ih _ (by omega) fun other member => each other (List.mem_cons_of_mem _ member)]
    simp only [ok_bind, pure_eq_ok, List.map_cons, heads, cells_append]

theorem generateBytesForElements_eq {items : List ParameterValue} {count : ℕ} {bodies : List Bytes}
    (each : List.Forall₂ (fun item body => Contract.generateBytesForParameter item item.type =
      .ok (some ((body.length : ℕ) : ℤ), cells body)) (items.take count) bodies) (enough : count ≤ items.length) :
    Contract.generateBytesForElements items count =
      .ok (bodies.map fun body => (some ((body.length : ℕ) : ℤ), cells body)) := by
  induction count generalizing items bodies with
  | zero =>
    rw [List.take_zero, List.forall₂_nil_left_iff] at each
    rw [each, Contract.generateBytesForElements]
    rfl
  | succ count ih =>
    obtain ⟨item, rest, rfl⟩ : ∃ item rest, items = item :: rest := by
      cases items with
      | nil => simp at enough
      | cons item rest => exact ⟨item, rest, rfl⟩
    rw [List.take_succ_cons, List.forall₂_cons_left_iff] at each
    obtain ⟨body, others, encodes, each, rfl⟩ := each
    rw [Contract.generateBytesForElements, encodes, ok_bind, ih each (by simpa using enough)]
    rfl

open HeadTail in
/-- An array of dynamic elements is the layout of their encodings. -/
theorem withHeads_eq (size : Int32) (bodies : List Bytes) (positive : 0 ≤ size.toInt)
    (length : bodies.length = size.toNatClampNeg) (small : bodies.length < 2 ^ 26)
    (each : ∀ body ∈ bodies, body.length < 2 ^ 31) :
    Contract.withHeads size
        (.ok (bodies.map fun body => (some ((body.length : ℕ) : ℤ), cells body))) =
      .ok (some (toInt32 (layout 32 (beBytes 32) (bodies.map .byOffset)).length),
        cells (layout 32 (beBytes 32) (bodies.map .byOffset))) := by
  have sized : size.toInt = bodies.length := by
    rw [length, Int32.toNatClampNeg]
    omega
  have total : bodies.flatten.length ≤ bodies.length * 2 ^ 31 := by
    rw [List.length_flatten, ← @List.length_map _ _ bodies List.length]
    apply List.sum_le_card_nsmul
    intro n member
    obtain ⟨body, present, rfl⟩ := List.mem_map.mp member
    exact (each body present).le
  have product : mulInt 32 size.toInt = .ok (((32 * bodies.length : ℕ) : ℤ)) := by
    rw [mulInt, sized, if_pos (by omega)]
    push_cast
    rfl
  have built := buildHeads_eq (32 * bodies.length) (by omega) each
  have returned : 32 * size.toInt + (cells bodies.flatten).length =
      ((layout 32 (beBytes 32) (bodies.map .byOffset)).length : ℤ) := by
    rw [layout_length (beBytes_length 32), headsSize_byOffset, tails_byOffset, cells_length, sized]
    push_cast
    rfl
  rw [← returned, Contract.withHeads, product, ok_bind, ok_bind, toSizeT_of_lt (by omega), List.map_map,
    show (Prod.fst ∘ fun body : Bytes => (some ((body.length : ℕ) : ℤ), cells body)) =
      fun body => some ((body.length : ℕ) : ℤ) from rfl, built, ok_bind, List.map_map,
    show (Prod.snd ∘ fun body : Bytes => ((some ((body.length : ℕ) : ℤ), cells body) : Count × Cells)) = cells from rfl,
    cells_flatten, layout, headsSize_byOffset, tails_byOffset, cells_append]
  rfl

/-! ## Values -/

namespace Spec.Value

/-- The value that the encoder sends in place of this one. -/
def sent : Value → Value
  | scalar value => scalar value.sent
  | fixedArray items => fixedArray (items.map Scalar.sent)
  | dynamicArray items => dynamicArray (items.map Scalar.sent)
  | value => value

/-- The elements of an array leave the `int` counter of the encoder in range. -/
def Counted : Value → Prop
  | fixedArray items => items.length < 2 ^ 26
  | dynamicArray items => items.length < 2 ^ 26
  | dataArray items => items.length < 2 ^ 26
  | _ => True

instance : DecidablePred Counted
  | scalar _ => inferInstanceAs (Decidable True)
  | fixedArray items => inferInstanceAs (Decidable (items.length < 2 ^ 26))
  | data _ => inferInstanceAs (Decidable True)
  | dynamicArray items => inferInstanceAs (Decidable (items.length < 2 ^ 26))
  | dataArray items => inferInstanceAs (Decidable (items.length < 2 ^ 26))

end Spec.Value

theorem words_sent (items : List Scalar) :
    (items.map fun scalar => scalar.sent.word).flatten = words (items.map Scalar.sent) := by
  rw [words, List.map_map]
  rfl

/-- A fixed array of elementary values. -/
theorem generateBytesForParameter_fixedArray {type : EthereumTypeName} {sizeBytes : UInt32} {param : ParameterValue}
    {scalars : List Scalar} (denotes : elementsOf? type (scalarOf? type sizeBytes) param = some scalars) :
    Contract.generateBytesForParameter param .arrayStatic =
      if scalars.length < 2 ^ 26 then
        .ok (some ((32 * scalars.length : ℕ) : ℤ), cells (words (scalars.map Scalar.sent)))
      else .error .intOverflow := by
  obtain ⟨pointer, first, rest, same, tagged, ⟨scalar, found⟩, sized, positive, enough, each⟩ := elementsOf?_eq_some denotes
  obtain ⟨value, size, isBigInt, tag⟩ := param
  obtain rfl : value = .elements pointer (first :: rest) := same
  have static : first.isDynamic = false := by
    rcases scalarOf?_type found with h | h | h | h | h <;>
      simp [ParameterValue.isDynamic, tagged, h, EthereumTypeName.isDynamic]
  have count : size.toNatClampNeg = scalars.length := toNatClampNeg_eq sized
  have loop := generateBytesForStaticElements_eq 0 (by omega) enough (forall₂_scalars each)
  rw [Contract.generateBytesForParameter, if_neg (by dsimp only at sized; omega),
    Contract.generateBytesForStaticArray_cons, static, if_neg (by simp),
    Contract.generateBytesForStaticArrayOfStaticElements,
    count]
  rw [words_sent, Nat.zero_add, Nat.cast_zero] at loop
  rw [loop]
  by_cases small : scalars.length < 2 ^ 26
  · rw [if_pos (by omega), if_pos small]
  · rw [if_neg (by omega), if_neg small]

/-- A dynamic array of elementary values. -/
theorem generateBytesForParameter_dynamicArray {type : EthereumTypeName} {sizeBytes : UInt32} {param : ParameterValue}
    {scalars : List Scalar} (denotes : elementsOf? type (scalarOf? type sizeBytes) param = some scalars) :
    Contract.generateBytesForParameter param .arrayDynamic =
      if scalars.length < 2 ^ 26 then
        .ok (some (toInt32 (32 + 32 * scalars.length)),
          cells (beBytes 32 scalars.length ++ words (scalars.map Scalar.sent)))
      else .error .intOverflow := by
  obtain ⟨pointer, first, rest, same, tagged, ⟨scalar, found⟩, sized, positive, enough, each⟩ := elementsOf?_eq_some denotes
  obtain ⟨value, size, isBigInt, tag⟩ := param
  obtain rfl : value = .elements pointer (first :: rest) := same
  dsimp only at sized
  have static : first.isDynamic = false := by
    rcases scalarOf?_type found with h | h | h | h | h <;>
      simp [ParameterValue.isDynamic, tagged, h, EthereumTypeName.isDynamic]
  have count : size.toNatClampNeg = scalars.length := toNatClampNeg_eq sized
  have below := size.toInt_lt
  have bits : size.toUInt32.toNat = scalars.length := by
    rw [Int32.toNat_toUInt32_of_le (Int32.le_iff_toInt_le.mpr (by rw [Int32.toInt_zero]; omega)), count]
  have loop := generateBytesForStaticElements_eq 0 (by omega) enough (forall₂_scalars each)
  have word := generateBytesForUint_leBytes 4 scalars.length (cells (List.replicate 32 0))
    (show 4 ≤ 32 by omega) (le_refl 4)
  rw [Nat.mod_eq_of_lt (by omega)] at word
  rw [Contract.generateBytesForParameter, if_neg (by omega), Contract.generateBytesForDynamicArray_cons, static,
    if_neg (by simp), Contract.generateBytesForDynamicArrayOfStaticElements, Contract.withSizeWord, bits, word, ok_bind,
    Contract.generateBytesForStaticArrayOfStaticElements, count]
  rw [words_sent, Nat.zero_add, Nat.cast_zero] at loop
  rw [loop]
  by_cases small : scalars.length < 2 ^ 26
  · have sum : toSizeT 32 + toSizeT ((32 * scalars.length : ℕ) : ℤ) = 32 + 32 * scalars.length := by
      rw [toSizeT_of_lt (by omega)]
      rfl
    rw [if_pos (by omega), if_pos small]
    simp only [ok_bind, pure_eq_ok, Option.map_some, ← Nat.cast_add, sum, cells_append]
    push_cast
    rfl
  · rw [if_neg (by omega), if_neg small]
    rfl

/-- The encoder of fixed arrays on byte strings, each of its own type. -/
theorem generateBytesForStaticArrayOfDynamicElements_eq {elements : List ParameterValue} {datas : List Bytes}
    {size : Int32} (sized : size.toInt = datas.length) (enough : datas.length ≤ elements.length)
    (each : List.Forall₂ (fun element data => dataOf? element.type element = some data)
      (elements.take datas.length) datas)
    (short : ∀ data ∈ datas, data.length < 2 ^ 24) (small : datas.length < 2 ^ 26) :
    Contract.generateBytesForStaticArrayOfDynamicElements elements size =
      .ok (some (toInt32 (HeadTail.layout 32 (beBytes 32) ((datas.map encodeData).map .byOffset)).length),
        cells (HeadTail.layout 32 (beBytes 32) ((datas.map encodeData).map .byOffset))) := by
  have count : size.toNatClampNeg = datas.length := toNatClampNeg_eq sized
  have encoded : List.Forall₂ (fun item body => Contract.generateBytesForParameter item item.type =
      .ok (some ((body.length : ℕ) : ℤ), cells body)) (elements.take datas.length) (datas.map encodeData) := by
    rw [List.forall₂_map_right_iff]
    refine (List.Forall₂.flip ((List.forall₂_and_left _ _).mpr ⟨short, each.flip⟩)).imp ?_
    rintro item data ⟨small, found⟩
    exact generateBytesForParameter_data found small
  have bounded : ∀ body ∈ datas.map encodeData, body.length < 2 ^ 31 := by
    intro body member
    obtain ⟨data, present, rfl⟩ := List.mem_map.mp member
    have small := short data present
    have above := blocks_le data.length
    rw [encodeData_length]
    omega
  rw [Contract.generateBytesForStaticArrayOfDynamicElements, count, generateBytesForElements_eq encoded enough]
  apply withHeads_eq
  · omega
  · rw [List.length_map, count]
  · rwa [List.length_map]
  · exact bounded

/-- A fixed array of byte strings. -/
theorem generateBytesForParameter_dataArray {type : EthereumTypeName} {param : ParameterValue} {datas : List Bytes}
    (denotes : elementsOf? type (dataOf? type) param = some datas) (short : ∀ data ∈ datas, data.length < 2 ^ 24) :
    if datas.length < 2 ^ 26 then
      ∃ count, Contract.generateBytesForParameter param .arrayStatic =
        .ok (some count, cells (HeadTail.layout 32 (beBytes 32) (datas.map fun data => .byOffset (encodeData data))))
    else Contract.generateBytesForParameter param .arrayStatic = .error .intOverflow := by
  obtain ⟨pointer, first, rest, same, tagged, ⟨data, found⟩, sized, positive, enough, each⟩ := elementsOf?_eq_some denotes
  obtain ⟨value, size, isBigInt, tag⟩ := param
  obtain rfl : value = .elements pointer (first :: rest) := same
  dsimp only at sized
  have dynamic : first.isDynamic = true := by
    rw [dataOf?.eq_def] at found
    split at found <;> simp_all [ParameterValue.isDynamic, EthereumTypeName.isDynamic]
  have unfolded : Contract.generateBytesForParameter ⟨.elements pointer (first :: rest), size, isBigInt, tag⟩ .arrayStatic =
      Contract.generateBytesForStaticArrayOfDynamicElements (first :: rest) size := by
    rw [Contract.generateBytesForParameter, if_neg (by omega), Contract.generateBytesForStaticArray_cons, dynamic,
      if_pos rfl]
  rw [unfolded]
  split_ifs with small
  · have typed : List.Forall₂ (fun element data => dataOf? element.type element = some data)
        ((first :: rest).take datas.length) datas := by
      apply each.imp
      rintro item data ⟨rfl, found⟩
      exact found
    have encoded := generateBytesForStaticArrayOfDynamicElements_eq sized enough typed short small
    rw [List.map_map] at encoded
    exact ⟨_, encoded⟩
  · rw [Contract.generateBytesForStaticArrayOfDynamicElements, Contract.withHeads, mulInt, if_neg (by omega),
      error_bind]

/-- A parameter that denotes a value is encoded as the value that is sent in its place, unless the
counter of an array encoder overflows. -/
theorem generateBytesForParameter_value {input : InputOutputAbi} {param : ParameterValue} {value : Value}
    (denotes : valueOf? input param = some value) (short : value.Short) :
    if value.Counted then
      ∃ count, Contract.generateBytesForParameter param input.type = .ok (some count, cells value.sent.part.body)
    else Contract.generateBytesForParameter param input.type = .error .intOverflow := by
  rw [valueOf?.eq_def] at denotes
  split at denotes
  case h_8 =>
    rename_i type
    rw [type]
    split_ifs at denotes with declared dynamic
    · obtain ⟨datas, found, rfl⟩ := Option.map_eq_some_iff.mp denotes
      exact generateBytesForParameter_dataArray found short
    · obtain ⟨scalars, found, rfl⟩ := Option.map_eq_some_iff.mp denotes
      rw [generateBytesForParameter_fixedArray found]
      by_cases small : scalars.length < 2 ^ 26
      · rw [if_pos (show (Value.fixedArray scalars).Counted from small), if_pos small]
        exact ⟨_, rfl⟩
      · rw [if_neg (show ¬(Value.fixedArray scalars).Counted from small), if_neg small]
  case h_9 =>
    rename_i type
    rw [type]
    obtain ⟨scalars, found, rfl⟩ := Option.map_eq_some_iff.mp denotes
    rw [generateBytesForParameter_dynamicArray found]
    by_cases small : scalars.length < 2 ^ 26
    · rw [if_pos (show (Value.dynamicArray scalars).Counted from small), if_pos small]
      refine ⟨toInt32 (32 + 32 * scalars.length), ?_⟩
      simp only [Value.sent, Value.part, HeadTail.Part.body, List.length_map]
    · rw [if_neg (show ¬(Value.dynamicArray scalars).Counted from small), if_neg small]
  case h_10 => simp at denotes
  all_goals obtain ⟨found, read, rfl⟩ := Option.map_eq_some_iff.mp denotes
  all_goals first
    | exact (if_pos (show (Value.scalar found).Counted from trivial)).mpr ⟨_, generateBytesForParameter_scalar read⟩
    | exact (if_pos (show (Value.data found).Counted from trivial)).mpr ⟨_, generateBytesForParameter_data read short⟩

end Iotex
