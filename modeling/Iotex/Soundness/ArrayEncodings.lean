import Iotex.Proofs.Encoders

/-! # Encoded arrays

A fixed array of strings and dynamic bytes can be read back from the block that is appended for it:
the words in front are offsets, and the tails behind them stand side by side up to the end. A dynamic
array of elementary values has its size word and its elements, unless it is empty or so long that an
`int` cannot count its bytes.
-/

namespace Iotex

open Spec

/-! ## Blocks of byte strings -/

namespace Spec

/-- The bytes that a byte string takes behind its offset. -/
def dataSize (item : Bytes) : ℕ := 32 + blocks 32 item.length * 32

/-- The word at an index of a block, read as an offset. -/
def offsetAt (block : Bytes) (i : ℕ) : ℕ := beNat ((block.drop (32 * i)).take 32)

/-- At an offset of a block stand the length word of a byte string, its bytes and its padding. -/
structure DataAt (block : Bytes) (offset : ℕ) (item : Bytes) : Prop where
  inside : offset + dataSize item ≤ block.length
  length : beNat ((block.drop offset).take 32) = item.length
  bytes : (block.drop (offset + 32)).take item.length = item
  padding : (block.drop (offset + 32 + item.length)).take (blocks 32 item.length * 32 - item.length) =
    List.replicate (blocks 32 item.length * 32 - item.length) 0

/-- A block whose first words point at its byte strings, which follow each other up to its end. -/
structure DataArrayBlock (items : List Bytes) (block : Bytes) : Prop where
  data : ∀ i (inside : i < items.length), DataAt block (offsetAt block i) items[i]
  first : offsetAt block 0 = 32 * items.length
  adjacent : ∀ i (inside : i + 1 < items.length), offsetAt block (i + 1) = offsetAt block i + dataSize items[i]
  fills : ∀ i (inside : i < items.length), i + 1 = items.length → offsetAt block i + dataSize items[i] = block.length

/-- The byte string at an offset. -/
def readData (block : Bytes) (offset : ℕ) : Bytes :=
  (block.drop (offset + 32)).take (beNat ((block.drop offset).take 32))

/-- The byte strings that the first words of a block point at. -/
def readDataArray (count : ℕ) (block : Bytes) : List Bytes :=
  (List.range count).map fun i => readData block (offsetAt block i)

theorem DataArrayBlock.readDataArray_eq {items : List Bytes} {block : Bytes} (holds : DataArrayBlock items block) :
    readDataArray items.length block = items := by
  apply List.ext_getElem
  · rw [readDataArray, List.length_map, List.length_range]
  · intro i _ inside
    have data := holds.data i inside
    simp only [readDataArray, List.getElem_map, List.getElem_range, readData, data.length, data.bytes]

private theorem dataAt_drop {block item rest : Bytes} {offset : ℕ} (short : item.length < 256 ^ 32)
    (stands : block.drop offset = encodeData item ++ rest) : DataAt block offset item := by
  have covered := le_blocks_mul 32 item.length (by omega)
  have later (count : ℕ) : block.drop (offset + count) = (encodeData item ++ rest).drop count := by
    rw [← List.drop_drop, stands]
  have behindLength : block.drop (offset + 32) = item ++
      (List.replicate (blocks 32 item.length * 32 - item.length) 0 ++ rest) := by
    rw [later, encodeData, padRight, List.append_assoc, List.append_assoc, List.drop_left' (beBytes_length 32 _)]
  constructor
  · have length := congrArg List.length stands
    rw [List.length_drop, List.length_append, encodeData_length] at length
    rw [dataSize]
    omega
  · rw [stands, encodeData, List.append_assoc, List.take_left' (beBytes_length 32 _), beNat_beBytes,
      Nat.mod_eq_of_lt short]
  · rw [behindLength, List.take_left]
  · rw [← List.drop_drop, behindLength, List.drop_left, List.take_left' List.length_replicate]

open HeadTail in
/-- The layout of byte strings behind their offsets can be read back. -/
theorem layout_dataArrayBlock {items : List Bytes} (nonempty : items ≠ [])
    (small : (layout 32 (beBytes 32) ((items.map encodeData).map .byOffset)).length < 256 ^ 32) :
    DataArrayBlock items (layout 32 (beBytes 32) ((items.map encodeData).map .byOffset)) := by
  have total := layout_byOffset_length (beBytes_length 32) (items.map encodeData)
  have positive : 0 < items.length := List.length_pos_iff.mpr nonempty
  have bounded (i : ℕ) : tailOffset 32 (items.map encodeData) i ≤ tailOffset 32 (items.map encodeData)
      (items.map encodeData).length := by
    rw [tailOffset, tailOffset, List.take_length, Nat.add_le_add_iff_left]
    exact ((List.take_sublist i _).flatten).length_le
  have offset {i : ℕ} (inside : i < items.length) :
      offsetAt (layout 32 (beBytes 32) ((items.map encodeData).map .byOffset)) i =
        tailOffset 32 (items.map encodeData) i := by
    have below := bounded i
    rw [offsetAt, layout_byOffset_word (beBytes_length 32) (by rwa [List.length_map]), beNat_beBytes,
      Nat.mod_eq_of_lt (by omega)]
  have next {i : ℕ} (inside : i < items.length) : tailOffset 32 (items.map encodeData) (i + 1) =
      tailOffset 32 (items.map encodeData) i + dataSize items[i] := by
    rw [tailOffset_succ (by rwa [List.length_map]), List.getElem_map, encodeData_length, dataSize]
  constructor
  · intro i inside
    have tail := @layout_byOffset_drop 32 (beBytes 32) (beBytes_length 32) (items.map encodeData) i
      (by rwa [List.length_map])
    have size := next inside
    have below := bounded (i + 1)
    have covered := le_blocks_mul 32 items[i].length (by omega)
    rw [List.getElem_map] at tail
    rw [offset inside]
    apply dataAt_drop _ tail
    rw [dataSize] at size
    omega
  · rw [offset positive, tailOffset_zero, List.length_map]
  · intro i inside
    rw [offset inside, offset (by omega), next (by omega)]
  · intro i inside last
    rw [offset inside, ← next inside, total, List.length_map, last]

end Spec

/-- A fixed array of strings and dynamic bytes is appended as a block from which it can be read back. -/
theorem generateBytesForStaticArrayOfDynamicElements_readBack {elements : List ParameterValue} {items : List Bytes}
    {size : Int32} (data : Cells) (nonempty : 1 ≤ elements.length) (sized : size.toInt = elements.length)
    (typed : List.Forall₂ (fun element item => dataOf? element.type element = some item) elements items)
    (short : ∀ item ∈ items, item.length < 2 ^ 24)
    (total : (items.map fun item => 32 + dataSize item).sum < 2 ^ 31) :
    ∃ block : Bytes,
      Contract.insertedInto data (Contract.generateBytesForStaticArrayOfDynamicElements elements size) =
          .ok (some block.length, data ++ cells block) ∧
        DataArrayBlock items block ∧ readDataArray items.length block = items := by
  have count := typed.length_eq
  have length : (HeadTail.layout 32 (beBytes 32) ((items.map encodeData).map .byOffset)).length =
      (items.map fun item => 32 + dataSize item).sum := by
    rw [HeadTail.layout_length (beBytes_length 32), HeadTail.headsSize_byOffset, HeadTail.tails_byOffset]
    clear * -
    induction items with
    | nil => rfl
    | cons item rest ih =>
      simp only [List.map_cons, List.sum_cons, List.length_cons, List.flatten_cons, List.length_append,
        encodeData_length, dataSize] at ih ⊢
      omega
  have small : items.length < 2 ^ 26 := by
    have heads := HeadTail.layout_length (beBytes_length 32) ((items.map encodeData).map HeadTail.Part.byOffset)
    rw [HeadTail.headsSize_byOffset, List.length_map] at heads
    omega
  have each := typed
  rw [← @List.take_length _ elements, count] at each
  have encoded := generateBytesForStaticArrayOfDynamicElements_eq (by rw [sized, count]) count.ge each short small
  have holds : DataArrayBlock items (HeadTail.layout 32 (beBytes 32) ((items.map encodeData).map .byOffset)) := by
    apply layout_dataArrayBlock
    · rintro rfl
      rw [List.length_nil] at count
      omega
    · rw [length]
      exact total.trans (by norm_num)
  refine ⟨_, ?_, holds, holds.readDataArray_eq⟩
  rw [encoded, length, toInt32_of_lt total, ← length]
  rfl

namespace MixedArray

/-- A string and dynamic bytes of which one more than a word is sent. -/
def elements : List ParameterValue :=
  [{ value := .string 0x1000 ⟨ascii "one", by decide⟩, type := .string },
    { value := .bytes 0x2000 (cells (List.replicate 40 7)), size := 33, type := .bytesDynamic }]

def items : List Bytes := [ascii "one", List.replicate 33 7]

end MixedArray

theorem mixedArray_readBack :
    ∃ block : Bytes,
      Contract.insertedInto (cells [1]) (Contract.generateBytesForStaticArrayOfDynamicElements MixedArray.elements 2) =
          .ok (some block.length, cells [1] ++ cells block) ∧
        DataArrayBlock MixedArray.items block ∧ readDataArray 2 block = MixedArray.items :=
  @generateBytesForStaticArrayOfDynamicElements_readBack MixedArray.elements MixedArray.items 2 (cells [1]) (by decide)
    (by decide) (.cons (by decide) (.cons (by decide) .nil)) (by decide) (by decide)

/-! ## Dynamic arrays -/

/-- The output of an encoder of a dynamic array: the size word and the elements, and their number of bytes. -/
def EncodesDynamicArray (data : Cells) (scalars : List Scalar) (encoded : Exec (Count × Cells)) : Prop :=
  Contract.insertedInto data encoded =
    .ok (some ((32 + 32 * scalars.length : ℕ) : ℤ), data ++ cells (beBytes 32 scalars.length ++ words scalars))

private theorem sent_eq {type : EthereumTypeName} {sizeBytes : UInt32} {param : ParameterValue} {scalar : Scalar}
    (faithful : type ≠ .bool) (denotes : scalarOf? type sizeBytes param = some scalar) : scalar.sent = scalar := by
  cases scalar with
  | bool value =>
    rw [scalarOf?.eq_def] at denotes
    split at denotes <;> simp at denotes faithful
  | _ => rfl

private theorem map_sent_eq {type : EthereumTypeName} {sizeBytes : UInt32} {items : List ParameterValue}
    {scalars : List Scalar} (faithful : type ≠ .bool)
    (typed : List.Forall₂ (fun item scalar => item.type = type ∧ scalarOf? type sizeBytes item = some scalar)
      items scalars) : scalars.map Scalar.sent = scalars := by
  induction typed with
  | nil => rfl
  | cons head tail ih => rw [List.map_cons, sent_eq faithful head.2, ih]

private theorem elementsOf?_of_forall₂ {type : EthereumTypeName} {sizeBytes : UInt32} {items : List ParameterValue}
    {scalars : List Scalar} {size : Int32} (pointer : UInt64) (isBigInt : Bool) (tag : EthereumTypeName)
    (sized : size.toInt = items.length) (nonempty : 1 ≤ items.length)
    (typed : List.Forall₂ (fun item scalar => item.type = type ∧ scalarOf? type sizeBytes item = some scalar)
      items scalars) :
    elementsOf? type (scalarOf? type sizeBytes) ⟨.elements pointer items, size, isBigInt, tag⟩ = some scalars := by
  have count : size.toNatClampNeg = items.length := toNatClampNeg_eq sized
  have supplied : 1 ≤ size.toInt ∧ size.toInt ≤ items.length := by omega
  rw [elementsOf?]
  simp only [supplied, and_self, ↓reduceIte, count, List.take_length]
  rw [mapM_eq_some]
  apply typed.imp
  rintro item scalar ⟨rfl, denotes⟩
  rwa [if_pos rfl]

private theorem insertedInto_eq_ok {data : Cells} {encoded : Exec (Count × Cells)} {count : Count} {block : Cells} :
    Contract.insertedInto data encoded = .ok (count, data ++ block) ↔ encoded = .ok (count, block) := by
  rw [Contract.insertedInto, map_eq_ok]
  constructor
  · rintro ⟨⟨bytes, appended⟩, same, result⟩
    obtain ⟨rfl, joined⟩ := Prod.mk.inj result
    obtain rfl : appended = block := List.append_cancel_left joined
    exact same
  · intro same
    exact ⟨_, same, rfl⟩

private theorem toInt32_eq_self {value : ℕ} : toInt32 value = value ↔ value < 2 ^ 31 := by
  constructor
  · intro same
    have below : toInt32 value < 2 ^ 31 := Int.bmod_lt (by norm_num)
    omega
  · exact toInt32_of_lt

/-- A dynamic array of integers, addresses or static bytes is its size word and its elements exactly when
it has an element and an `int` counts its bytes. -/
theorem generateBytesForParameter_arrayDynamic_iff {type : EthereumTypeName} {sizeBytes : UInt32}
    {items : List ParameterValue} {scalars : List Scalar} {size : Int32} (pointer : UInt64) (isBigInt : Bool)
    (tag : EthereumTypeName) (data : Cells) (elementary : type = .uint ∨ type = .int ∨ type = .address ∨ type = .bytesStatic)
    (sized : size.toInt = items.length)
    (typed : List.Forall₂ (fun item scalar => item.type = type ∧ scalarOf? type sizeBytes item = some scalar)
      items scalars) :
    EncodesDynamicArray data scalars
        (Contract.generateBytesForParameter ⟨.elements pointer items, size, isBigInt, tag⟩ .arrayDynamic) ↔
      1 ≤ items.length ∧ 32 + 32 * items.length < 2 ^ 31 := by
  have faithful : type ≠ .bool := by
    rcases elementary with rfl | rfl | rfl | rfl <;> decide
  have length := typed.length_eq
  rw [EncodesDynamicArray, insertedInto_eq_ok]
  obtain empty | nonempty := Nat.lt_or_ge items.length 1
  · rw [Contract.generateBytesForParameter, if_pos (show size.toInt ≤ 0 by omega)]
    simp only [Except.ok.injEq, Prod.mk.injEq, reduceCtorEq, false_and, Nat.not_le.mpr empty]
  · have encoded := generateBytesForParameter_dynamicArray
      (elementsOf?_of_forall₂ pointer isBigInt tag sized nonempty typed)
    rw [encoded, map_sent_eq faithful typed, length]
    split_ifs with small
    · have returned : (32 + 32 * (scalars.length : ℤ)) = ((32 + 32 * scalars.length : ℕ) : ℤ) := by
        push_cast
        rfl
      simp only [returned, Except.ok.injEq, Prod.mk.injEq, Option.some.injEq, and_true, toInt32_eq_self]
      omega
    · simp only [false_iff]
      omega

theorem uintPair_encoded :
    EncodesDynamicArray (cells [9]) [.uint 1, .uint 258]
        (Contract.generateBytesForParameter
          ⟨.elements 0x1000 [{ value := .integer 4 1, size := 4, type := .uint },
            { value := .integer 4 258, size := 4, type := .uint }], 2, false, .arrayDynamic⟩ .arrayDynamic) ↔
      1 ≤ 2 ∧ 32 + 32 * 2 < 2 ^ 31 :=
  @generateBytesForParameter_arrayDynamic_iff .uint 4 _ _ 2 0x1000 false .arrayDynamic (cells [9]) (by decide) (by decide)
    (.cons (by decide) (.cons (by decide) .nil))

/-- For an array without elements nothing is appended and the returned count is never set. -/
theorem emptyArray_not_encoded :
    Contract.generateBytesForParameter ⟨.elements 0x1000 [], 0, false, .arrayDynamic⟩ .arrayDynamic = .ok (none, []) ∧
      ¬EncodesDynamicArray [] []
        (Contract.generateBytesForParameter ⟨.elements 0x1000 [], 0, false, .arrayDynamic⟩ .arrayDynamic) := by
  have skipped : Contract.generateBytesForParameter ⟨.elements 0x1000 [], 0, false, .arrayDynamic⟩ .arrayDynamic =
      .ok (none, []) := rfl
  refine ⟨skipped, ?_⟩
  rw [skipped]
  simp [EncodesDynamicArray, Contract.insertedInto, Except.map]

end Iotex
