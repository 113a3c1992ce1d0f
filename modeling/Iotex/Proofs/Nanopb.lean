import Iotex.Lib.Wire
import Iotex.Model.Nanopb

/-! # What the encoder writes

Each encoder of the library is a sequence of writes of which none is done in part. A message whose
fields are such sequences is one itself; a submessage is a key, a length and a body that is written
as a whole or not at all.
-/

namespace Iotex.Nanopb

/-! ## Varints -/

private theorem continued {byte : UInt8} (bound : byte.toNat < 128) :
    byte ||| 0x80 = UInt8.ofNat (byte.toNat + 128) := by
  have all : ∀ value : Fin 128, UInt8.ofNat value.val ||| 0x80 = UInt8.ofNat (value.val + 128) := by decide
  have same := all ⟨byte.toNat, bound⟩
  rwa [UInt8.ofNat_toNat] at same

/-- A byte with its continuation bit in front of the varint of the remaining groups. -/
private theorem cons_varint {byte : UInt8} {rest : ℕ} (small : byte.toNat < 128) (positive : 0 < rest) :
    (byte ||| 0x80) :: Wire.varint rest = Wire.varint (byte.toNat + 128 * rest) := by
  have quotient : (byte.toNat + 128 * rest) / 128 = rest := by omega
  have pending : (byte.toNat + 128 * rest) % 128 = byte.toNat := by omega
  rw [continued small, Wire.varint_step (show 128 ≤ byte.toNat + 128 * rest by omega), quotient, pending]

private theorem single_varint {byte : UInt8} (small : byte.toNat < 128) : [byte] = Wire.varint byte.toNat := by
  rw [Wire.varint_small small, UInt8.ofNat_toNat]

private theorem group_toNat (value : UInt32) : (value &&& 0x7F).toUInt8.toNat = value.toNat % 128 := by
  rw [UInt32.toNat_toUInt8, UInt32.toNat_and]
  change (value.toNat &&& (2 ^ 7 - 1)) % 256 = value.toNat % 128
  rw [Nat.and_two_pow_sub_one_eq_mod]
  omega

private theorem shift_toNat (value : UInt32) : (value >>> 7).toNat = value.toNat / 128 := by
  rw [UInt32.toNat_shiftRight]
  change value.toNat >>> 7 = _
  rw [Nat.shiftRight_eq_div_pow]

/-- The second loop writes the groups above the pending byte. -/
theorem varintHigh_eq {left : ℕ} {byte : UInt8} {high : UInt32} (small : byte.toNat < 128)
    (bound : high.toNat < 128 ^ left) : varintHigh left byte high = Wire.varint (byte.toNat + 128 * high.toNat) := by
  induction left generalizing byte high with
  | zero =>
    obtain zero : high.toNat = 0 := by simpa using bound
    rw [varintHigh, zero, Nat.mul_zero, Nat.add_zero, single_varint small]
  | succ left ih =>
    rw [varintHigh]
    by_cases zero : high = 0
    · subst zero
      rw [if_neg (by simp), single_varint small]
      rfl
    · have positive : high.toNat ≠ 0 := fun none => zero (UInt32.toNat_inj.mp none)
      have tail := @ih (high &&& 0x7F).toUInt8 (high >>> 7) (by rw [group_toNat]; omega) (by
        rw [shift_toNat]
        rw [pow_succ] at bound
        exact Nat.div_lt_of_lt_mul (by omega))
      have groups : high.toNat % 128 + 128 * (high.toNat / 128) = high.toNat := by omega
      rw [if_pos zero, tail, group_toNat, shift_toNat, groups, cons_varint small (by omega)]

/-- The low bits of the upper half fill up the fifth group. -/
private theorem fifth_toNat {byte : UInt8} (small : byte.toNat < 16) (high : UInt32) :
    (byte ||| ((high &&& 0x07) <<< 4).toUInt8).toNat = byte.toNat + 16 * (high.toNat % 8) := by
  have bits : ((high &&& 0x07) <<< 4).toUInt8 = UInt8.ofNat (16 * (high.toNat % 8)) := by
    apply UInt8.toNat_inj.mp
    rw [UInt32.toNat_toUInt8, UInt32.toNat_shiftLeft, UInt32.toNat_and, UInt8.toNat_ofNat']
    change (high.toNat &&& (2 ^ 3 - 1)) <<< 4 % 2 ^ 32 % 2 ^ 8 = 16 * (high.toNat % 8) % 2 ^ 8
    rw [Nat.and_two_pow_sub_one_eq_mod, Nat.shiftLeft_eq]
    omega
  have all : ∀ (low : Fin 16) (group : Fin 8), (UInt8.ofNat low.val ||| UInt8.ofNat (16 * group.val)).toNat =
      low.val + 16 * group.val := by decide
  have same := all ⟨byte.toNat, small⟩ ⟨high.toNat % 8, by omega⟩
  rw [UInt8.ofNat_toNat] at same
  rw [bits, same]

/-- The bytes from some round of the first loop on. -/
private def fromRound (left : ℕ) (byte : UInt8) (low high : UInt32) : Bytes :=
  let (buffer, last) := varintLow left byte low high
  if high ≠ 0 then buffer ++ varintHigh 5 (last ||| ((high &&& 0x07) <<< 4).toUInt8) (high >>> 3) else buffer ++ [last]

private theorem fromRound_eq {left : ℕ} {byte : UInt8} {low high : UInt32} (small : byte.toNat < 128)
    (bound : byte.toNat + 128 * low.toNat < 2 ^ (4 + 7 * left)) :
    fromRound left byte low high = Wire.varint (byte.toNat + 128 * low.toNat + high.toNat * 2 ^ (4 + 7 * left)) := by
  induction left generalizing byte low with
  | zero =>
    obtain ⟨zero, nibble⟩ : low.toNat = 0 ∧ byte.toNat < 16 := by omega
    have last : fromRound 0 byte low high =
        if high ≠ 0 then varintHigh 5 (byte ||| ((high &&& 0x07) <<< 4).toUInt8) (high >>> 3) else [byte] := rfl
    rw [last, zero, Nat.mul_zero, Nat.add_zero]
    by_cases none : high = 0
    · subst none
      rw [if_neg (by simp), single_varint small]
      simp
    · have quotient : (high >>> 3).toNat = high.toNat / 8 := by
        rw [UInt32.toNat_shiftRight]
        change high.toNat >>> 3 = _
        rw [Nat.shiftRight_eq_div_pow]
      have upper := high.toNat_lt
      rw [if_pos none, varintHigh_eq (by rw [fifth_toNat nibble]; omega) (by rw [quotient]; omega),
        fifth_toNat nibble, quotient]
      congr 1
      omega
  | succ left ih =>
    rw [fromRound, varintLow]
    by_cases done : low ≠ 0 ∨ high ≠ 0
    · have groups : low.toNat % 128 + 128 * (low.toNat / 128) = low.toNat := by omega
      have scaled : 2 ^ (4 + 7 * (left + 1)) = 128 * 2 ^ (4 + 7 * left) := by ring
      have tail := @ih (low &&& 0x7F).toUInt8 (low >>> 7) (by rw [group_toNat]; omega) (by
        rw [group_toNat, shift_toNat, groups]
        omega)
      have positive : 0 < low.toNat + high.toNat * 2 ^ (4 + 7 * left) := by
        rcases done with nonzero | nonzero
        · have : low.toNat ≠ 0 := fun zero => nonzero (UInt32.toNat_inj.mp zero)
          omega
        · have : high.toNat ≠ 0 := fun zero => nonzero (UInt32.toNat_inj.mp zero)
          positivity
      rw [group_toNat, shift_toNat, groups] at tail
      have whole : byte.toNat + 128 * low.toNat + high.toNat * 2 ^ (4 + 7 * (left + 1)) =
          byte.toNat + 128 * (low.toNat + high.toNat * 2 ^ (4 + 7 * left)) := by
        rw [scaled]
        ring
      rw [whole, ← cons_varint small positive, ← tail, fromRound, if_pos done]
      split_ifs <;> rfl
    · obtain ⟨rfl, rfl⟩ : low = 0 ∧ high = 0 := by simpa [not_or] using done
      simp [single_varint small]

/-- A number is written as its shortest varint. -/
theorem pbEncodeVarint_eq (stream : OStream) (value : UInt64) :
    pbEncodeVarint stream value = pbWrite stream (Wire.varint value.toNat) (Wire.varint value.toNat).length := by
  rw [pbEncodeVarint]
  split
  · rename_i small
    have bound : value.toNat < 128 := by
      rw [UInt64.le_iff_toNat_le] at small
      change value.toNat ≤ 127 at small
      omega
    have byte : value.toUInt8 = UInt8.ofNat value.toNat := by
      apply UInt8.toNat_inj.mp
      simp
    rw [Wire.varint_small bound, byte]
    rfl
  · have low : value.toUInt32.toNat = value.toNat % 2 ^ 32 := UInt64.toNat_toUInt32 value
    have high : (value >>> 32).toUInt32.toNat = value.toNat / 2 ^ 32 := by
      have upper := value.toNat_lt
      rw [UInt64.toNat_toUInt32, UInt64.toNat_shiftRight]
      change value.toNat >>> 32 % 2 ^ 32 = _
      rw [Nat.shiftRight_eq_div_pow]
      omega
    have written : varintBytes32 value.toUInt32 (value >>> 32).toUInt32 = Wire.varint value.toNat := by
      change fromRound 4 _ _ _ = _
      rw [fromRound_eq (by rw [group_toNat]; omega) (by rw [group_toNat, shift_toNat, low]; omega), group_toNat,
        shift_toNat, low, high]
      congr 1
      omega
    rw [pbEncodeVarint32, written]

/-! ## Sequences of writes -/

/-- Writes of whole chunks, up to the first one that fails. -/
def writeAll : List Bytes → OStream → Bool × OStream
  | [], stream => (true, stream)
  | chunk :: rest, stream => andThen (pbWrite stream chunk chunk.length) (writeAll rest)

theorem andThen_assoc (first : Bool × OStream) (second third : OStream → Bool × OStream) :
    andThen (andThen first second) third = andThen first fun stream => andThen (second stream) third := by
  obtain ⟨status, stream⟩ := first
  cases status <;> rfl

theorem writeAll_append (a b : List Bytes) (stream : OStream) :
    writeAll (a ++ b) stream = andThen (writeAll a stream) (writeAll b) := by
  induction a generalizing stream with
  | nil => rfl
  | cons chunk rest ih =>
    rw [List.cons_append, writeAll, writeAll, andThen_assoc]
    congr 1
    funext stream
    exact ih stream

/-- A counting stream counts every chunk. -/
theorem writeAll_sizing (chunks : List Bytes) (maxSize count : ℕ) :
    writeAll chunks ⟨none, maxSize, count⟩ = (true, ⟨none, maxSize, count + chunks.flatten.length⟩) := by
  induction chunks generalizing count with
  | nil => rfl
  | cons chunk rest ih =>
    change writeAll rest ⟨none, maxSize, count + chunk.length⟩ = _
    rw [ih, List.flatten_cons, List.length_append, Nat.add_assoc]

theorem pbWrite_fits {buffer chunk : Bytes} {maxSize count : ℕ} (room : count + chunk.length ≤ maxSize) :
    pbWrite ⟨some buffer, maxSize, count⟩ chunk chunk.length =
      (true, ⟨some (buffer ++ chunk), maxSize, count + chunk.length⟩) := by
  have inside : ¬(0 < chunk.length ∧ maxSize < count + chunk.length) := by omega
  rw [pbWrite, List.take_length]
  exact if_neg inside

/-- With enough room all chunks are written. -/
theorem writeAll_fits {chunks : List Bytes} {buffer : Bytes} {maxSize count : ℕ}
    (room : count + chunks.flatten.length ≤ maxSize) :
    writeAll chunks ⟨some buffer, maxSize, count⟩ =
      (true, ⟨some (buffer ++ chunks.flatten), maxSize, count + chunks.flatten.length⟩) := by
  induction chunks generalizing buffer count with
  | nil => simp [writeAll]
  | cons chunk rest ih =>
    rw [List.flatten_cons, List.length_append] at room
    rw [writeAll, pbWrite_fits (by omega)]
    change writeAll rest _ = _
    rw [ih (by omega), List.flatten_cons, List.length_append, List.append_assoc, Nat.add_assoc]

theorem writeAll_single (chunk : Bytes) (stream : OStream) :
    writeAll [chunk] stream = pbWrite stream chunk chunk.length := by
  rw [writeAll]
  rcases pbWrite stream chunk chunk.length with ⟨status, stream⟩
  cases status <;> rfl

/-! ## Fields -/

/-- The key of a length-delimited or varint field. -/
def key (tag wireType : ℕ) : Bytes := Wire.varint (tag * 8 + wireType)

theorem pbEncodeTag_eq {tag wireType : ℕ} (stream : OStream) (bound : tag < 2 ^ 29) (kind : wireType < 8) :
    pbEncodeTag stream wireType tag = writeAll [key tag wireType] stream := by
  have bits : tag <<< 3 ||| wireType = tag * 8 + wireType := by
    rw [← Nat.shiftLeft_add_eq_or_of_lt (by omega), Nat.shiftLeft_eq]
  have value : (UInt64.ofNat (tag * 8 + wireType)).toNat = tag * 8 + wireType := by
    rw [UInt64.toNat_ofNat']
    omega
  rw [pbEncodeTag, bits, pbEncodeVarint_eq, value, writeAll_single, key]

/-- A length and the bytes it counts. -/
theorem pbEncodeString_eq {buffer : Bytes} {size : ℕ} (stream : OStream) (inside : size ≤ buffer.length)
    (bound : size < 2 ^ 64) :
    pbEncodeString stream buffer size = writeAll [Wire.varint size, buffer.take size] stream := by
  have value : (UInt64.ofNat size).toNat = size := by
    rw [UInt64.toNat_ofNat']
    omega
  have whole (stream : OStream) : pbWrite stream buffer size =
      pbWrite stream (buffer.take size) (buffer.take size).length := by
    rw [List.length_take, min_eq_left inside, pbWrite, pbWrite, List.take_take, min_self]
  rw [pbEncodeString, pbEncodeVarint_eq, value, writeAll]
  congr 1
  funext stream
  rw [whole, writeAll_single]

/-- The chunks that a field is written in, on every stream. -/
def Emits (field : PbField) (chunks : List Bytes) : Prop :=
  ∀ stream, encodeField field stream = writeAll chunks stream

/-- A default value is left out. -/
theorem emits_zero (tag : ℕ) : Emits (.singular tag 0) [] := by
  intro stream
  rw [encodeField, if_pos rfl, writeAll]

theorem emits_singular {tag : ℕ} {value : UInt64} (bound : tag < 2 ^ 29) (present : value ≠ 0) :
    Emits (.singular tag value) [key tag 0, Wire.varint value.toNat] := by
  intro stream
  rw [encodeField, if_neg present, pbEncodeTagForField, if_pos rfl, pbEncodeTag_eq stream bound (by omega),
    show [key tag 0, Wire.varint value.toNat] = [key tag 0] ++ [Wire.varint value.toNat] from rfl, writeAll_append]
  congr 1
  funext stream
  rw [pbEncodeVarint_eq, writeAll_single]

theorem emits_callback {ltype : LType} {tag : ℕ} {encode : EncodeFunction} {chunks : List Bytes}
    (writes : ∀ stream, encode ltype tag stream = writeAll chunks stream) :
    Emits (.callback ltype tag (some encode)) chunks := by
  intro stream
  rw [encodeField]
  exact writes stream

/-- The members that a oneof does not hold are left out. -/
theorem emits_other {which tag : ℕ} (fields : List PbField) (other : which ≠ tag) :
    Emits (.oneof which tag fields) [] := by
  intro stream
  rw [encodeField, if_pos other, writeAll]

/-- A message is written field by field. -/
theorem pbEncode_emits {fields : List PbField} {chunks : List (List Bytes)} (emits : List.Forall₂ Emits fields chunks)
    (stream : OStream) : pbEncode fields stream = writeAll chunks.flatten stream := by
  induction emits generalizing stream with
  | nil => rw [pbEncode, List.flatten_nil, writeAll]
  | @cons field chunk fields chunks head tail ih =>
    rw [pbEncode, head stream, List.flatten_cons, writeAll_append]
    congr 1
    funext stream
    exact ih stream

theorem pbEncode_append (a b : List PbField) (stream : OStream) :
    pbEncode (a ++ b) stream = andThen (pbEncode a stream) (pbEncode b) := by
  induction a generalizing stream with
  | nil => rw [List.nil_append, pbEncode]; rfl
  | cons field rest ih =>
    rw [List.cons_append, pbEncode, pbEncode, andThen_assoc]
    congr 1
    funext stream
    exact ih stream

/-! ## Submessages -/

/-- The key and the length of a submessage. -/
def submessageHead (tag : ℕ) (body : Bytes) : Bytes := key tag 2 ++ Wire.varint body.length

variable {tag : ℕ} {fields : List PbField} {chunks : List Bytes} {buffer : Bytes} {maxSize count : ℕ}

/-- Behind its key and length a submessage is written as a whole or not at all. -/
theorem encodeField_submessage (small : tag < 2 ^ 29)
    (writes : ∀ stream, pbEncode fields stream = writeAll chunks stream)
    (bound : chunks.flatten.length < 2 ^ 64) (head : count + (submessageHead tag chunks.flatten).length ≤ maxSize) :
    encodeField (.oneof tag tag fields) ⟨some buffer, maxSize, count⟩ =
      if count + (submessageHead tag chunks.flatten ++ chunks.flatten).length ≤ maxSize then
        (true, ⟨some (buffer ++ (submessageHead tag chunks.flatten ++ chunks.flatten)), maxSize,
          count + (submessageHead tag chunks.flatten ++ chunks.flatten).length⟩)
      else (false, ⟨some (buffer ++ submessageHead tag chunks.flatten), maxSize,
        count + (submessageHead tag chunks.flatten).length⟩) := by
  have sizing : pbEncode fields OStream.sizing = (true, ⟨none, 0, chunks.flatten.length⟩) := by
    rw [writes, OStream.sizing, writeAll_sizing, Nat.zero_add]
  have size : (UInt64.ofNat chunks.flatten.length).toNat = chunks.flatten.length := by
    rw [UInt64.toNat_ofNat']
    omega
  have lengths : (submessageHead tag chunks.flatten).length =
      (key tag 2).length + (Wire.varint chunks.flatten.length).length := by
    rw [submessageHead, List.length_append]
  rw [encodeField, if_neg (by simp), pbEncodeTagForField, if_neg (by simp), pbEncodeTag_eq _ small (by omega),
    writeAll_single, pbWrite_fits (by omega)]
  change pbEncodeSubmessage _ _ = _
  simp only [pbEncodeSubmessage, sizing, Bool.not_true, Bool.false_eq_true, ↓reduceIte]
  rw [pbEncodeVarint_eq, size, pbWrite_fits (by omega)]
  simp only [andThen, ↓reduceIte]
  by_cases room : count + (submessageHead tag chunks.flatten ++ chunks.flatten).length ≤ maxSize
  · rw [if_pos room]
    rw [List.length_append, lengths] at room
    rw [if_neg (by omega), writes, writeAll_fits (by omega)]
    simp only [Nat.zero_add, ne_eq, not_true_eq_false, ↓reduceIte, submessageHead, List.append_assoc,
      List.length_append,
      Nat.add_assoc]
  · rw [if_neg room]
    rw [List.length_append, lengths] at room
    rw [if_pos (by omega)]
    simp only [submessageHead, List.append_assoc, List.length_append, Nat.add_assoc]

/-- A message of plain fields and one submessage: all of it, or what stands in front of the submessage's body. -/
theorem pbEncode_message {before after : List PbField} {pieces : List Bytes} (small : tag < 2 ^ 29)
    (first : ∀ stream, pbEncode before stream = writeAll pieces stream)
    (writes : ∀ stream, pbEncode fields stream = writeAll chunks stream)
    (last : ∀ stream, pbEncode after stream = (true, stream)) (bound : chunks.flatten.length < 2 ^ 64)
    (head : (pieces.flatten ++ submessageHead tag chunks.flatten).length ≤ maxSize) :
    pbEncode (before ++ .oneof tag tag fields :: after) (pbOstreamFromBuffer maxSize) =
      if (pieces.flatten ++ (submessageHead tag chunks.flatten ++ chunks.flatten)).length ≤ maxSize then
        (true, ⟨some (pieces.flatten ++ (submessageHead tag chunks.flatten ++ chunks.flatten)), maxSize,
          (pieces.flatten ++ (submessageHead tag chunks.flatten ++ chunks.flatten)).length⟩)
      else (false, ⟨some (pieces.flatten ++ submessageHead tag chunks.flatten), maxSize,
        (pieces.flatten ++ submessageHead tag chunks.flatten).length⟩) := by
  rw [List.length_append] at head
  rw [pbEncode_append, first, pbOstreamFromBuffer, writeAll_fits (by omega)]
  change pbEncode _ _ = _
  rw [pbEncode, encodeField_submessage small writes bound (by omega)]
  simp only [Nat.zero_add, List.nil_append, List.length_append]
  split_ifs
  · change pbEncode after _ = _
    rw [last]
  · rfl

end Iotex.Nanopb
