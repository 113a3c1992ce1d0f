import Iotex.Proofs.Nanopb
import Iotex.Spec.ActionCore

/-! # The bytes of an action core

What the encoder writes for the cores of the API, in terms of the fields of their messages: every
string and bytes field, and the whole message or the part in front of the submessage's body.
-/

namespace Iotex

open Nanopb Encoder

/-! ## Data strings -/

namespace Signer

theorem str2hexLoop_length (digits : Bytes) : (str2hexLoop digits).2.length ≤ (digits.length + 1) / 2 := by
  induction digits using str2hexLoop.induct with
  | case1 => simp [str2hexLoop]
  | case2 c invalid => simp [str2hexLoop, invalid]
  | case3 c high valid => simp [str2hexLoop, valid]
  | case4 c d rest high low first second ih =>
    rw [str2hexLoop, first, second]
    simp only [List.length_cons]
    omega
  | case5 c d rest invalid =>
    rw [str2hexLoop]
    split
    · rename_i high low first second
      exact absurd second (invalid high low first)
    · simp

theorem str2hex_length (str : Bytes) (size : ℕ) : (str2hex str size).2.length ≤ (str.length + 1) / 2 := by
  have digits : (skipPrefix (cString str)).length ≤ str.length := by
    have cut : (cString str).length ≤ str.length := (List.takeWhile_prefix _).length_le
    rw [skipPrefix]
    split
    · rw [List.length_drop]
      omega
    · exact cut
  have loop := str2hexLoop_length (skipPrefix (cString str))
  rw [str2hex]
  split
  · simp
  · exact loop.trans (by omega)

set_option maxRecDepth 4000 in
/-- The digit value agrees with the nibble of a hexadecimal character. -/
theorem value_of_hexVal? {c : UInt8} {nibble : ℕ} (read : hexVal? c = some nibble) :
    value c = some (UInt8.ofNat nibble) := by
  have all : ∀ c : Fin 256, ∀ nibble ∈ hexVal? (UInt8.ofNat c.val),
      value (UInt8.ofNat c.val) = some (UInt8.ofNat nibble) := by
    decide
  have same := all ⟨c.toNat, c.toNat_lt⟩ nibble (by simpa using read)
  rwa [UInt8.ofNat_toNat] at same

private theorem nibbles {a b : ℕ} (boundA : a < 16) (boundB : b < 16) :
    UInt8.ofNat a <<< 4 ||| UInt8.ofNat b = UInt8.ofNat (16 * a + b) := by
  have all : ∀ a b : Fin 16, UInt8.ofNat a.val <<< 4 ||| UInt8.ofNat b.val =
      UInt8.ofNat (16 * a.val + b.val) := by decide
  exact all ⟨a, boundA⟩ ⟨b, boundB⟩

theorem str2hexLoop_hex {digits bytes : Bytes} (read : unhex? digits = some bytes) :
    str2hexLoop digits = (.success, bytes) := by
  induction digits using unhex?.induct generalizing bytes with
  | case1 =>
    obtain rfl : bytes = [] := by simpa [unhex?] using read.symm
    rfl
  | case2 c => simp [unhex?] at read
  | case3 high low rest ih =>
    obtain ⟨a, b, tail, first, second, others, rfl⟩ := unhex?_cons read
    rw [str2hexLoop, value_of_hexVal? first, value_of_hexVal? second]
    simp only [ih others, nibbles (hexVal?_lt first) (hexVal?_lt second)]

theorem noNul_of_unhex? {text bytes : Bytes} (read : unhex? text = some bytes) : (0 : UInt8) ∉ text := by
  induction text using unhex?.induct generalizing bytes with
  | case1 => simp
  | case2 c => simp [unhex?] at read
  | case3 high low rest ih =>
    obtain ⟨a, b, tail, first, second, others, -⟩ := unhex?_cons read
    have zero : hexVal? 0 = none := by decide
    intro nul
    rcases List.mem_cons.mp nul with rfl | nul
    · simp [zero] at first
    · rcases List.mem_cons.mp nul with rfl | nul
      · simp [zero] at second
      · exact ih others nul

/-- A string of digits has no prefix to skip. -/
theorem skipPrefix_hex {text bytes : Bytes} (read : unhex? text = some bytes) : skipPrefix text = text := by
  apply if_neg
  rintro ⟨rest, rfl⟩
  obtain ⟨a, b, tail, -, second, -, -⟩ := @unhex?_cons 48 120 _ _ read
  exact absurd second (by simp [hexVal?])

/-- A string of digits is converted as a whole. -/
theorem str2hex_hex {text bytes : Bytes} (read : unhex? text = some bytes) {size : ℕ} (room : bytes.length ≤ size) :
    str2hex text size = (.success, bytes) := by
  have length := unhex?_length read
  rw [str2hex, cString_of_noNul (noNul_of_unhex? read), skipPrefix_hex read]
  simp only [show ¬size < text.length / 2 by omega, ↓reduceIte, str2hexLoop_hex read]

/-- The digits behind `0x` are converted as a whole. -/
theorem str2hex_prefixed {text bytes : Bytes} (read : unhex? text = some bytes) {size : ℕ}
    (room : bytes.length ≤ size) : str2hex (ascii "0x" ++ text) size = (.success, bytes) := by
  have length := unhex?_length read
  have noNul : (0 : UInt8) ∉ ascii "0x" ++ text := by
    rw [List.mem_append, not_or]
    exact ⟨by decide, noNul_of_unhex? read⟩
  have skipped : skipPrefix (ascii "0x" ++ text) = text := by
    rw [skipPrefix, if_pos (List.prefix_append _ _)]
    rfl
  rw [str2hex, cString_of_noNul noNul, skipped]
  simp only [show ¬size < text.length / 2 by omega, ↓reduceIte, str2hexLoop_hex read]

/-- The two characters that the table holds for a byte. -/
private theorem hexmap_eq (byte : UInt8) :
    [(ascii "0123456789abcdef").getD (byte >>> 4).toNat 0, (ascii "0123456789abcdef").getD (byte &&& 0xf).toNat 0] =
      hexByte byte := by
  have all : ∀ n : Fin 256, [(ascii "0123456789abcdef").getD (UInt8.ofNat n.val >>> 4).toNat 0,
      (ascii "0123456789abcdef").getD (UInt8.ofNat n.val &&& 0xf).toNat 0] = hexByte (UInt8.ofNat n.val) := by
    decide +kernel
  have each := all ⟨byte.toNat, byte.toNat_lt⟩
  rwa [UInt8.ofNat_toNat] at each

theorem hex2str_eq (bytes : Bytes) {strSize : ℕ} (room : bytes.length * 2 ≤ strSize) :
    hex2str bytes strSize =
      if bytes.length * 2 < 2 ^ 31 then .ok (.success, hex bytes) else .error .intOverflow := by
  rw [hex2str, if_neg (by omega), countInt]
  split_ifs with counted
  · simp only [ok_bind, pure_eq_ok, hexmap_eq, hex]
  · rfl

end Signer

/-- The bytes that the data string stands for: what is converted, and zeros behind it. -/
def Execution.bytes (execution : Execution) : Bytes :=
  ((Signer.str2hex execution.data.text (execution.data.text.length / 2)).2 ++
    List.replicate (execution.data.text.length / 2) 0).take (execution.data.text.length / 2)

namespace Execution

theorem bytes_length (execution : Execution) : execution.bytes.length = execution.data.text.length / 2 := by
  rw [bytes, List.length_take, List.length_append, List.length_replicate]
  omega

/-- The bytes of a string of digits are those it denotes. -/
theorem bytes_of_hex {execution : Execution} {data : Bytes} (read : unhex? execution.data.text = some data) :
    execution.bytes = data := by
  have length := unhex?_length read
  have count : execution.data.text.length / 2 = data.length := by omega
  rw [bytes, count, Signer.str2hex_hex read (le_refl _), List.take_append_of_le_length (le_refl _), List.take_length]

end Execution

/-- An array of zeros after a conversion that stays inside, and its beginning. -/
theorem overwrite_bytes_of_le (execution : Execution) {size : ℕ}
    (inside : (Signer.str2hex execution.data.text (execution.data.text.length / 2)).2.length ≤ size) :
    ∃ array, overwrite (List.replicate size 0) (Signer.str2hex execution.data.text (execution.data.text.length / 2)).2 =
        .ok array ∧
      array.length = size ∧
      (execution.data.text.length / 2 ≤ size → array.take (execution.data.text.length / 2) = execution.bytes) := by
  refine ⟨_, if_pos (by rwa [List.length_replicate]), ?_, ?_⟩
  · rw [List.length_append, List.length_drop, List.length_replicate]
    omega
  · intro room
    rw [Execution.bytes, List.drop_replicate, List.take_append, List.take_append, List.take_replicate,
      List.take_replicate]
    congr 2
    omega

/-- The beginning of an array of zeros, at least as long as it needs to be, after the conversion. -/
theorem overwrite_bytes (execution : Execution) (size : ℕ) (room : (execution.data.text.length + 1) / 2 ≤ size) :
    ∃ array, overwrite (List.replicate size 0) (Signer.str2hex execution.data.text (execution.data.text.length / 2)).2 =
        .ok array ∧
      array.length = size ∧ array.take (execution.data.text.length / 2) = execution.bytes := by
  have written := Signer.str2hex_length execution.data.text (execution.data.text.length / 2)
  obtain ⟨array, converted, length, taken⟩ := @overwrite_bytes_of_le execution size (by omega)
  exact ⟨array, converted, length, taken (by omega)⟩

/-! ## Fields -/

/-- The writes that a field takes: its key, and its value in one or two parts. -/
def fieldChunks : Wire.Field → List Bytes
  | ⟨number, .varint value⟩ => [key number 0, Wire.varint value]
  | ⟨number, .delimited body⟩ => [key number 2, Wire.varint body.length, body]
  | field => [field.write]

theorem fieldChunks_flatten (field : Wire.Field) : (fieldChunks field).flatten = field.write := by
  obtain ⟨number, payload⟩ := field
  cases payload <;> simp [fieldChunks, Wire.Field.write, Wire.Payload.write, Wire.Payload.wireType, key]

theorem chunks_flatten (fields : List Wire.Field) : (fields.flatMap fieldChunks).flatten = Wire.writeFields fields := by
  induction fields with
  | nil => rfl
  | cons field rest ih =>
    rw [List.flatMap_cons, List.flatten_append, fieldChunks_flatten, ih, Wire.writeFields, Wire.writeFields,
      List.flatMap_cons]

theorem emits_number {tag : ℕ} (bound : tag < 2 ^ 29) (value : UInt64) :
    Emits (.singular tag value) ((Spec.numberField tag value.toNat).flatMap fieldChunks) := by
  by_cases zero : value = 0
  · subst zero
    exact emits_zero tag
  · have positive : value.toNat ≠ 0 := fun none => zero (UInt64.toNat_inj.mp none)
    rw [Spec.numberField, if_neg positive]
    exact emits_singular bound zero

/-- A key, a length and the bytes it counts. -/
private theorem delimited_eq {ltype : LType} {tag size : ℕ} {buffer : Bytes} (bound : tag < 2 ^ 29)
    (delimited : ltype ≠ .uvarint) (inside : size ≤ buffer.length) (small : size < 2 ^ 64) (stream : OStream) :
    (andThen (pbEncodeTagForField stream ltype tag) fun stream => pbEncodeString stream buffer size) =
      writeAll (fieldChunks ⟨tag, .delimited (buffer.take size)⟩) stream := by
  rw [pbEncodeTagForField, if_neg delimited, pbEncodeTag_eq stream bound (by omega), fieldChunks,
    show ∀ a b c : Bytes, [a, b, c] = [a] ++ [b, c] from fun _ _ _ => rfl, writeAll_append, List.length_take,
    min_eq_left inside]
  congr 1
  funext stream
  exact pbEncodeString_eq stream inside small

theorem emits_string {tag size : ℕ} (bound : tag < 2 ^ 29) (array : CharArray size) (small : size < 2 ^ 64) :
    Emits (.callback .string tag (some (encodeString array.text))) (fieldChunks ⟨tag, .delimited array.text⟩) := by
  apply emits_callback
  intro stream
  have fits := array.fits
  have string : LType.string ≠ .uvarint := by simp
  have written := delimited_eq bound string (le_refl array.text.length) (by omega) stream
  rw [List.take_length] at written
  rw [encodeString, CharArray.cString_text]
  exact written

theorem emits_bytes {tag size : ℕ} {array : Bytes} (bound : tag < 2 ^ 29) (inside : size ≤ array.length)
    (small : size < 2 ^ 64) :
    Emits (.callback .bytes tag (some (encodeBytes array size))) (fieldChunks ⟨tag, .delimited (array.take size)⟩) :=
  emits_callback fun stream => delimited_eq bound (by simp) inside small stream

/-! ## Messages -/

namespace Spec.ActionCore

/-- What stands in front of the body of the action: the other fields, and its key and length. -/
def cutOff (core : ActionCore) : Bytes :=
  Wire.writeFields core.headFields ++
    core.action.elim [] fun action => submessageHead action.number (Wire.writeFields action.allFields)

end Spec.ActionCore

/-- A message is what stands in front of the body of its action, and the body. -/
theorem writeFields_allFields {core : Spec.ActionCore} {action : Spec.ActionMessage}
    (holds : core.action = some action) :
    Wire.writeFields core.allFields = core.cutOff ++ Wire.writeFields action.allFields := by
  rw [Spec.ActionCore.allFields, Spec.ActionCore.cutOff, holds, Option.elim_some]
  simp [Wire.writeFields, Wire.Field.write, Wire.Payload.write, Wire.Payload.wireType, submessageHead, key]

/-- A message with the given action: all of it, or what stands in front of the body of the action. -/
private theorem pbEncode_core (core : Spec.ActionCore) {before after fields : List PbField}
    {action : Spec.ActionMessage} {maxSize : ℕ} (holds : core.action = some action)
    (first : ∀ stream, pbEncode before stream = writeAll (core.headFields.flatMap fieldChunks) stream)
    (writes : ∀ stream, pbEncode fields stream = writeAll (action.allFields.flatMap fieldChunks) stream)
    (last : ∀ stream, pbEncode after stream = (true, stream))
    (bound : (Wire.writeFields action.allFields).length < 2 ^ 64) (head : core.cutOff.length ≤ maxSize) :
    pbEncode (before ++ .oneof action.number action.number fields :: after) (pbOstreamFromBuffer maxSize) =
      if core.size ≤ maxSize then (true, ⟨some (Wire.writeFields core.allFields), maxSize, core.size⟩)
      else (false, ⟨some core.cutOff, maxSize, core.cutOff.length⟩) := by
  have small : action.number < 2 ^ 29 := by cases action <;> simp [Spec.ActionMessage.number]
  have cut : core.cutOff = Wire.writeFields core.headFields ++
      submessageHead action.number (Wire.writeFields action.allFields) := by
    rw [Spec.ActionCore.cutOff, holds, Option.elim_some]
  have encoded := pbEncode_message small first writes last (by rwa [chunks_flatten])
    (show _ ≤ maxSize by rwa [chunks_flatten, chunks_flatten, ← cut])
  rw [chunks_flatten, chunks_flatten, ← List.append_assoc, ← cut, ← writeFields_allFields holds] at encoded
  exact encoded

private theorem pbEncode_others {fields : List PbField} (others : ∀ field ∈ fields, Emits field []) (stream : OStream) :
    pbEncode fields stream = (true, stream) := by
  induction fields with
  | nil => rw [pbEncode]
  | cons field rest ih =>
    rw [pbEncode, others field List.mem_cons_self]
    exact ih fun other member => others other (List.mem_cons_of_mem _ member)

/-- The fields in front of the action. -/
private theorem pbEncode_head (core : Spec.ActionCore) (version : UInt32) (nonce gasLimit : UInt64)
    (gasPrice : CharArray 31) (same : core.version = version.toNat ∧ core.nonce = nonce.toNat ∧
      core.gasLimit = gasLimit.toNat ∧ core.gasPrice = gasPrice.text) (stream : OStream) :
    pbEncode [.singular 1 version.toUInt64, .singular 2 nonce, .singular 3 gasLimit,
      .callback .string 4 (some (encodeString gasPrice.text))] stream =
        writeAll (core.headFields.flatMap fieldChunks) stream := by
  obtain ⟨v, n, l, p⟩ := same
  have one := emits_number (show 1 < 2 ^ 29 by norm_num) version.toUInt64
  rw [UInt32.toNat_toUInt64] at one
  rw [pbEncode_emits (.cons one (.cons (emits_number (by norm_num) nonce) (.cons (emits_number (by norm_num) gasLimit)
    (.cons (emits_string (by norm_num) gasPrice (by norm_num)) .nil))))]
  simp [Spec.ActionCore.headFields, Spec.ActionCore.numberFields, v, n, l, p]

/-- The two texts of a transfer are short. -/
theorem transfer_body_length (transfer : ActionCoreTransfer) {action : Spec.ActionMessage}
    (holds : transfer.message.action = some action) : (Wire.writeFields action.allFields).length ≤ 75 := by
  obtain rfl := Option.some.inj holds
  have amount := transfer.transfer.amount.fits
  have recipient := transfer.transfer.recipient.fits
  rw [Wire.writeFields_length]
  simp only [Spec.ActionMessage.allFields, List.map_cons, List.map_nil, List.sum_cons, List.sum_nil]
  rw [Wire.delimited_length _ (by norm_num), Wire.delimited_length _ (by norm_num), Wire.varint_small (by omega),
    Wire.varint_small (by omega), List.length_singleton, List.length_singleton]
  omega

/-- Around the data of an execution stand two short texts and at most fifteen bytes of keys and lengths. -/
theorem execution_body_length (execution : ActionCoreExecution) (data : Bytes) {action : Spec.ActionMessage}
    (holds : (execution.message data).action = some action) (addressable : data.length < 2 ^ 63) :
    data.length ≤ (Wire.writeFields action.allFields).length ∧
      (Wire.writeFields action.allFields).length ≤ data.length + 86 := by
  obtain rfl := Option.some.inj holds
  have amount := execution.execution.amount.fits
  have contract := execution.execution.contract.fits
  have short := Wire.varint_length_le 10 (by omega) (lt_trans addressable (by norm_num))
  rw [Wire.writeFields_length]
  simp only [Spec.ActionMessage.allFields, List.map_cons, List.map_nil, List.sum_cons, List.sum_nil]
  rw [Wire.delimited_length _ (by norm_num), Wire.delimited_length _ (by norm_num),
    Wire.delimited_length _ (by norm_num), Wire.varint_small (by omega), Wire.varint_small (by omega),
    List.length_singleton, List.length_singleton]
  constructor <;> omega

theorem transfer_encoded (transfer : ActionCoreTransfer) {maxSize : ℕ}
    (head : transfer.message.cutOff.length ≤ maxSize) :
    pbEncode (transferCore transfer).fields (pbOstreamFromBuffer maxSize) =
      if transfer.message.size ≤ maxSize then
        (true, ⟨some (Wire.writeFields transfer.message.allFields), maxSize, transfer.message.size⟩)
      else (false, ⟨some transfer.message.cutOff, maxSize, transfer.message.cutOff.length⟩) := by
  have body := transfer_body_length transfer rfl
  refine pbEncode_core transfer.message rfl (pbEncode_head _ _ _ _ transfer.gasPrice ⟨rfl, rfl, rfl, rfl⟩)
    ?_ (pbEncode_others ?_) (lt_of_le_of_lt body (by norm_num)) head
  · intro stream
    exact pbEncode_emits (.cons (emits_string (by norm_num) transfer.transfer.amount (by norm_num))
      (.cons (emits_string (by norm_num) transfer.transfer.recipient (by norm_num)) .nil)) stream
  · intro field member
    obtain rfl := List.mem_singleton.mp member
    exact emits_other _ (by simp [transferCore, Pb.Action.whichAction])

theorem execution_encoded (execution : ActionCoreExecution) {array data : Bytes} {maxSize : ℕ}
    (inside : execution.execution.data.text.length / 2 ≤ array.length)
    (taken : array.take (execution.execution.data.text.length / 2) = data)
    (head : (execution.message data).cutOff.length ≤ maxSize) :
    pbEncode (executionCore execution array).fields (pbOstreamFromBuffer maxSize) =
      if (execution.message data).size ≤ maxSize then
        (true, ⟨some (Wire.writeFields (execution.message data).allFields), maxSize, (execution.message data).size⟩)
      else (false, ⟨some (execution.message data).cutOff, maxSize, (execution.message data).cutOff.length⟩) := by
  have addressable := execution.execution.data.addressable
  have count : data.length = execution.execution.data.text.length / 2 := by
    rw [← taken, List.length_take, min_eq_left inside]
  have shape : (executionCore execution array).fields =
      ([.singular 1 execution.version.toUInt64, .singular 2 execution.nonce, .singular 3 execution.gasLimit,
        .callback .string 4 (some (encodeString execution.gasPrice.text))] ++ [.oneof 12 10 []]) ++
        .oneof 12 12 (executionCore execution array).action.executionFields :: [] := rfl
  rw [shape]
  refine pbEncode_core (execution.message data) rfl ?_ ?_ (fun stream => by rw [pbEncode]) ?_ head
  · intro stream
    rw [pbEncode_append, pbEncode_head (execution.message data) _ _ _ execution.gasPrice ⟨rfl, rfl, rfl, rfl⟩]
    rcases writeAll ((execution.message data).headFields.flatMap fieldChunks) stream with ⟨status, written⟩
    cases status with
    | false => rfl
    | true => exact pbEncode_others (by simpa using emits_other [] (by decide : (12 : ℕ) ≠ 10)) written
  · intro stream
    rw [← taken]
    exact pbEncode_emits (.cons (emits_string (by norm_num) execution.execution.amount (by norm_num))
      (.cons (emits_string (by norm_num) execution.execution.contract (by norm_num))
        (.cons (emits_bytes (by norm_num) inside (by omega)) .nil))) stream
  · have body := execution_body_length execution data rfl (by omega)
    omega

end Iotex
