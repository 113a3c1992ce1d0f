import Iotex.Proofs.Bech32Text
import Iotex.Proofs.Calls
import Iotex.Proofs.SignedCores
import Iotex.Soundness.HexReading

/-! # Hexadecimal text between the parts of the library

The two printers write the same text and the reader inverts them, as long as an `int` counts the
characters; so call data arrives in the data field of an execution. The entry point of the Bech32
encoder for such text counts the characters of a prefix as a byte, and never refuses a text.
-/

namespace Iotex

open Encoder Spec

/-! ## Bech32 of hexadecimal text -/

/-- The text of bytes is encoded as they are, whatever stood in memory, and any other text is an error. -/
structure AgreesOnText (text : Bytes) : Prop where
  encodes : ∀ bytes, HexTextOf text bytes → ∀ memory encodedData,
    ∃ encoded, bech32Encode bytes = .ok (.success, encoded) ∧
      bech32EncodeHexString memory text encodedData = .ok (.success, encoded)
  refuses : (∀ bytes, ¬HexTextOf text bytes) → ∀ memory encodedData,
    ∃ ret, ret ≠ .success ∧ bech32EncodeHexString memory text encodedData = .ok (ret, encodedData)

private theorem noNul_of_hexTextOf {text bytes : Bytes} (denotes : HexTextOf text bytes) : (0 : UInt8) ∉ text := by
  rcases denotes with read | ⟨digits, rfl, read⟩
  · exact Signer.noNul_of_unhex? read
  · rw [List.mem_append, not_or]
    exact ⟨by decide, Signer.noNul_of_unhex? read⟩

/-- What is encoded for the text of bytes: these, and what stood in memory behind them. -/
private theorem bech32EncodeHexString_eq {text bytes : Bytes} (denotes : HexTextOf text bytes)
    (room : bytes.length ≤ text.length / 2) (memory : ℕ → UInt8) (encodedData : Bytes) :
    bech32EncodeHexString memory text encodedData =
      (bech32Encode (bytes ++ ((List.range (text.length / 2)).map memory).drop bytes.length) >>=
        fun result => .ok (.success, result.2)) := by
  have read : Signer.str2hex text (text.length / 2) = (.success, bytes) := by
    apply str2hex_of_hexTextOf _ room
    rwa [cString_of_noNul (noNul_of_hexTextOf denotes)]
  rw [bech32EncodeHexString, read, overwrite, if_pos (by simpa using room), ok_bind]
  rfl

private theorem bech32Text_length (values : Bytes) :
    (Bech32.text .bech32 (ascii "io") values).length = values.length + 9 := by
  have front : (ascii "io" ++ [49]).length = 3 := rfl
  rw [Bech32.text, List.length_append, front, List.length_map, List.length_append, Bech32.createChecksum_length]
  omega

/-- Byte strings of different lengths are encoded differently. -/
private theorem bech32Encode_length {a b encoded : Bytes} (encodedA : bech32Encode a = .ok (.success, encoded))
    (encodedB : bech32Encode b = .ok (.success, encoded)) : blocks 5 (8 * a.length) = blocks 5 (8 * b.length) := by
  rw [bech32Encode_eq] at encodedA encodedB
  split_ifs at encodedA encodedB
  have same := (Prod.mk.inj (Except.ok.inj (encodedA.trans encodedB.symm))).2
  have lengths := congrArg List.length same
  rw [bech32Text_length, bech32Text_length, fiveBitValues_length, fiveBitValues_length] at lengths
  omega

/-- A prefix makes the array one byte longer than what is written to it. -/
private theorem not_agreesOnText_prefixed {digits bytes : Bytes} (read : unhex? digits = some bytes) :
    ¬AgreesOnText (ascii "0x" ++ digits) := by
  intro agrees
  have length := unhex?_length read
  have size : (ascii "0x" ++ digits).length / 2 = bytes.length + 1 := by
    rw [List.length_append, length]
    change (2 + 2 * bytes.length) / 2 = _
    omega
  have denotes : HexTextOf (ascii "0x" ++ digits) bytes := .inr ⟨digits, rfl, read⟩
  obtain ⟨encoded, plain, entry⟩ := agrees.encodes bytes denotes (fun _ => 0) []
  rw [bech32EncodeHexString_eq denotes (by omega)] at entry
  obtain ⟨⟨ret, other⟩, longer, same⟩ := bind_eq_ok.mp entry
  obtain rfl : other = encoded := (Prod.mk.inj (Except.ok.inj same)).2
  have success : ret = .success := by
    rw [bech32Encode_eq] at longer
    split_ifs at longer
    exact (Prod.mk.inj (Except.ok.inj longer)).1.symm
  rw [success] at longer
  have blocksEq := bech32Encode_length plain longer
  rw [List.length_append, List.length_drop, List.length_map, List.length_range, size, blocks, blocks] at blocksEq
  omega

/-- The entry point for text agrees with the one for bytes exactly on an even number of hexadecimal
characters without prefix whose groups of five bits an `int` counts. -/
theorem bech32EncodeHexString_agrees_iff (text : Bytes) :
    AgreesOnText text ↔
      text.length % 2 = 0 ∧ (∀ c ∈ text, isHexDigit c = true) ∧ 8 * (text.length / 2) / 5 < 2 ^ 31 := by
  rw [← and_assoc]
  have digits : (text.length % 2 = 0 ∧ ∀ c ∈ text, isHexDigit c = true) ↔ ∃ bytes, unhex? text = some bytes := by
    rw [← Option.isSome_iff_exists]
    exact (unhex?_isSome_iff text).symm
  rw [digits]
  constructor
  · intro agrees
    by_cases none : ∀ bytes, ¬HexTextOf text bytes
    · obtain ⟨ret, failed, returned⟩ := agrees.refuses none (fun _ => 0) []
      obtain ⟨bytes, -, returned⟩ := bind_eq_ok.mp returned
      obtain ⟨encoded, -, same⟩ := bind_eq_ok.mp returned
      exact absurd (Prod.mk.inj (Except.ok.inj same)).1.symm failed
    · simp only [not_forall, not_not] at none
      obtain ⟨bytes, denotes⟩ := none
      rcases denotes with read | ⟨digits, rfl, read⟩
      · have length := unhex?_length read
        obtain ⟨encoded, plain, -⟩ := agrees.encodes bytes (.inl read) (fun _ => 0) []
        rw [bech32Encode_eq] at plain
        split_ifs at plain with counted
        exact ⟨⟨bytes, read⟩, by rwa [length, Nat.mul_div_cancel_left _ (by omega)]⟩
      · exact absurd agrees (not_agreesOnText_prefixed read)
  · rintro ⟨⟨bytes, read⟩, counted⟩
    have length := unhex?_length read
    have size : text.length / 2 = bytes.length := by omega
    refine ⟨?_, fun none => absurd (.inl read) (none bytes)⟩
    intro other denotes memory encodedData
    obtain rfl : bytes = other := by
      have first := hexTextOf_iff.mp (.inl read)
      rw [hexTextOf_iff.mp denotes] at first
      exact (Option.some.inj first).symm
    have encoded := bech32Encode_eq bytes
    rw [if_pos (by rwa [← size])] at encoded
    refine ⟨_, encoded, ?_⟩
    rw [bech32EncodeHexString_eq denotes size.ge, size, List.drop_of_length_le (by simp), List.append_nil, encoded]
    rfl

/-- For `0xab` a second byte is encoded that was never written, and text without digits is a success. -/
theorem prefixedText_not_agrees :
    bech32EncodeHexString (fun _ => 7) (ascii "0xab") [] = bech32Encode [0xab, 7] ∧
      bech32EncodeHexString (fun _ => 7) (ascii "--") [] = bech32Encode [7] ∧
      ¬AgreesOnText (ascii "0xab") ∧ ¬AgreesOnText (ascii "--") := by
  have unread : bech32EncodeHexString (fun _ => 7) (ascii "--") [] = bech32Encode [7] := by decide +kernel
  refine ⟨by decide +kernel, unread, not_agreesOnText_prefixed (show unhex? (ascii "ab") = some [0xab] by decide), ?_⟩
  intro agrees
  have none : ∀ bytes, ¬HexTextOf (ascii "--") bytes := by
    intro bytes denotes
    have read := hexTextOf_iff.mp denotes
    rw [show unhex? (Signer.skipPrefix (ascii "--")) = none by decide] at read
    simp at read
  obtain ⟨ret, failed, returned⟩ := agrees.refuses none (fun _ => 7) []
  rw [unread, bech32Encode_eq, if_pos (by decide)] at returned
  exact failed (Prod.mk.inj (Except.ok.inj returned)).1.symm

/-! ## Printing and reading -/

/-- A decimal digit or a lower-case letter up to `f`. -/
def isLowerHexDigit (c : UInt8) : Bool := (48 ≤ c && c ≤ 57) || (97 ≤ c && c ≤ 102)

/-- Call data of these bytes arrives in the data field of an execution that is given its text. -/
def CarriesCallData (bytes : Bytes) : Prop :=
  ∀ (keccak_256 : Keccak) (contract : Contract) (functionName : Bytes) (params : ParameterValuesDictionary)
    (calls : List Cells) (out : Cells), contract.named functionName ≠ [] →
    CallsOf keccak_256 params (contract.named functionName) calls → calls.flatten = cells bytes →
    ∃ text, contract.generateCallData keccak_256 functionName params out = .ok (.success, cells text) ∧
      ∀ execution : ActionCoreExecution, execution.execution.data.text = text →
        executionData execution.execution = .ok (bytes ++ [0]) ∧
          ∀ maxOutSize < 2 ^ 31, (execution.message bytes).size ≤ maxOutSize →
            ∃ result encoded, protobufEncodeExecution execution maxOutSize = .ok result ∧
              countedBytes result = .ok encoded ∧ ActionCore.decode? encoded = some (execution.message bytes)

/-- Both printers write one text of the bytes, and the reader returns them. -/
structure PrintersAgree (bytes : Bytes) : Prop where
  prints : ∀ strSize, 2 * bytes.length ≤ strSize → ∃ text,
    Signer.hex2str bytes strSize = .ok (.success, text) ∧ vectorToHexString (cells bytes) = .ok (cells text) ∧
      text.length = 2 * bytes.length ∧ (∀ c ∈ text, isLowerHexDigit c = true) ∧ ¬ascii "0x" <+: text ∧
      Signer.str2hex text bytes.length = (.success, bytes)
  carries : CarriesCallData bytes

private theorem hex_lower (bytes : Bytes) : ∀ c ∈ hex bytes, isLowerHexDigit c = true := by
  have all : ∀ nibble : Fin 16, isLowerHexDigit (hexChar nibble.val) = true := by decide
  intro c member
  obtain ⟨byte, -, found⟩ := List.mem_flatMap.mp member
  have bound := byte.toNat_lt
  simp only [hexByte, List.mem_cons, List.not_mem_nil, or_false] at found
  rcases found with rfl | rfl
  · exact all ⟨byte.toNat / 16, by omega⟩
  · exact all ⟨byte.toNat % 16, by omega⟩

/-- A text of digits has no prefix. -/
private theorem hex_not_prefixed (bytes : Bytes) : ¬ascii "0x" <+: hex bytes := by
  rintro ⟨rest, same⟩
  have marked : isLowerHexDigit 120 = true := by
    apply hex_lower bytes
    rw [← same]
    exact List.mem_append_left _ (by decide)
  exact absurd marked (by decide)

theorem carriesCallData {bytes : Bytes} (counted : bytes.length < 2 ^ 31) : CarriesCallData bytes := by
  intro keccak_256 contract functionName params calls out known encodes produced
  refine ⟨hex bytes, ?_, ?_⟩
  · rw [generateCallData_callsOf encodes (by rwa [produced, cells_length]), if_neg known, produced, hexText_cells]
  · intro execution text
    have read : unhex? execution.execution.data.text = some bytes := by
      rw [text]
      exact unhex?_hex bytes
    have length := unhex?_length read
    have count : execution.execution.data.text.length / 2 = bytes.length := by omega
    refine ⟨?_, ?_⟩
    · rw [executionData, count, Signer.str2hex_hex read (le_refl _), overwrite, if_pos (by simp)]
      simp
    · intro maxOutSize int fits
      have taken := Execution.bytes_of_hex read
      have addressable := bytes_addressable execution.execution
      rw [taken] at addressable
      rw [← taken] at fits
      obtain ⟨result, encoded, writes⟩ := protobufEncodeExecution_writes_all execution fits
      rw [taken] at writes
      exact ⟨result, _, encoded, countedBytes_of_writes int writes, (decode?_execution execution addressable).1⟩

/-- The printers agree and the reader inverts them exactly on fewer than 2³⁰ bytes. -/
theorem printersAgree_iff (bytes : Bytes) : PrintersAgree bytes ↔ bytes.length < 2 ^ 30 := by
  constructor
  · intro agree
    obtain ⟨text, printed, -⟩ := agree.prints (2 * bytes.length) (le_refl _)
    rw [Signer.hex2str_eq bytes (by omega)] at printed
    split_ifs at printed with counted
    omega
  · intro counted
    have read := unhex?_hex bytes
    refine ⟨?_, carriesCallData (by omega)⟩
    intro strSize room
    have sibling : vectorToHexString (cells bytes) = .ok (cells (hex bytes)) := by
      rw [vectorToHexString_of_lt (by rw [cells_length]; omega), hexText_cells]
    refine ⟨hex bytes, ?_, sibling, unhex?_length read, hex_lower bytes, hex_not_prefixed bytes,
      Signer.str2hex_hex read (le_refl _)⟩
    rw [Signer.hex2str_eq bytes (by omega), if_pos (by omega)]

/-- The position in the text of 2³⁰ bytes runs out of its range. -/
theorem longBytes_not_printed :
    Signer.hex2str (List.replicate (2 ^ 30) 0) (2 ^ 31) = .error .intOverflow ∧
      ¬PrintersAgree (List.replicate (2 ^ 30) 0) := by
  have room : (List.replicate (2 ^ 30) (0 : UInt8)).length * 2 = 2 ^ 31 := by
    rw [List.length_replicate]
    norm_num
  have overflows : Signer.hex2str (List.replicate (2 ^ 30) 0) (2 ^ 31) = .error .intOverflow := by
    rw [Signer.hex2str_eq _ room.le, room, if_neg (lt_irrefl _)]
  refine ⟨overflows, ?_⟩
  intro agree
  obtain ⟨text, printed, -⟩ := agree.prints (2 ^ 31) (by omega)
  rw [overflows] at printed
  simp at printed

end Iotex
