import Iotex.Lib.Regroup
import Iotex.Proofs.Checksums

/-! # Bech32 text is read back

The decoder on the encoder's text: the separator is the last `1`, since no value is written as one,
every character stands for its value, and the checksum verifies. The values the library encodes are
the bits of the bytes in groups of five.
-/

namespace Iotex

namespace Bech32

/-- The character of a value below 32. -/
def charOf (value : UInt8) : UInt8 := charset.getD value.toNat 0

private theorem charset_value {value : UInt8} (small : value.toNat < 32) :
    charsetAt value = .ok (charOf value) ∧ charsetRev? (charOf value) = some value ∧ charOf value ≠ 49 ∧
      33 ≤ charOf value ∧ charOf value ≤ 126 ∧ isUpper (charOf value) = false := by
  have all : ∀ n : Fin 32, charsetAt (UInt8.ofNat n.val) = .ok (charOf (UInt8.ofNat n.val)) ∧
      charsetRev? (charOf (UInt8.ofNat n.val)) = some (UInt8.ofNat n.val) ∧ charOf (UInt8.ofNat n.val) ≠ 49 ∧
      33 ≤ charOf (UInt8.ofNat n.val) ∧ charOf (UInt8.ofNat n.val) ≤ 126 ∧
      isUpper (charOf (UInt8.ofNat n.val)) = false := by
    decide
  have each := all ⟨value.toNat, small⟩
  rwa [UInt8.ofNat_toNat] at each

theorem mapM_charsetAt {values : Bytes} (small : ∀ value ∈ values, value.toNat < 32) :
    values.mapM charsetAt = .ok (values.map charOf) := by
  induction values with
  | nil => rfl
  | cons value rest ih =>
    have first := (charset_value (small value List.mem_cons_self)).1
    rw [List.mapM_cons, first, ok_bind, ih fun other member => small other (List.mem_cons_of_mem _ member)]
    rfl

theorem mapM_charsetRev? {values : Bytes} (small : ∀ value ∈ values, value.toNat < 32) :
    (values.map charOf).mapM charsetRev? = some values := by
  induction values with
  | nil => rfl
  | cons value rest ih =>
    have first := (charset_value (small value List.mem_cons_self)).2.1
    have others := ih fun other member => small other (List.mem_cons_of_mem _ member)
    rw [List.map_cons, List.mapM_cons, first, others]
    rfl

/-- The last occurrence is the one that no other follows. -/
theorem rfind_last {front behind : Bytes} {c : UInt8} (absent : c ∉ behind) :
    rfind (front ++ [c] ++ behind) c = some front.length := by
  have skipped : behind.reverse.findIdx? (· == c) = none := by
    rw [List.findIdx?_eq_none_iff]
    intro other member
    have differ : other ≠ c := by
      rintro rfl
      exact absent (List.mem_reverse.mp member)
    simpa using differ
  have found : ([c].reverse ++ front.reverse).findIdx? (· == c) = some 0 := by
    simp [List.findIdx?_cons]
  rw [rfind, List.idxOf?, List.reverse_append, List.reverse_append, List.findIdx?_append, skipped, found]
  simp only [Option.map_some, Option.none_or, List.length_append, List.length_reverse, List.length_singleton]
  congr 1
  omega

theorem expandHRP_small (hrp : Bytes) : ∀ value ∈ expandHRP hrp, value.toNat < 32 := by
  have all : ∀ n : Fin 256, (UInt8.ofNat n.val >>> 5).toNat < 32 ∧ (UInt8.ofNat n.val &&& 0x1f).toNat < 32 := by
    decide +kernel
  intro value member
  simp only [expandHRP, List.mem_append, List.mem_map, List.mem_singleton] at member
  rcases member with (⟨c, -, rfl⟩ | rfl) | ⟨c, -, rfl⟩
  · have each := (all ⟨c.toNat, c.toNat_lt⟩).1
    rwa [UInt8.ofNat_toNat] at each
  · decide
  · have each := (all ⟨c.toNat, c.toNat_lt⟩).2
    rwa [UInt8.ofNat_toNat] at each

theorem checksumValues_small (mod : UInt32) : ∀ value ∈ checksumValues mod, value.toNat < 32 := by
  intro value member
  obtain ⟨i, -, rfl⟩ := List.mem_map.mp member
  rw [UInt32.toNat_toUInt8, UInt32.toNat_and]
  apply (Nat.mod_le _ _).trans_lt
  exact Nat.and_le_right.trans_lt (by decide)

theorem createChecksum_length (encoding : Encoding) (hrp values : Bytes) :
    (createChecksum encoding hrp values).length = 6 := by
  rw [createChecksum, checksumValues, List.length_map, List.length_range]

/-- The checksum verifies as the encoding it was made for. -/
theorem verifyChecksum_createChecksum {encoding : Encoding} (known : encoding ≠ .invalid) (hrp : Bytes)
    {values : Bytes} (small : ∀ value ∈ values, value.toNat < 32) :
    verifyChecksum hrp (values ++ createChecksum encoding hrp values) = encoding := by
  have all : ∀ value ∈ expandHRP hrp ++ values, value.toNat < 32 := by
    intro value member
    rcases List.mem_append.mp member with member | member
    · exact expandHRP_small hrp value member
    · exact small value member
  rw [verifyChecksum, ← List.append_assoc, polyMod_createChecksum encoding all]
  cases encoding with
  | invalid => exact absurd rfl known
  | bech32 => rfl
  | bech32m => rfl

/-- A character of a human-readable part: printable and not an upper-case letter. -/
def PrefixChar (c : UInt8) : Prop := 33 ≤ c ∧ c ≤ 126 ∧ isUpper c = false

/-- The encoder's text. -/
def text (encoding : Encoding) (hrp values : Bytes) : Bytes :=
  hrp ++ [49] ++ (values ++ createChecksum encoding hrp values).map charOf

section

variable {encoding : Encoding} {hrp values : Bytes} (small : ∀ value ∈ values, value.toNat < 32)
include small

private theorem combined_small : ∀ value ∈ values ++ createChecksum encoding hrp values, value.toNat < 32 := by
  intro value member
  rcases List.mem_append.mp member with member | member
  · exact small value member
  · exact checksumValues_small _ value member

theorem encode_eq : encode encoding hrp values = .ok (text encoding hrp values) := by
  rw [encode, mapM_charsetAt (combined_small small)]
  rfl

theorem text_prefixChar (printable : ∀ c ∈ hrp, PrefixChar c) : ∀ c ∈ text encoding hrp values, PrefixChar c := by
  intro c member
  rw [text, List.mem_append, List.mem_append, List.mem_singleton] at member
  rcases member with (member | rfl) | member
  · exact printable c member
  · exact ⟨by decide, by decide, by decide⟩
  · obtain ⟨value, found, rfl⟩ := List.mem_map.mp member
    exact (charset_value (combined_small small value found)).2.2.2

/-- The decoder reads back what the encoder was given. -/
theorem decode_text (known : encoding ≠ .invalid) (nonempty : hrp ≠ []) (printable : ∀ c ∈ hrp, PrefixChar c)
    (short : hrp.length + values.length + 7 ≤ 90) : decode (text encoding hrp values) = ⟨encoding, hrp, values⟩ := by
  have each : ∀ c ∈ text encoding hrp values, PrefixChar c := text_prefixChar small printable
  have size : (text encoding hrp values).length = hrp.length + values.length + 7 := by
    simp only [text, List.length_append, List.length_map, List.length_singleton, createChecksum_length]
    omega
  have allowed : (text encoding hrp values).any (fun c => !isLower c && !isUpper c && (c < 33 || 126 < c)) = false := by
    rw [List.any_eq_false]
    intro c member
    obtain ⟨low, high, -⟩ := each c member
    simp [UInt8.not_lt.mpr low, UInt8.not_lt.mpr high]
  have noUpper : (text encoding hrp values).any isUpper = false := by
    rw [List.any_eq_false]
    intro c member
    simp [(each c member).2.2]
  have separator : rfind (text encoding hrp values) 49 = some hrp.length := by
    apply rfind_last
    rintro member
    obtain ⟨value, found, same⟩ := List.mem_map.mp member
    exact (charset_value (combined_small small value found)).2.2.1 same
  have positive := List.length_pos_iff.mpr nonempty
  have prefixed : (text encoding hrp values).take hrp.length = hrp := by
    rw [text, List.append_assoc, List.take_left]
  have rest : (text encoding hrp values).drop (hrp.length + 1) =
      (values ++ createChecksum encoding hrp values).map charOf := by
    rw [text, List.drop_left' (by simp)]
  have lowered : hrp.map lowerCase = hrp := by
    have fixed : ∀ c ∈ hrp, lowerCase c = c := by
      intro c member
      have lower := (printable c member).2.2
      apply if_neg
      simpa [isUpper] using lower
    exact (List.map_congr_left fixed).trans hrp.map_id'
  have kept : (values ++ createChecksum encoding hrp values).take
      ((values ++ createChecksum encoding hrp values).length - 6) = values := by
    rw [List.length_append, createChecksum_length, Nat.add_sub_cancel, List.take_left]
  simp only [decode, allowed, noUpper, separator, size, rest, prefixed, mapM_charsetRev? (combined_small small),
    lowered, verifyChecksum_createChecksum known hrp small, kept, known]
  rw [if_neg Bool.false_ne_true, if_neg (by simp), if_neg (by omega), if_neg not_false]

end

end Bech32

/-! ## Groups of five bits -/

namespace Encoder

/-- A bit as a byte. -/
private def bitByte (bit : Bool) : UInt8 := if bit then 1 else 0

private theorem byteBits_eq (byte : UInt8) : byteBits byte = (bitsOf 8 byte.toNat).map bitByte := by
  have all : ∀ n : Fin 256, byteBits (UInt8.ofNat n.val) = (bitsOf 8 n.val).map bitByte := by
    decide +kernel
  have each := all ⟨byte.toNat, byte.toNat_lt⟩
  rwa [UInt8.ofNat_toNat] at each

private theorem group_eq (b4 b3 b2 b1 b0 : Bool) :
    bitByte b4 <<< 4 ||| bitByte b3 <<< 3 ||| bitByte b2 <<< 2 ||| bitByte b1 <<< 1 ||| bitByte b0 =
      UInt8.ofNat (ofBits [b4, b3, b2, b1, b0]) := by
  revert b4 b3 b2 b1 b0
  decide

private theorem groupsOfFive_eq (bits : List Bool) :
    groupsOfFive (bits.map bitByte) = (groups 5 (bits.length / 5) bits).map UInt8.ofNat := by
  match bits with
  | b4 :: b3 :: b2 :: b1 :: b0 :: rest =>
    have count : (b4 :: b3 :: b2 :: b1 :: b0 :: rest).length / 5 = rest.length / 5 + 1 := by
      simp only [List.length_cons]
      omega
    have others := groupsOfFive_eq rest
    rw [count, groups]
    simp only [List.map_cons, groupsOfFive, group_eq, others, List.take_succ_cons, List.take_zero, List.drop_succ_cons,
      List.drop_zero]
  | [] | [_] | [_, _] | [_, _, _] | [_, _, _, _] => simp [groupsOfFive, groups]

private theorem flatMap_byteBits (input : Bytes) :
    input.flatMap byteBits = ((input.map UInt8.toNat).flatMap (bitsOf 8)).map bitByte := by
  rw [List.map_flatMap, List.flatMap_map]
  congr 1
  funext byte
  exact byteBits_eq byte

/-- Groups of five bits fit a byte. -/
theorem regroup_small (input : Bytes) : ∀ value ∈ regroup 8 5 (input.map UInt8.toNat), value < 256 := by
  intro value member
  exact (regroup_lt member).trans (by decide)

/-- The complete groups of the bits of bytes, and a zero if bits are left over. -/
def fiveBitValues (input : Bytes) : Bytes :=
  (regroup 8 5 (input.map UInt8.toNat)).map UInt8.ofNat ++ if 8 * input.length % 5 = 0 then [] else [0]

/-- The complete groups are regrouped, as long as an `int` counts them. -/
theorem bech32ConvertBytesTo5Bit_eq (input : Bytes) :
    bech32ConvertBytesTo5Bit input =
      if 8 * input.length / 5 < 2 ^ 31 then .ok (fiveBitValues input) else .error .intOverflow := by
  have size : ((input.map UInt8.toNat).flatMap (bitsOf 8)).length = 8 * input.length := by
    rw [flatMap_bitsOf_length, List.length_map]
  rw [bech32ConvertBytesTo5Bit, flatMap_byteBits]
  simp only [groupsOfFive_eq, List.length_map, size, ne_eq, ite_not]
  obtain counted | counted := Nat.lt_or_ge (8 * input.length / 5) (2 ^ 31)
  · rw [if_pos counted, countInt_of_lt (by omega), countInt_of_lt counted, ok_bind, ok_bind, pure_eq_ok, fiveBitValues,
      regroup, List.length_map]
  · rw [if_neg (Nat.not_lt.mpr counted), countInt_of_le counted]
    obtain bytes | bytes := Nat.lt_or_ge input.length (2 ^ 31)
    · rw [countInt_of_lt bytes, ok_bind, error_bind]
    · rw [countInt_of_le bytes, error_bind]

theorem fiveBitValues_length (input : Bytes) : (fiveBitValues input).length = blocks 5 (8 * input.length) := by
  rw [fiveBitValues, List.length_append, List.length_map, regroup_length, List.length_map, blocks]
  split_ifs with whole
  · rw [List.length_nil]
    omega
  · rw [List.length_singleton]
    omega

theorem fiveBitValues_small (input : Bytes) : ∀ value ∈ fiveBitValues input, value.toNat < 32 := by
  intro value member
  rw [fiveBitValues, List.mem_append] at member
  rcases member with member | member
  · obtain ⟨number, found, rfl⟩ := List.mem_map.mp member
    rw [UInt8.toNat_ofNat_of_lt' ((regroup_lt found).trans (by decide))]
    exact regroup_lt found
  · split_ifs at member with whole
    · simp at member
    · obtain rfl := List.mem_singleton.mp member
      decide

theorem ioPrefix : ∀ c ∈ ascii "io", Bech32.PrefixChar c := by
  intro c member
  have all : c = 105 ∨ c = 111 := by simpa [ascii] using member
  rcases all with rfl | rfl <;> exact ⟨by decide, by decide, by decide⟩

/-- The library's encoder writes the text of the regrouped values. -/
theorem bech32Encode_eq (bytes : Bytes) :
    bech32Encode bytes =
      if 8 * bytes.length / 5 < 2 ^ 31 then .ok (.success, Bech32.text .bech32 (ascii "io") (fiveBitValues bytes))
      else .error .intOverflow := by
  have noNul : (0 : UInt8) ∉ Bech32.text .bech32 (ascii "io") (fiveBitValues bytes) := by
    intro member
    exact absurd (Bech32.text_prefixChar (fiveBitValues_small bytes) ioPrefix 0 member).1 (by decide)
  rw [bech32Encode, bech32ConvertBytesTo5Bit_eq]
  split_ifs with counted
  · rw [ok_bind, Bech32.encode_eq (fiveBitValues_small bytes), ok_bind, cString_of_noNul noNul, pure_eq_ok]
  · rfl

end Encoder

end Iotex
