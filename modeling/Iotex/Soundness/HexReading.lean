import Iotex.Proofs.ActionCores

/-! # Reading hexadecimal text

`str2hex` checks the size against half the number of digits, and its digit values go on behind `f`
through the alphabet. It therefore also accepts letters that are no digits and a last half byte, and
stores the latter behind the checked size.
-/

namespace Iotex

open Signer

/-- Digits of either case for the bytes, behind an optional `0x`. -/
def HexTextOf (text bytes : Bytes) : Prop :=
  unhex? text = some bytes ∨ ∃ digits, text = ascii "0x" ++ digits ∧ unhex? digits = some bytes

/-- The characters of a C string behind an optional `0x`. -/
def behindPrefix (str : Bytes) : Bytes := skipPrefix (cString str)

def isLetterOrDigit (c : UInt8) : Bool := (48 ≤ c && c ≤ 57) || (97 ≤ c && c ≤ 122) || (65 ≤ c && c ≤ 90)

def isHexDigit (c : UInt8) : Bool := (hexVal? c).isSome

private theorem drop_marked (digits : Bytes) : (ascii "0x" ++ digits).drop 2 = digits := rfl

/-- What is skipped is the prefix of a text that has one. -/
theorem hexTextOf_iff {text bytes : Bytes} : HexTextOf text bytes ↔ unhex? (skipPrefix text) = some bytes := by
  constructor
  · rintro (read | ⟨digits, rfl, read⟩)
    · rwa [skipPrefix_hex read]
    · rwa [skipPrefix, if_pos (List.prefix_append _ _), drop_marked]
  · intro read
    rw [skipPrefix] at read
    split_ifs at read with marked
    · obtain ⟨digits, rfl⟩ := marked
      rw [drop_marked] at read
      exact .inr ⟨digits, rfl, read⟩
    · exact .inl read

/-! ## The loop -/

theorem value_isSome (c : UInt8) : (value c).isSome = isLetterOrDigit c := by
  rw [value, isLetterOrDigit]
  split_ifs with digit lower upper
  · simp [digit]
  · simp [lower]
  · simp [upper]
  · simp only [Option.isSome_none]
    simp_all

/-- Letters and digits are accepted, and an unpaired one is stored too. -/
theorem str2hexLoop_accepts {digits : Bytes} (all : ∀ c ∈ digits, isLetterOrDigit c = true) :
    (str2hexLoop digits).1 = .success ∧ (str2hexLoop digits).2.length = (digits.length + 1) / 2 := by
  induction digits using str2hexLoop.induct with
  | case1 => exact ⟨rfl, rfl⟩
  | case2 c invalid =>
    have known := value_isSome c
    rw [invalid, all c List.mem_cons_self] at known
    simp at known
  | case3 c high valid =>
    simp [str2hexLoop, valid]
  | case4 c d rest high low second first ret written loop ih =>
    have others := ih fun other member => all other (List.mem_cons_of_mem _ (List.mem_cons_of_mem _ member))
    rw [str2hexLoop, first, second]
    refine ⟨others.1, ?_⟩
    simp only [List.length_cons, others.2]
    omega
  | case5 c d rest invalid =>
    have knownC := value_isSome c
    have knownD := value_isSome d
    rw [all c List.mem_cons_self] at knownC
    rw [all d (List.mem_cons_of_mem _ List.mem_cons_self)] at knownD
    obtain ⟨high, first⟩ := Option.isSome_iff_exists.mp knownC
    obtain ⟨low, second⟩ := Option.isSome_iff_exists.mp knownD
    exact absurd second (invalid high low first)

/-- Any other character is refused, and only whole bytes were stored in front of it. -/
theorem str2hexLoop_refuses {digits : Bytes} {c : UInt8} (member : c ∈ digits) (other : isLetterOrDigit c = false) :
    (str2hexLoop digits).1 = .errorBadParameter ∧ (str2hexLoop digits).2.length ≤ digits.length / 2 := by
  have unread : value c = none := by
    rw [← Option.not_isSome_iff_eq_none, value_isSome, other]
    exact Bool.false_ne_true
  induction digits using str2hexLoop.induct with
  | case1 => simp at member
  | case2 d invalid =>
    rw [str2hexLoop, invalid]
    exact ⟨rfl, Nat.zero_le _⟩
  | case3 d high valid =>
    obtain rfl := List.mem_singleton.mp member
    rw [unread] at valid
    simp at valid
  | case4 d e rest high low second first ret written loop ih =>
    have later : c ∈ rest := by
      rcases List.mem_cons.mp member with rfl | member
      · rw [unread] at first
        simp at first
      · rcases List.mem_cons.mp member with rfl | member
        · rw [unread] at second
          simp at second
        · exact member
    have others := ih later
    rw [str2hexLoop, first, second]
    refine ⟨others.1, ?_⟩
    simp only [List.length_cons]
    omega
  | case5 d e rest invalid =>
    rw [str2hexLoop]
    split
    · rename_i high low first second
      exact absurd second (invalid high low first)
    · exact ⟨rfl, Nat.zero_le _⟩

/-- The result and the number of stored bytes, by the characters behind the prefix. -/
theorem str2hex_cases (str : Bytes) (size : ℕ) :
    (size < (behindPrefix str).length / 2 ∧ str2hex str size = (.errorBadParameter, [])) ∨
    ((behindPrefix str).length / 2 ≤ size ∧ (∀ c ∈ behindPrefix str, isLetterOrDigit c = true) ∧
      (str2hex str size).1 = .success ∧ (str2hex str size).2.length = ((behindPrefix str).length + 1) / 2) ∨
    ((behindPrefix str).length / 2 ≤ size ∧ (∃ c ∈ behindPrefix str, isLetterOrDigit c = false) ∧
      (str2hex str size).1 = .errorBadParameter ∧ (str2hex str size).2.length ≤ (behindPrefix str).length / 2) := by
  rw [str2hex, ← behindPrefix]
  split_ifs with small
  · exact .inl ⟨small, rfl⟩
  · by_cases all : ∀ c ∈ behindPrefix str, isLetterOrDigit c = true
    · exact .inr (.inl ⟨by omega, all, str2hexLoop_accepts all⟩)
    · simp only [not_forall, Bool.not_eq_true] at all
      obtain ⟨c, member, other⟩ := all
      exact .inr (.inr ⟨by omega, ⟨c, member, other⟩, str2hexLoop_refuses member other⟩)

/-! ## What is accepted -/

/-- Exactly the hexadecimal strings that fit are accepted, as the bytes they denote, and everything else
is a bad parameter. -/
structure ReadsHexOnly (str : Bytes) (size : ℕ) : Prop where
  accepts : (str2hex str size).1 = .success ↔ ∃ bytes, HexTextOf (cString str) bytes ∧ bytes.length ≤ size
  writes : ∀ bytes, HexTextOf (cString str) bytes → bytes.length ≤ size → (str2hex str size).2 = bytes
  refuses : (str2hex str size).1 ≠ .success → (str2hex str size).1 = .errorBadParameter

/-- A hexadecimal string that fits is read. -/
theorem str2hex_of_hexTextOf {str bytes : Bytes} {size : ℕ} (denotes : HexTextOf (cString str) bytes)
    (room : bytes.length ≤ size) : str2hex str size = (.success, bytes) := by
  have read := hexTextOf_iff.mp denotes
  have length := unhex?_length read
  rw [str2hex]
  simp only [show ¬size < (skipPrefix (cString str)).length / 2 by omega, ↓reduceIte, str2hexLoop_hex read]

/-- The reader is exact unless it is given letters and digits that fit without being an even number of
hexadecimal digits. -/
theorem str2hex_readsHexOnly_iff (str : Bytes) (size : ℕ) :
    ReadsHexOnly str size ↔
      ((behindPrefix str).length / 2 ≤ size → (∀ c ∈ behindPrefix str, isLetterOrDigit c = true) →
        (behindPrefix str).length % 2 = 0 ∧ ∀ c ∈ behindPrefix str, isHexDigit c = true) := by
  have digits : ((behindPrefix str).length % 2 = 0 ∧ ∀ c ∈ behindPrefix str, isHexDigit c = true) ↔
      ∃ bytes, HexTextOf (cString str) bytes := by
    simp only [hexTextOf_iff, ← Option.isSome_iff_exists]
    exact (unhex?_isSome_iff (behindPrefix str)).symm
  have fits {bytes : Bytes} (denotes : HexTextOf (cString str) bytes) :
      (behindPrefix str).length = 2 * bytes.length := unhex?_length (hexTextOf_iff.mp denotes)
  rw [digits]
  constructor
  · intro exact small all
    rcases str2hex_cases str size with ⟨large, -⟩ | ⟨-, -, accepted, -⟩ | ⟨-, ⟨c, member, other⟩, -⟩
    · omega
    · obtain ⟨bytes, denotes, -⟩ := exact.accepts.mp accepted
      exact ⟨bytes, denotes⟩
    · rw [all c member] at other
      simp at other
  · intro hexadecimal
    have written : ∀ bytes, HexTextOf (cString str) bytes → bytes.length ≤ size → (str2hex str size).2 = bytes := by
      intro bytes denotes room
      rw [str2hex_of_hexTextOf denotes room]
    have accepted : (∃ bytes, HexTextOf (cString str) bytes ∧ bytes.length ≤ size) →
        (str2hex str size).1 = .success := by
      rintro ⟨bytes, denotes, room⟩
      rw [str2hex_of_hexTextOf denotes room]
    rcases str2hex_cases str size with ⟨-, refused⟩ | ⟨small, all, success, -⟩ | ⟨-, -, refused, -⟩
    · refine ⟨⟨?_, accepted⟩, written, fun _ => by rw [refused]⟩
      rw [refused]
      simp
    · refine ⟨⟨fun _ => ?_, accepted⟩, written, fun failed => absurd success failed⟩
      obtain ⟨bytes, denotes⟩ := hexadecimal small all
      have length := fits denotes
      exact ⟨bytes, denotes, by omega⟩
    · refine ⟨⟨?_, accepted⟩, written, fun _ => refused⟩
      rw [refused]
      simp

/-- Two letters behind `f` are one byte. -/
theorem letters_accepted :
    str2hex (ascii "gg") 1 = (.success, [0x10]) ∧ ¬ReadsHexOnly (ascii "gg") 1 := by
  have read : str2hex (ascii "gg") 1 = (.success, [0x10]) := by decide
  refine ⟨read, ?_⟩
  intro exact
  obtain ⟨bytes, denotes, -⟩ := exact.accepts.mp (by rw [read])
  rw [hexTextOf_iff] at denotes
  exact absurd denotes (by simp [show skipPrefix (cString (ascii "gg")) = [103, 103] by decide, unhex?, hexVal?])

/-! ## Where bytes are stored -/

/-- Every index at which a byte is stored is below the size. -/
def StoresInside (str : Bytes) (size : ℕ) : Prop := ∀ index < (str2hex str size).2.length, index < size

/-- More bytes than the size are stored exactly when one unpaired letter or digit follows as many pairs
as the size allows. -/
theorem str2hex_inside_iff (str : Bytes) (size : ℕ) :
    (str2hex str size).2.length ≤ size ↔
      ¬((behindPrefix str).length = 2 * size + 1 ∧ ∀ c ∈ behindPrefix str, isLetterOrDigit c = true) := by
  rcases str2hex_cases str size with ⟨large, refused⟩ | ⟨small, all, -, stored⟩ | ⟨small, ⟨c, member, other⟩, -, stored⟩
  · apply iff_of_true
    · rw [refused]
      exact Nat.zero_le _
    · rintro ⟨length, -⟩
      omega
  · rw [stored]
    constructor
    · rintro bound ⟨length, -⟩
      omega
    · intro paired
      by_contra more
      exact paired ⟨by omega, all⟩
  · apply iff_of_true (stored.trans small)
    rintro ⟨-, all⟩
    rw [all c member] at other
    simp at other

/-- A byte is stored behind the size exactly when one unpaired letter or digit follows as many pairs as
the size allows. -/
theorem str2hex_storesInside_iff (str : Bytes) (size : ℕ) :
    StoresInside str size ↔
      ¬((behindPrefix str).length = 2 * size + 1 ∧ ∀ c ∈ behindPrefix str, isLetterOrDigit c = true) := by
  rw [← str2hex_inside_iff]
  constructor
  · intro all
    by_contra more
    have last := all size (by omega)
    omega
  · intro bound index stored
    omega

/-- A single digit is stored into an array without elements. -/
theorem halfByte_storedOutside : str2hex (ascii "a") 0 = (.success, [10]) ∧ ¬StoresInside (ascii "a") 0 := by
  have read : str2hex (ascii "a") 0 = (.success, [10]) := by decide
  refine ⟨read, ?_⟩
  intro inside
  exact absurd (inside 0 (by rw [read]; decide)) (by decide)

end Iotex
