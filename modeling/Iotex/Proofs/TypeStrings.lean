import Mathlib.Data.Nat.Digits.Lemmas
import Iotex.Spec.TypeNames

/-! # Parsing and printing of type names

The walk of the type parser over a type name: the keyword, the digits of a width, the array suffix.
The array-length loop advances its pointer and its index together, so it copies every other
character: one digit is read as it stands, more digits are misread or run off the string.
-/

namespace Iotex

open Spec

/-! ## Characters -/

theorem charAt_append (before : Bytes) (char : UInt8) (rest : Bytes) :
    charAt (before ++ char :: rest) before.length = .ok char := by
  rw [charAt, if_pos (by simp)]
  simp [List.getD_eq_getElem?_getD]

theorem charAt_beyond {text : Bytes} {index : ℕ} (beyond : text.length < index) :
    charAt text index = .error .outOfBounds := by
  rw [charAt, if_neg (by omega), if_neg (by omega)]

theorem charAt_eq_ok {text : Bytes} {index : ℕ} {char : UInt8} (read : charAt text index = .ok char) :
    index ≤ text.length := by
  by_contra beyond
  rw [charAt_beyond (by omega)] at read
  simp at read

private theorem digit_bounds {char : UInt8} (digit : isDigit char = true) :
    48 ≤ char.toNat ∧ char.toNat ≤ 57 := by
  simpa [isDigit] using digit

private theorem digit_ne {char other : UInt8} (digit : isDigit char = true)
    (outside : other.toNat < 48 ∨ 57 < other.toNat) :
    char ≠ other := by
  rintro rfl
  have := digit_bounds digit
  omega

/-! ## Widths -/

/-- The loop over the digits of a width stops at the array suffix or at the end of the string. -/
theorem copySize_eq (before : Bytes) {digits suffix : Bytes} (sizeBuf : Bytes) (left : ℕ)
    (each : ∀ char ∈ digits, isDigit char = true) (room : digits.length < left)
    (ends : suffix = [] ∧ digits ≠ [] ∨ suffix.head? = some 91) :
    copySize (before ++ (digits ++ suffix)) left before.length sizeBuf =
      .ok (some (before.length + digits.length, sizeBuf ++ digits)) := by
  induction digits generalizing before left sizeBuf with
  | nil =>
    obtain ⟨left, rfl⟩ : ∃ n, left = n + 1 := ⟨left - 1, by simp at room; omega⟩
    cases suffix with
    | nil => simp at ends
    | cons char rest =>
      obtain rfl : char = 91 := by simpa using ends
      rw [List.nil_append, copySize, charAt_append]
      simp
  | cons digit rest ih =>
    obtain ⟨left, rfl⟩ : ∃ n, left = n + 1 := ⟨left - 1, by simp at room; omega⟩
    have isDigit := each digit List.mem_cons_self
    have bounds := digit_bounds isDigit
    have bracket : digit ≠ 91 := digit_ne isDigit (by decide)
    have inRange : ¬(digit < 48 ∨ 57 < digit) := by
      rw [UInt8.lt_iff_toNat_lt, UInt8.lt_iff_toNat_lt]
      change ¬(digit.toNat < 48 ∨ 57 < digit.toNat)
      omega
    rw [List.cons_append, copySize, charAt_append]
    simp only [ok_bind, bracket, ↓reduceIte, inRange, pure_eq_ok, List.length_append, List.length_cons]
    by_cases last : rest = [] ∧ suffix = []
    · obtain ⟨rfl, rfl⟩ := last
      simp
    · have more : ¬before.length + 1 = before.length + ((rest ++ suffix).length + 1) := by
        rw [← List.append_eq_nil_iff] at last
        have := List.length_pos_iff.mpr last
        omega
      have tail := ih (before ++ [digit]) (sizeBuf ++ [digit]) left
        (fun char member => each char (List.mem_cons_of_mem _ member)) (by simpa using room) (by
          rcases ends with ⟨none, -⟩ | bracket
          · refine .inl ⟨none, fun empty => last ⟨empty, none⟩⟩
          · exact .inr bracket)
      rw [if_neg (by simpa using more)]
      rw [List.append_assoc, List.singleton_append, List.length_append, List.length_singleton, List.append_assoc,
        List.singleton_append] at tail
      rw [tail]
      simp only [Except.ok.injEq, Option.some.injEq, Prod.mk.injEq, and_true]
      omega

theorem outside_digits (char : UInt8) : (char < 48 ∨ 57 < char) ↔ isDigit char = false := by
  rw [UInt8.lt_iff_toNat_lt, UInt8.lt_iff_toNat_lt]
  change (char.toNat < 48 ∨ 57 < char.toNat) ↔ _
  simp only [isDigit, Bool.and_eq_false_iff, decide_eq_false_iff_not]
  omega

/-- The loop returns an error at a character that is neither digit nor bracket. -/
theorem copySize_none_iff (before text sizeBuf : Bytes) (left : ℕ) (more : text ≠ []) :
    copySize (before ++ text) left before.length sizeBuf = .ok none ↔
      ∃ digits char rest, text = digits ++ char :: rest ∧ digits.length < left ∧
        (∀ digit ∈ digits, isDigit digit = true) ∧ isDigit char = false ∧ char ≠ 91 := by
  induction left generalizing before text sizeBuf with
  | zero => simp [copySize]
  | succ left ih =>
    obtain ⟨char, text, rfl⟩ := List.exists_cons_of_ne_nil more
    rw [copySize, charAt_append, ok_bind]
    by_cases bracket : char = 91
    · subst bracket
      rw [if_pos rfl]
      apply iff_of_false (by simp)
      rintro ⟨_ | ⟨digit, digits⟩, other, rest, same, -, each, -, differ⟩
      · exact differ (List.cons.inj same).1.symm
      · obtain rfl := (List.cons.inj same).1
        exact absurd (each 91 List.mem_cons_self) (by decide)
    rw [if_neg bracket]
    by_cases digit : isDigit char = true
    · have inside : ¬(char < 48 ∨ 57 < char) := by
        rw [outside_digits, digit]
        decide
      rw [if_neg inside]
      have shift : before ++ char :: text = before ++ [char] ++ text := by simp
      have length : before.length + 1 = (before ++ [char]).length := by simp
      by_cases last : text = []
      · subst last
        rw [if_pos (by simp)]
        apply iff_of_false (by simp)
        rintro ⟨_ | ⟨first, digits⟩, other, rest, same, -, -, wrong, -⟩
        · rw [← (List.cons.inj same).1, digit] at wrong
          simp at wrong
        · simp at same
      · rw [if_neg (by have := List.length_pos_iff.mpr last; simp; omega), shift, length,
          ih (before ++ [char]) text (sizeBuf ++ [char]) last]
        constructor
        · rintro ⟨digits, other, rest, rfl, short, each, wrong⟩
          refine ⟨char :: digits, other, rest, rfl, by simpa using short, ?_, wrong⟩
          simpa [digit] using each
        · rintro ⟨_ | ⟨first, digits⟩, other, rest, same, short, each, wrong, differ⟩
          · rw [← (List.cons.inj same).1, digit] at wrong
            simp at wrong
          · obtain ⟨rfl, rfl⟩ := List.cons.inj same
            exact ⟨digits, other, rest, rfl, by simpa using short,
              fun d member => each d (List.mem_cons_of_mem _ member), wrong, differ⟩
    · have outside : char < 48 ∨ 57 < char := by
        rw [outside_digits]
        simpa using digit
      rw [if_pos outside]
      apply iff_of_true rfl
      exact ⟨[], char, text, rfl, by simp, by simp, by simpa using digit, bracket⟩

/-! ## Numbers in text -/

private theorem takeWhile_digits {digits rest : Bytes} (each : ∀ char ∈ digits, isDigit char = true)
    (stops : ∀ char ∈ rest.head?, isDigit char = false) : (digits ++ rest).takeWhile isDigit = digits := by
  rw [List.takeWhile_append_of_pos each]
  cases rest with
  | nil => simp
  | cons char rest => rw [List.takeWhile_cons_of_neg (by simpa using stops char), List.append_nil]

/-- The number at the start of a text, up to the first other character. -/
theorem atoi_digits (digits rest : Bytes) (each : ∀ char ∈ digits, isDigit char = true) (some : digits ≠ [])
    (stops : ∀ char ∈ rest.head?, isDigit char = false) (noNul : (0 : UInt8) ∉ rest)
    (bound : decimalValue digits < 2 ^ 31) : atoi (digits ++ rest) = .ok (decimalValue digits) := by
  have plain : cString (digits ++ rest) = digits ++ rest := by
    apply cString_of_noNul
    intro nul
    rcases List.mem_append.mp nul with member | member
    · exact absurd (each 0 member) (by decide)
    · exact noNul member
  obtain ⟨digit, digits, rfl⟩ := List.exists_cons_of_ne_nil some
  have isDigit := each digit List.mem_cons_self
  have bounds := digit_bounds isDigit
  have start : isSpaceChar digit = false := by
    rw [isSpaceChar, Bool.or_eq_false_iff]
    refine ⟨beq_false_of_ne (digit_ne isDigit (by decide)), ?_⟩
    simp only [Bool.and_eq_false_iff, decide_eq_false_iff_not]
    omega
  have minus : digit ≠ 45 := digit_ne isDigit (by decide)
  have plus : digit ≠ 43 := digit_ne isDigit (by decide)
  have read := takeWhile_digits each stops
  rw [atoi, plain, List.cons_append, List.dropWhile_cons_of_neg (by simp [start])]
  simp only [List.head?_cons, Option.some.injEq, minus, plus, or_self, ↓reduceIte]
  rw [← List.cons_append, read, if_pos (by omega)]

theorem atoi_cString (text : Bytes) : atoi (cString text) = atoi text := by
  rw [atoi, atoi, cString_of_noNul (cString_noNul text)]

/-- A text gives a number or one that no `int` can hold. -/
theorem atoi_cases (text : Bytes) : (∃ value, atoi text = .ok value) ∨ atoi text = .error .intOverflow := by
  simp only [atoi]
  split_ifs
  all_goals simp

/-- A number of at most three digits in the size buffer. -/
theorem atoiSizeBuf_decimal {value : ℕ} (small : value < 1000) : atoiSizeBuf (decimal value) = .ok (value : ℤ) := by
  have short := decimal_length_le value (show 1 ≤ 3 by omega) (by omega)
  have read := atoi_digits _ [] (isDigit_decimal value) (decimal_ne_nil value) (by simp) (by simp) (by
    rw [decimalValue_decimal]
    omega)
  rw [List.append_nil, decimalValue_decimal] at read
  rw [atoiSizeBuf, if_neg (by omega), read]

/-! ## Elementary types -/

namespace Spec.ElementaryType

/-- The enumerator that the parser gives a type. -/
def tag : ElementaryType → EthereumTypeName
  | uint _ => .uint
  | int _ => .int
  | address => .address
  | bool => .bool
  | string => .string
  | bytes => .bytesDynamic
  | bytesN _ => .bytesStatic

/-- The width that the parser reads, zero without digits, for the types that have one. -/
def parsedWidth : ElementaryType → Option ℕ
  | uint width | int width => some (width.elim 0 ByteWidth.bytes)
  | bytesN width => some width.bytes
  | _ => none

/-- The object behind the element type, when an array suffix or nothing is left to read. -/
def parsed (type : ElementaryType) (out : InputOutputAbi) : InputOutputAbi :=
  match type.parsedWidth with
  | some width =>
    { out with type := type.tag, sizeBytes := UInt32.ofNat width, arrayTypeSizeBytes := UInt32.ofNat width }
  | none => { out with type := type.tag }

theorem isDigit_digits (type : ElementaryType) : ∀ char ∈ type.digits, isDigit char = true := by
  rcases type with (_ | width) | (_ | width) | _ | _ | _ | _ | width <;>
    first | exact isDigit_decimal _ | simp [digits]

end Spec.ElementaryType

private theorem toUint32_width {width : ℕ} (bound : width ≤ 32) : toUint32 (width : ℤ) = UInt32.ofNat width := by
  rw [toUint32]
  congr 1
  omega

open ElementaryType in
/-- The parser of a type with a width, up to the suffix. -/
private theorem sized_eq {tag : EthereumTypeName} {keyword digits suffix : Bytes} (size width : ℕ)
    (out : InputOutputAbi)
    (named : tag.toText = .ok keyword) (tagged : tag = .uint ∨ tag = .int ∨ tag = .bytesStatic)
    (each : ∀ char ∈ digits, isDigit char = true) (short : digits.length ≤ 3)
    (ends : suffix = [] ∧ digits ≠ [] ∨ suffix.head? = some 91) (read : atoiSizeBuf digits = .ok (size : ℤ))
    (scaled : (if tag = .bytesStatic then size else size / 8) = width) (bound : width ≤ 32) :
    getSizeFromStringAndCheckIfArray (keyword ++ (digits ++ suffix)) { out with type := tag } =
      checkIfArray (keyword ++ (digits ++ suffix)) (keyword.length + digits.length)
        { out with type := tag, sizeBytes := UInt32.ofNat width, arrayTypeSizeBytes := UInt32.ofNat width } := by
  have more : ¬keyword.length = (keyword ++ (digits ++ suffix)).length := by
    have : digits ++ suffix ≠ [] := by
      rcases ends with ⟨-, some⟩ | bracket
      · simp [some]
      · rintro empty
        rw [(List.append_eq_nil_iff.mp empty).2] at bracket
        simp at bracket
    have := List.length_pos_iff.mpr this
    rw [List.length_append]
    omega
  have converted : toUint32 (if tag = .bytesStatic then (size : ℤ) else (size : ℤ) / 8) = UInt32.ofNat width := by
    rw [← toUint32_width bound, ← scaled]
    split_ifs <;> rfl
  have copied := copySize_eq keyword [] 4 each (by omega) ends
  rw [getSizeFromStringAndCheckIfArray, named, ok_bind]
  simp only [more, and_false, ↓reduceIte, tagged, copied, ok_bind, List.nil_append, read, converted]

/-- The parser of a type without a width, up to the suffix. -/
theorem unsized_eq {tag : EthereumTypeName} {keyword text : Bytes} (out : InputOutputAbi)
    (named : tag.toText = .ok keyword) (untagged : ¬(tag = .uint ∨ tag = .int ∨ tag = .bytesStatic)) :
    getSizeFromStringAndCheckIfArray text { out with type := tag } =
      checkIfArray text keyword.length { out with type := tag } := by
  rw [getSizeFromStringAndCheckIfArray, named, ok_bind]
  have plain : ¬(tag = .uint ∨ tag = .int) := fun both => untagged (both.elim .inl fun int => .inr (.inl int))
  simp only [plain, false_and, ↓reduceIte, untagged]

/-! ## The dispatch on the keyword -/

theorem getType_uint (rest : Bytes) (out : InputOutputAbi) : getTypeAndSizeFromString (ascii "uint" ++ rest) out =
    getSizeFromStringAndCheckIfArray (ascii "uint" ++ rest) { out with type := .uint } := rfl

theorem getType_int (rest : Bytes) (out : InputOutputAbi) : getTypeAndSizeFromString (ascii "int" ++ rest) out =
    getSizeFromStringAndCheckIfArray (ascii "int" ++ rest) { out with type := .int } := rfl

theorem getType_address (rest : Bytes) (out : InputOutputAbi) : getTypeAndSizeFromString (ascii "address" ++ rest) out =
    getSizeFromStringAndCheckIfArray (ascii "address" ++ rest) { out with type := .address } := rfl

theorem getType_bool (rest : Bytes) (out : InputOutputAbi) : getTypeAndSizeFromString (ascii "bool" ++ rest) out =
    getSizeFromStringAndCheckIfArray (ascii "bool" ++ rest) { out with type := .bool } := rfl

theorem getType_string (rest : Bytes) (out : InputOutputAbi) : getTypeAndSizeFromString (ascii "string" ++ rest) out =
    getSizeFromStringAndCheckIfArray (ascii "string" ++ rest) { out with type := .string } := rfl

theorem getType_bytesArray (rest : Bytes) (out : InputOutputAbi) :
    getTypeAndSizeFromString (ascii "bytes" ++ 91 :: rest) out =
      getSizeFromStringAndCheckIfArray (ascii "bytes" ++ 91 :: rest) { out with type := .bytesDynamic } := rfl

theorem getType_bytesN {digit : UInt8} (rest : Bytes) (out : InputOutputAbi) (other : digit ≠ 91) :
    getTypeAndSizeFromString (ascii "bytes" ++ digit :: rest) out =
      getSizeFromStringAndCheckIfArray (ascii "bytes" ++ digit :: rest) { out with type := .bytesStatic } := by
  have bracket : startsWith (ascii "bytes" ++ digit :: rest) (ascii "bytes[") = false := by
    change ((91 : UInt8) == digit && ([] : Bytes).isPrefixOf rest) = false
    rw [beq_false_of_ne other.symm, Bool.false_and]
  have more : ¬ascii "bytes" ++ digit :: rest = ascii "bytes" := by simp [ascii]
  rw [getTypeAndSizeFromString, if_neg (by simp [ascii]), if_neg (by simp [ascii]),
    if_neg (by simp [startsWith, ascii]),
    if_neg (by simp [startsWith, ascii]), if_neg (by simp [startsWith, ascii]), if_neg (by simp [startsWith, ascii]),
    if_pos (by simp [startsWith, ascii]), if_neg more, bracket, if_neg (by simp)]

namespace Spec.AbiType

/-- A bare integer that is not the element of an array. -/
def IsBareInteger : AbiType → Prop
  | elementary type => type.isBare = true
  | _ => False

theorem suffix_cases (type : AbiType) : type.suffix = [] ∧ (∃ e, type = elementary e) ∨
    type.suffix.head? = some 91 := by
  cases type with
  | elementary type => exact .inl ⟨rfl, type, rfl⟩
  | dynamicArray element => exact .inr rfl
  | fixedArray element length => exact .inr rfl

end Spec.AbiType

/-- A bare integer in front of an array suffix has width zero. -/
private theorem bare_eq {tag : EthereumTypeName} {keyword suffix : Bytes} (out : InputOutputAbi)
    (named : tag.toText = .ok keyword) (integer : tag = .uint ∨ tag = .int) (array : suffix.head? = some 91) :
    getSizeFromStringAndCheckIfArray (keyword ++ ([] ++ suffix)) { out with type := tag } =
      checkIfArray (keyword ++ ([] ++ suffix)) (keyword.length + 0)
        { out with type := tag, sizeBytes := UInt32.ofNat 0, arrayTypeSizeBytes := UInt32.ofNat 0 } := by
  refine sized_eq 0 0 out named (integer.imp id .inl) (by simp) (by simp) (.inr array) rfl ?_ (by omega)
  rcases integer with rfl | rfl <;> rfl

/-- An integer of a given width. -/
private theorem integer_eq {tag : EthereumTypeName} {keyword suffix : Bytes} (out : InputOutputAbi) (width : ByteWidth)
    (named : tag.toText = .ok keyword) (integer : tag = .uint ∨ tag = .int)
    (ends : suffix = [] ∨ suffix.head? = some 91) :
    getSizeFromStringAndCheckIfArray (keyword ++ (decimal (8 * width.bytes) ++ suffix)) { out with type := tag } =
      checkIfArray (keyword ++ (decimal (8 * width.bytes) ++ suffix))
        (keyword.length + (decimal (8 * width.bytes)).length)
        { out with
          type := tag, sizeBytes := UInt32.ofNat width.bytes, arrayTypeSizeBytes := UInt32.ofNat width.bytes } := by
  have bound := width.bound
  refine sized_eq (8 * width.bytes) width.bytes out named (integer.imp id .inl) (isDigit_decimal _)
    (decimal_length_le _ (by omega) (by omega)) (ends.imp (fun empty => ⟨empty, decimal_ne_nil _⟩) id)
    (atoiSizeBuf_decimal (by omega)) ?_ bound
  have other : tag ≠ .bytesStatic := by rcases integer with rfl | rfl <;> simp
  rw [if_neg other]
  omega

/-- The parser reads the element type and goes on at the suffix. -/
theorem getTypeAndSizeFromString_eq (type : AbiType) (out : InputOutputAbi) (sized : ¬type.IsBareInteger) :
    getTypeAndSizeFromString type.text out =
      checkIfArray type.text type.element.text.length (type.element.parsed out) := by
  have text : type.text = type.element.keyword ++ (type.element.digits ++ type.suffix) := by
    rw [AbiType.text, ElementaryType.text, List.append_assoc]
  have length : type.element.text.length = type.element.keyword.length + type.element.digits.length := by
    rw [ElementaryType.text, List.length_append]
  have ends : type.suffix = [] ∨ type.suffix.head? = some 91 := type.suffix_cases.imp And.left id
  have bare : type.element.isBare = true → type.suffix.head? = some 91 := by
    intro bare
    rcases type.suffix_cases with ⟨-, e, rfl⟩ | bracket
    · exact absurd bare sized
    · exact bracket
  rw [text, length]
  generalize type.suffix = suffix at ends bare ⊢
  cases element : type.element with
  | uint width =>
    rw [element] at bare
    cases width with
    | none => exact (getType_uint _ out).trans (bare_eq out rfl (.inl rfl) (bare rfl))
    | some width => exact (getType_uint _ out).trans (integer_eq out width rfl (.inl rfl) ends)
  | int width =>
    rw [element] at bare
    cases width with
    | none => exact (getType_int _ out).trans (bare_eq out rfl (.inr rfl) (bare rfl))
    | some width => exact (getType_int _ out).trans (integer_eq out width rfl (.inr rfl) ends)
  | address => exact (getType_address _ out).trans (unsized_eq out rfl (by simp))
  | bool => exact (getType_bool _ out).trans (unsized_eq out rfl (by simp))
  | string => exact (getType_string _ out).trans (unsized_eq out rfl (by simp))
  | bytes =>
    cases suffix with
    | nil => rfl
    | cons char rest =>
      obtain rfl : char = 91 := by simpa using ends
      exact (getType_bytesArray rest out).trans (unsized_eq out rfl (by simp))
  | bytesN width =>
    have bound := width.bound
    have each := isDigit_decimal width.bytes
    have parsed := @sized_eq .bytesStatic (ascii "bytes") _ suffix width.bytes width.bytes out rfl
      (by simp) each (decimal_length_le _ (by omega) (by omega))
      (ends.imp (fun empty => ⟨empty, decimal_ne_nil _⟩) id) (atoiSizeBuf_decimal (by omega)) rfl bound
    refine Eq.trans ?_ parsed
    obtain ⟨digit, others, same⟩ := List.exists_cons_of_ne_nil (decimal_ne_nil width.bytes)
    rw [ElementaryType.keyword, ElementaryType.digits]
    rw [same] at each ⊢
    exact getType_bytesN _ out (digit_ne (each digit List.mem_cons_self) (by decide))

/-- A bare integer on its own has the default width. -/
theorem getTypeAndSizeFromString_bare (type : AbiType) (out : InputOutputAbi) (bare : type.IsBareInteger) :
    getTypeAndSizeFromString type.text out =
      .ok (.success, { out with type := type.element.tag, sizeBytes := 32 }) := by
  cases type with
  | elementary type =>
    rcases type with (_ | width) | (_ | width) | _ | _ | _ | _ | width
    all_goals first | rfl | simp [AbiType.IsBareInteger, ElementaryType.isBare] at bare
  | dynamicArray element => exact bare.elim
  | fixedArray element length => exact bare.elim

end Iotex
