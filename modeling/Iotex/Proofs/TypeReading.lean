import Iotex.Proofs.ArraySuffix
import Iotex.Spec.ContractAbi

/-! # Reading type strings

Which strings the type parser gets through, whatever they hold, and what it makes of the names of
the grammar: every type is read exactly but an array of bare integers, whose width is lost, and an
array with a length of more than one digit.
-/

namespace Iotex

open Spec

/-! ## What follows an element type -/

/-- The first closing bracket splits a string in one way. -/
private theorem split_unique {number other rest others : Bytes} (unclosed : 93 ∉ number) (unclosed' : 93 ∉ other)
    (same : number ++ 93 :: rest = other ++ 93 :: others) : number = other ∧ rest = others := by
  have taken : ∀ {front : Bytes} (behind : Bytes), 93 ∉ front →
      (front ++ 93 :: behind).takeWhile (· != 93) = front := by
    intro front behind absent
    rw [List.takeWhile_append_of_pos, List.takeWhile_cons_of_neg (by simp), List.append_nil]
    intro char member
    simpa using fun (bracket : char = 93) => absent (bracket ▸ member)
  have front := congrArg (List.takeWhile (· != 93)) same
  rw [taken rest unclosed, taken others unclosed'] at front
  subst front
  exact ⟨rfl, (List.cons.inj (List.append_cancel_left same)).2⟩

/-- What can follow an element type: no bracket or empty ones, a length in brackets, or an open one. -/
private theorem suffix_forms (suffix : Bytes) :
    ((∀ behind, suffix ≠ 91 :: behind) ∨ ∃ rest, suffix = 91 :: 93 :: rest) ∨
      (∃ number rest, suffix = 91 :: (number ++ 93 :: rest) ∧ 93 ∉ number ∧ number ≠ []) ∨
      ∃ behind, suffix = 91 :: behind ∧ 93 ∉ behind := by
  by_cases bracket : ∃ behind, suffix = 91 :: behind
  · obtain ⟨behind, rfl⟩ := bracket
    by_cases closed : 93 ∈ behind
    · obtain ⟨number, rest, rfl, unclosed⟩ := List.eq_append_cons_of_mem closed
      rcases eq_or_ne number [] with rfl | some
      · exact .inl (.inr ⟨rest, rfl⟩)
      · exact .inr (.inl ⟨number, rest, rfl, unclosed, some⟩)
    · exact .inr (.inr ⟨behind, rfl, closed⟩)
  · exact .inl (.inl (not_exists.mp bracket))

section

variable {condition : Bytes → Bytes → Bytes → Prop}

/-- A bracket that starts the suffix is closed, and its contents and what follows meet a condition. -/
private def Closes (condition : Bytes → Bytes → Bytes → Prop) (suffix : Bytes) : Prop :=
  ∀ behind, suffix = 91 :: behind →
    ∃ number rest, behind = number ++ 93 :: rest ∧ 93 ∉ number ∧ condition behind number rest

private theorem closes_plain {suffix : Bytes} (empty : ∀ rest, condition (93 :: rest) [] rest)
    (plain : (∀ behind, suffix ≠ 91 :: behind) ∨ ∃ rest, suffix = 91 :: 93 :: rest) : Closes condition suffix := by
  intro behind same
  rcases plain with other | ⟨rest, rfl⟩
  · exact absurd same (other behind)
  · obtain rfl := (List.cons.inj same).2
    exact ⟨[], rest, rfl, by simp, empty rest⟩

private theorem closes_closed {number rest : Bytes} (unclosed : 93 ∉ number) :
    Closes condition (91 :: (number ++ 93 :: rest)) ↔ condition (number ++ 93 :: rest) number rest := by
  constructor
  · intro closes
    obtain ⟨other, others, same, absent, holds⟩ := closes _ rfl
    obtain ⟨rfl, rfl⟩ := split_unique unclosed absent same
    exact holds
  · rintro holds behind same
    obtain rfl := (List.cons.inj same).2
    exact ⟨number, rest, rfl, unclosed, holds⟩

private theorem not_closes {behind : Bytes} (unclosed : 93 ∉ behind) : ¬Closes condition (91 :: behind) := by
  intro closes
  obtain ⟨number, rest, rfl, -⟩ := closes behind rfl
  simp at unclosed

end

theorem checkIfArray_returns_iff (before suffix : Bytes) (out : InputOutputAbi) :
    (∃ result, checkIfArray (before ++ suffix) before.length out = .ok result) ↔ SuffixStays suffix := by
  change _ ↔ Closes _ suffix
  rcases suffix_forms suffix with plain | ⟨number, rest, rfl, unclosed, some⟩ | ⟨behind, rfl, unclosed⟩
  · exact iff_of_true (checkIfArray_plain before plain out) (closes_plain (fun _ => .inl rfl) plain)
  · rw [checkIfArray_closed before unclosed some, closes_closed unclosed, or_iff_right some]
    split_ifs with inside
    · cases read : atoi (everyOther number.length (number ++ 93 :: rest)) with
      | error fault => simp
      | ok value => simp [inside]
    · simp [inside]
  · rw [checkIfArray_unclosed before unclosed]
    exact iff_of_false (by simp) (not_closes unclosed)

/-- The parser leaves the string on the other suffixes; a length that is no `int` is another matter. -/
theorem checkIfArray_inside_iff (before suffix : Bytes) (out : InputOutputAbi) :
    checkIfArray (before ++ suffix) before.length out ≠ .error .outOfBounds ↔ SuffixInside suffix := by
  change _ ↔ Closes (fun _ number rest => number = [] ∨ number.length ≤ rest.length + 3) suffix
  rcases suffix_forms suffix with plain | ⟨number, rest, rfl, unclosed, some⟩ | ⟨behind, rfl, unclosed⟩
  · obtain ⟨result, ran⟩ := checkIfArray_plain before plain out
    rw [ran]
    exact iff_of_true (by simp) (closes_plain (fun _ => .inl rfl) plain)
  · rw [checkIfArray_closed before unclosed some, closes_closed unclosed, or_iff_right some]
    split_ifs with inside
    · refine iff_of_true ?_ inside
      rcases atoi_cases (everyOther number.length (number ++ 93 :: rest)) with ⟨value, read⟩ | wide
      · simp [read]
      · simp [wide]
    · simp [inside]
  · rw [checkIfArray_unclosed before unclosed]
    exact iff_of_false (by simp) (not_closes unclosed)

/-! ## Widths -/

/-- With more digits than iterations the loop takes as many as it has. -/
private theorem copySize_full (before : Bytes) {digits : Bytes} (suffix sizeBuf : Bytes) {left : ℕ}
    (each : ∀ char ∈ digits, isDigit char = true) (many : left ≤ digits.length) :
    copySize (before ++ (digits ++ suffix)) left before.length sizeBuf =
      .ok (some (before.length + left, sizeBuf ++ digits.take left)) := by
  induction left generalizing before digits sizeBuf with
  | zero => simp [copySize]
  | succ left ih =>
    obtain ⟨digit, digits, rfl⟩ := List.exists_cons_of_ne_nil (List.ne_nil_of_length_pos (by omega : 0 < digits.length))
    have isDigit := each digit List.mem_cons_self
    have bracket : digit ≠ 91 := by
      rintro rfl
      exact absurd isDigit (by decide)
    have inside : ¬(digit < 48 ∨ 57 < digit) := by
      rw [outside_digits, isDigit]
      decide
    have tail := ih (before ++ [digit]) (sizeBuf ++ [digit])
      (fun char member => each char (List.mem_cons_of_mem _ member)) (by simpa using many)
    rw [List.append_assoc, List.singleton_append, List.length_append, List.length_singleton] at tail
    rw [List.cons_append, copySize, charAt_append, ok_bind, if_neg bracket, if_neg inside]
    by_cases last : before.length + 1 = (before ++ digit :: (digits ++ suffix)).length
    · have none : digits.length = 0 := by
        simp only [List.length_append, List.length_cons] at last
        omega
      obtain rfl : left = 0 := by
        simp only [List.length_cons] at many
        omega
      rw [if_pos last]
      simp
    · rw [if_neg last, tail]
      simp only [List.take_succ_cons, List.append_assoc, List.singleton_append, Except.ok.injEq, Option.some.injEq,
        Prod.mk.injEq, and_true]
      omega

/-- Up to three digits in the size buffer denote a number. -/
private theorem atoiSizeBuf_digits {digits : Bytes} (each : ∀ char ∈ digits, isDigit char = true)
    (short : digits.length ≤ 3) : ∃ size, atoiSizeBuf digits = .ok size := by
  rw [atoiSizeBuf, if_neg (by omega)]
  rcases eq_or_ne digits [] with rfl | empty
  · exact ⟨0, rfl⟩
  · have bound := decimalValue_lt digits each
    have small : decimalValue digits < 2 ^ 31 := by
      calc
        decimalValue digits < 10 ^ digits.length := bound
        _ ≤ 10 ^ 3 := Nat.pow_le_pow_right (by decide) short
        _ < 2 ^ 31 := by decide
    have read := atoi_digits digits [] each empty (by simp) (by simp) small
    rw [List.append_nil] at read
    exact ⟨_, read⟩

/-- The loop over a width: four digits fill the buffer, fewer are copied up to a suffix or the end, and a
character that is neither a digit nor a bracket is an error, like the NUL in place of a digit. -/
private theorem copySize_cases (before behind : Bytes) :
    4 ≤ (behind.takeWhile isDigit).length ∧ copySize (before ++ behind) 4 before.length [] =
        .ok (some (before.length + 4, (behind.takeWhile isDigit).take 4)) ∨
      (behind.takeWhile isDigit).length < 4 ∧
        (copySize (before ++ behind) 4 before.length [] =
            .ok (some (before.length + (behind.takeWhile isDigit).length, behind.takeWhile isDigit)) ∨
          copySize (before ++ behind) 4 before.length [] = .ok none ∧
            ∀ others, behind.dropWhile isDigit ≠ 91 :: others) := by
  rcases eq_or_ne behind [] with rfl | empty
  · refine .inr ⟨by simp, .inr ⟨?_, by simp⟩⟩
    rw [List.append_nil, copySize, charAt_inside (le_refl _)]
    simp
  have each : ∀ char ∈ behind.takeWhile isDigit, isDigit char = true := fun char => List.mem_takeWhile_imp
  have split : behind.takeWhile isDigit ++ behind.dropWhile isDigit = behind := List.takeWhile_append_dropWhile
  have stops : ∀ char ∈ (behind.dropWhile isDigit).head?, isDigit char = false := by
    intro char member
    have first := List.head?_dropWhile_not isDigit behind
    rwa [Option.mem_def.mp member] at first
  generalize behind.takeWhile isDigit = digits at *
  generalize behind.dropWhile isDigit = suffix at *
  subst split
  rcases Nat.lt_or_ge digits.length 4 with short | many
  · refine .inr ⟨short, ?_⟩
    by_cases ends : suffix = [] ∧ digits ≠ [] ∨ suffix.head? = some 91
    · exact .inl (copySize_eq before [] 4 each short ends)
    · right
      cases suffix with
      | nil => exact absurd (.inl ⟨rfl, by simpa using empty⟩) ends
      | cons char rest =>
        have other : char ≠ 91 := fun bracket => ends (.inr (congrArg some bracket))
        refine ⟨?_, fun others same => other (List.cons.inj same).1⟩
        exact (copySize_none_iff before (digits ++ char :: rest) [] 4 empty).mpr
          ⟨digits, char, rest, rfl, short, each, stops char rfl, other⟩
  · exact .inl ⟨many, copySize_full before suffix [] each many⟩

/-- The parser of a type with a width: four digits leave the size buffer without a NUL, and fewer are read
before a suffix, unless a character is neither a digit nor a bracket. Only the length of the text in front
of the digits matters. -/
theorem sized_cases {tag : EthereumTypeName} {keyword front behind : Bytes} (out : InputOutputAbi)
    (named : tag.toText = .ok keyword) (width : front.length = keyword.length)
    (tagged : tag = .uint ∨ tag = .int ∨ tag = .bytesStatic) :
    4 ≤ (behind.takeWhile isDigit).length ∧
        getSizeFromStringAndCheckIfArray (front ++ behind) { out with type := tag } = .error .outOfBounds ∨
      (behind.takeWhile isDigit).length < 4 ∧
        ((∃ sized, getSizeFromStringAndCheckIfArray (front ++ behind) { out with type := tag } =
            checkIfArray (front ++ behind.takeWhile isDigit ++ behind.dropWhile isDigit)
              (front ++ behind.takeWhile isDigit).length sized) ∨
          (∃ result, getSizeFromStringAndCheckIfArray (front ++ behind) { out with type := tag } = .ok result) ∧
            ∀ others, behind.dropWhile isDigit ≠ 91 :: others) := by
  have copied := copySize_cases front behind
  have each : ∀ char ∈ behind.takeWhile isDigit, isDigit char = true := fun char => List.mem_takeWhile_imp
  rw [List.append_assoc, List.takeWhile_append_dropWhile, List.length_append, getSizeFromStringAndCheckIfArray, named,
    ok_bind]
  by_cases bare : (tag = .uint ∨ tag = .int) ∧ behind = []
  · obtain ⟨integer, rfl⟩ := bare
    rw [if_pos ⟨integer, by simp [width]⟩]
    exact .inr ⟨by simp, .inr ⟨⟨_, rfl⟩, by simp⟩⟩
  have longer : ¬((tag = .uint ∨ tag = .int) ∧ keyword.length = (front ++ behind).length) := by
    rintro ⟨integer, same⟩
    rw [List.length_append, width] at same
    exact bare ⟨integer, List.length_eq_zero_iff.mp (by omega)⟩
  simp only [longer, ↓reduceIte, tagged]
  rw [← width]
  rcases copied with ⟨many, full⟩ | ⟨short, read | ⟨refused, plain⟩⟩
  · have taken : 4 ≤ ((behind.takeWhile isDigit).take 4).length := by
      rw [List.length_take]
      omega
    refine .inl ⟨many, ?_⟩
    rw [full, ok_bind]
    simp only [atoiSizeBuf, taken, ↓reduceIte, error_bind]
  · obtain ⟨size, number⟩ := atoiSizeBuf_digits each (by omega)
    refine .inr ⟨short, .inl ?_⟩
    rw [read, ok_bind]
    simp only [number, ok_bind]
    exact ⟨_, rfl⟩
  · refine .inr ⟨short, .inr ⟨?_, plain⟩⟩
    rw [refused, ok_bind]
    exact ⟨_, rfl⟩

/-! ## The dispatch on the keyword -/

/-- A property of results that every returned value has and a read outside has not, and that the parser
behind an element type has on the suffixes that fit. -/
structure DecidedBy (good : Exec (ResultCode × InputOutputAbi) → Prop) (fits : Bytes → Prop) : Prop where
  returned : ∀ result, good (.ok result)
  outside : ¬good (.error .outOfBounds)
  suffix : ∀ before suffix out, good (checkIfArray (before ++ suffix) before.length out) ↔ fits suffix

theorem returns_decided : DecidedBy (fun ran => ∃ result, ran = .ok result) SuffixStays :=
  ⟨fun result => ⟨result, rfl⟩, by simp, checkIfArray_returns_iff⟩

theorem inside_decided : DecidedBy (fun ran => ran ≠ .error .outOfBounds) SuffixInside :=
  ⟨by simp, by simp, checkIfArray_inside_iff⟩

namespace DecidedBy

variable {good : Exec (ResultCode × InputOutputAbi) → Prop} {fits : Bytes → Prop} {tag : EthereumTypeName}
  {keyword front behind : Bytes}

theorem plain (decided : DecidedBy good fits) {suffix : Bytes} (other : ∀ behind, suffix ≠ 91 :: behind) :
    fits suffix := by
  let out : InputOutputAbi := ⟨[], .uint, 0, .uint, 0, 0⟩
  obtain ⟨result, ran⟩ := checkIfArray_plain [] (.inl other) out
  rw [← decided.suffix [] suffix out, ran]
  exact decided.returned result

/-- The parser of a type with a width. -/
theorem sized (decided : DecidedBy good fits) (out : InputOutputAbi) (named : tag.toText = .ok keyword)
    (width : front.length = keyword.length) (tagged : tag = .uint ∨ tag = .int ∨ tag = .bytesStatic) :
    good (getSizeFromStringAndCheckIfArray (front ++ behind) { out with type := tag }) ↔
      (behind.takeWhile isDigit).length < 4 ∧ fits (behind.dropWhile isDigit) := by
  rcases @sized_cases tag keyword front behind out named width tagged with
    ⟨long, outside⟩ | ⟨short, ⟨sized, checked⟩ | ⟨⟨result, returned⟩, plain⟩⟩
  · rw [outside]
    exact iff_of_false decided.outside fun both => absurd both.1 (by omega)
  · rw [checked, and_iff_right short]
    exact decided.suffix _ _ _
  · rw [returned]
    exact iff_of_true (decided.returned result) ⟨short, decided.plain plain⟩

/-- The parser of a type without a width. -/
theorem unsized (decided : DecidedBy good fits) (out : InputOutputAbi) (named : tag.toText = .ok keyword)
    (width : front.length = keyword.length) (untagged : ¬(tag = .uint ∨ tag = .int ∨ tag = .bytesStatic)) :
    good (getSizeFromStringAndCheckIfArray (front ++ behind) { out with type := tag }) ↔ fits behind := by
  rw [unsized_eq out named untagged, ← width]
  exact decided.suffix front behind _

private theorem not_startsWith {text literal : Bytes} (other : ¬startsWith text literal = true) (behind : Bytes) :
    text ≠ literal ++ behind := by
  rintro rfl
  exact other (List.isPrefixOf_iff_prefix.mpr (List.prefix_append _ _))

theorem getType (decided : DecidedBy good fits) (text : Bytes) (out : InputOutputAbi) :
    good (getTypeAndSizeFromString text out) ↔
      (∀ keyword ∈ [ascii "uint", ascii "int", ascii "bytes"], ∀ behind, text = keyword ++ behind →
        (behind.takeWhile isDigit).length < 4 ∧ fits (behind.dropWhile isDigit)) ∧
      ∀ keyword ∈ [ascii "address", ascii "bool", ascii "string"], ∀ behind, text = keyword ++ behind →
        fits behind := by
  rw [getTypeAndSizeFromString]
  split_ifs with empty tuple uint int address bool bytes exact array string
  · obtain rfl := List.length_eq_zero_iff.mp empty
    exact iff_of_true (decided.returned _) (by simp [ascii])
  · obtain ⟨first, rest, rfl⟩ := List.exists_cons_of_length_pos (Nat.pos_of_ne_zero empty)
    obtain rfl : first = 40 := Option.some.inj tuple
    exact iff_of_true (decided.returned _) (by simp [ascii])
  · obtain ⟨behind, rfl⟩ := List.isPrefixOf_iff_prefix.mp uint
    rw [decided.sized out rfl rfl (.inl rfl)]
    simp [ascii]
  · obtain ⟨behind, rfl⟩ := List.isPrefixOf_iff_prefix.mp int
    rw [decided.sized out rfl rfl (.inr (.inl rfl))]
    simp [ascii]
  · obtain ⟨behind, rfl⟩ := List.isPrefixOf_iff_prefix.mp address
    rw [decided.unsized out rfl rfl (by simp)]
    simp [ascii]
  · obtain ⟨behind, rfl⟩ := List.isPrefixOf_iff_prefix.mp bool
    rw [decided.unsized out rfl rfl (by simp)]
    simp [ascii]
  · subst exact
    exact iff_of_true (decided.returned _) (by simp [ascii, decided.plain])
  · obtain ⟨behind, rfl⟩ := List.isPrefixOf_iff_prefix.mp array
    have bracket : isDigit 91 = false := by decide
    rw [show ascii "bytes[" ++ behind = ascii "bytes" ++ 91 :: behind from rfl, decided.unsized out rfl rfl (by simp)]
    simp [ascii, bracket]
  · obtain ⟨behind, rfl⟩ := List.isPrefixOf_iff_prefix.mp bytes
    rw [decided.sized out rfl rfl (.inr (.inr rfl))]
    simp [ascii]
  · obtain ⟨behind, rfl⟩ := List.isPrefixOf_iff_prefix.mp string
    rw [decided.unsized out rfl rfl (by simp)]
    simp [ascii]
  · apply iff_of_true (decided.returned _)
    constructor
    · intro keyword member behind same
      simp only [List.mem_cons, List.not_mem_nil, or_false] at member
      rcases member with rfl | rfl | rfl
      · exact absurd same (not_startsWith uint behind)
      · exact absurd same (not_startsWith int behind)
      · exact absurd same (not_startsWith bytes behind)
    · intro keyword member behind same
      simp only [List.mem_cons, List.not_mem_nil, or_false] at member
      rcases member with rfl | rfl | rfl
      · exact absurd same (not_startsWith address behind)
      · exact absurd same (not_startsWith bool behind)
      · exact absurd same (not_startsWith string behind)

end DecidedBy

theorem getTypeAndSizeFromString_returns_iff (text : Bytes) (out : InputOutputAbi) :
    (∃ result, getTypeAndSizeFromString text out = .ok result) ↔ StaysInside text :=
  returns_decided.getType text out

theorem getTypeAndSizeFromString_inside_iff (text : Bytes) (out : InputOutputAbi) :
    getTypeAndSizeFromString text out ≠ .error .outOfBounds ↔ KeywordsInside text :=
  inside_decided.getType text out

/-! ## The types of the grammar -/

open ElementaryType AbiType

/-- What the parser makes of an elementary type: the width of a bare integer is lost. -/
private theorem parsed_represents (type : ElementaryType) {out : InputOutputAbi} (blank : out.arrayTypeSizeBytes = 0) :
    (type.parsed out).name = out.name ∧ type.tag = type.tagAndWidth.1 ∧
      (type.isBare = false → ∀ width ∈ type.tagAndWidth.2, (type.parsed out).sizeBytes.toNat = width) ∧
      ((type.parsed out).arrayTypeSizeBytes.toNat = type.tagAndWidth.2.getD 0 ↔ type.isBare = false) := by
  have value (width : ByteWidth) : (UInt32.ofNat width.bytes).toNat = width.bytes := by
    have bound := width.bound
    rw [UInt32.toNat_ofNat']
    omega
  rcases type with (_ | width) | (_ | width) | _ | _ | _ | _ | width
  all_goals
    simp [ElementaryType.parsed, parsedWidth, tag, tagAndWidth, isBare, blank, value, -UInt32.toNat_ofNat']

/-- A type of the grammar that is read is represented exactly when it is printable. -/
theorem getType_represents {type : AbiType} {out input : InputOutputAbi} {code : ResultCode}
    (blank : out.arrayTypeSizeBytes = 0) (read : getTypeAndSizeFromString type.text out = .ok (code, input)) :
    code = .success ∧ input.name = out.name ∧ (Represents input type ↔ type.Printable) := by
  cases type with
  | elementary type =>
    obtain ⟨named, tagged, sized, -⟩ := parsed_represents type blank
    rw [getType_elementary] at read
    obtain ⟨rfl, rfl⟩ := Prod.mk.inj (Except.ok.inj read)
    split_ifs with bare
    · refine ⟨rfl, rfl, iff_of_true ⟨tagged, ?_⟩ trivial⟩
      rcases type with (_ | width) | (_ | width) | _ | _ | _ | _ | width <;> simp [tagAndWidth, isBare] at bare ⊢
    · refine ⟨rfl, named, iff_of_true ⟨?_, sized (by simpa using bare)⟩ trivial⟩
      rw [ElementaryType.parsed_type, tagged]
  | dynamicArray element =>
    obtain ⟨named, tagged, -, width⟩ := parsed_represents element blank
    rw [getType_dynamicArray] at read
    obtain ⟨rfl, rfl⟩ := Prod.mk.inj (Except.ok.inj read)
    refine ⟨rfl, named, ?_⟩
    simp only [Represents, tagged, true_and]
    exact width
  | fixedArray element length =>
    obtain ⟨named, tagged, -, width⟩ := parsed_represents element blank
    by_cases short : (decimal length.count).length ≤ 3
    · obtain ⟨count, bound, result, single, several⟩ := getType_fixedArray_short element short out
      rw [result] at read
      obtain ⟨rfl, rfl⟩ := Prod.mk.inj (Except.ok.inj read)
      have number : (UInt32.ofNat count).toNat = count := by
        rw [UInt32.toNat_ofNat']
        omega
      have exactly : count = length.count ↔ length.count < 10 := by
        rw [← decimal_length_eq_one]
        refine ⟨fun same => ?_, single⟩
        by_contra more
        have less := several more
        rw [same] at less
        omega
      refine ⟨rfl, named, ?_⟩
      simp only [Represents, tagged, true_and, number, exactly]
      exact and_congr_left fun _ => width
    · rw [getType_fixedArray_long element short] at read
      simp at read

/-- A printable type is read. -/
theorem getType_printable {type : AbiType} (printable : type.Printable) (out : InputOutputAbi) :
    ∃ input, getTypeAndSizeFromString type.text out = .ok (.success, input) := by
  cases type with
  | elementary type => exact ⟨_, getType_elementary type out⟩
  | dynamicArray element => exact ⟨_, getType_dynamicArray element out⟩
  | fixedArray element length =>
    have one : (decimal length.count).length = 1 := decimal_length_eq_one.mpr printable.2
    obtain ⟨count, -, read, -⟩ := @getType_fixedArray_short element length (by omega) out
    exact ⟨_, read⟩

end Iotex
