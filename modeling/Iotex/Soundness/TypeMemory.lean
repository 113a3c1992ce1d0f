import Iotex.Proofs.TypeMemory
import Iotex.Proofs.TypeReading

/-! # Where the type parser leaves its string

The parser ends on every string. Exactly when does it read behind the terminating NUL, store outside of an
array or pass `atoi` an array without NUL? Behind a keyword with a width, from four digits on: they fill
the size buffer. Behind a bracket, when it is not closed, or when the index into the moving pointer has left
the string before the closing bracket is reached. And at the keyword, when a comparison looks at all of its
characters, on strings that are too short for it.
-/

namespace Iotex

open Spec

namespace TypeMemory

/-! ## The comparisons -/

variable {whole : Bool} {text : Bytes}

private theorem memcmp_fits {literal : Bytes} (noNul : (0 : UInt8) ∉ literal)
    (fits : whole = true → literal.length ≤ text.length + 1) :
    memcmp whole text literal = .ok (startsWith text literal) := by
  rw [memcmp_eq whole text noNul, if_neg]
  rintro ⟨strict, short⟩
  have := fits strict
  omega

private theorem charAt_zero (some : text ≠ []) :
    ∃ first, charAt text 0 = .ok first ∧ text.head? = Option.some first := by
  obtain ⟨first, rest, rfl⟩ := List.exists_cons_of_ne_nil some
  exact ⟨first, charAt_append [] first rest, rfl⟩

private theorem length_of_startsWith {literal : Bytes} (starts : startsWith text literal = true) :
    literal.length ≤ text.length :=
  (List.isPrefixOf_iff_prefix.mp starts).length_le

/-- The parser with its arrays is the parser on characters, as long as the comparisons find theirs. -/
theorem getTypeAndSizeFromString_eq (comparable : whole = true → Comparable text) (out : InputOutputAbi) :
    getTypeAndSizeFromString whole text out = Iotex.getTypeAndSizeFromString text out := by
  rw [getTypeAndSizeFromString, Iotex.getTypeAndSizeFromString]
  rcases eq_or_ne text [] with rfl | empty
  · rfl
  obtain ⟨first, head, first_eq⟩ := charAt_zero empty
  have some_length : ¬text.length = 0 := by simpa using empty
  rcases eq_or_ne first 40 with tuple | tuple
  · simp only [some_length, head, ok_bind, first_eq, tuple, ↓reduceIte, pure_eq_ok]
  have enough : whole = true → startsWith text (ascii "uint") = true ∨ startsWith text (ascii "int") = true ∨
      6 ≤ text.length := by
    intro strict
    simpa [Comparable, empty, first_eq, tuple] using comparable strict
  have uint : memcmp whole text (ascii "uint") = .ok (startsWith text (ascii "uint")) := by
    refine memcmp_fits (by decide) fun strict => ?_
    rcases enough strict with starts | starts | long
    · exact (length_of_startsWith starts).trans (Nat.le_succ _)
    · exact Nat.succ_le_succ (length_of_startsWith starts)
    · exact (show 4 ≤ 6 by omega).trans (long.trans (Nat.le_succ _))
  simp only [some_length, head, ok_bind, first_eq, tuple, Option.some.injEq, ↓reduceIte, uint,
    getSizeFromStringAndCheckIfArray_eq]
  by_cases starts_uint : startsWith text (ascii "uint") = true
  · rw [if_pos starts_uint, if_pos starts_uint]
  have int : memcmp whole text (ascii "int") = .ok (startsWith text (ascii "int")) := by
    refine memcmp_fits (by decide) fun strict => ?_
    rcases enough strict with starts | starts | long
    · exact absurd starts starts_uint
    · exact (length_of_startsWith starts).trans (Nat.le_succ _)
    · exact (show 3 ≤ 6 by omega).trans (long.trans (Nat.le_succ _))
  simp only [starts_uint, int, ok_bind]
  by_cases starts_int : startsWith text (ascii "int") = true
  · rw [if_pos starts_int, if_pos starts_int]
  have later (literal : Bytes) (noNul : (0 : UInt8) ∉ literal) (fits : literal.length ≤ 7) :
      memcmp whole text literal = .ok (startsWith text literal) := by
    refine memcmp_fits noNul fun strict => ?_
    rcases enough strict with starts | starts | long
    · exact absurd starts starts_uint
    · exact absurd starts starts_int
    · omega
  simp only [later (ascii "address") (by decide) (by decide), later (ascii "bool") (by decide) (by decide),
    later (ascii "bytes") (by decide) (by decide), later (ascii "bytes[") (by decide) (by decide),
    later (ascii "string") (by decide) (by decide), ok_bind, pure_eq_ok]

/-- A comparison that looks at all characters of its literal leaves a string that is too short. -/
theorem getTypeAndSizeFromString_short (short : ¬Comparable text) (out : InputOutputAbi) :
    getTypeAndSizeFromString true text out = .error .outOfBounds := by
  simp only [Comparable, not_or] at short
  obtain ⟨empty, tuple, uint, int, length⟩ := short
  obtain ⟨first, head, first_eq⟩ := charAt_zero empty
  have some_length : ¬text.length = 0 := by simpa using empty
  have other : ¬first = 40 := by simpa [first_eq] using tuple
  rw [getTypeAndSizeFromString]
  simp only [some_length, head, ok_bind, other, ↓reduceIte]
  rcases Nat.lt_or_ge (text.length + 1) 4 with tiny | _
  · rw [memcmp_eq true text (by decide), if_pos ⟨rfl, tiny⟩, error_bind]
  · have address : memcmp true text (ascii "address") = .error .outOfBounds := by
      rw [memcmp_eq true text (by decide), if_pos]
      exact ⟨rfl, show text.length + 1 < 7 by omega⟩
    have fits_uint : (ascii "uint").length ≤ text.length + 1 := show 4 ≤ _ by omega
    have fits_int : (ascii "int").length ≤ text.length + 1 := show 3 ≤ _ by omega
    rw [memcmp_fits (by decide) fun _ => fits_uint, ok_bind, if_neg uint, memcmp_fits (by decide) fun _ => fits_int,
      ok_bind, if_neg int, address, error_bind]

/-! ## The part behind the keyword -/

/-- A keyword that is longer than the string puts the pointer behind its NUL. -/
private theorem getSize_short {keyword : Bytes} {out : InputOutputAbi} (named : out.type.toText = .ok keyword)
    (short : text.length < keyword.length) :
    Iotex.getSizeFromStringAndCheckIfArray text out = .error .outOfBounds := by
  have beyond : charAt text keyword.length = .error .outOfBounds := charAt_beyond short
  have other : ¬keyword.length = text.length := by omega
  rw [Iotex.getSizeFromStringAndCheckIfArray, named, ok_bind]
  simp only [other, and_false, ↓reduceIte]
  by_cases tagged : out.type = .uint ∨ out.type = .int ∨ out.type = .bytesStatic
  · rw [if_pos tagged, Iotex.copySize, beyond, error_bind, error_bind]
  · rw [if_neg tagged, Iotex.checkIfArray, if_neg other, beyond, error_bind]

theorem getSizeFromStringAndCheckIfArray_inside_iff (text : Bytes) (out : InputOutputAbi) :
    getSizeFromStringAndCheckIfArray text out ≠ .error .outOfBounds ↔ SizeInside out.type text := by
  rw [getSizeFromStringAndCheckIfArray_eq]
  cases named : out.type.toText with
  | error fault =>
    have entry : fault = .outOfBounds := by
      rw [EthereumTypeName.toText] at named
      split at named
      · cases named
      · exact (Except.error.inj named).symm
    rw [Iotex.getSizeFromStringAndCheckIfArray, named, error_bind, entry]
    refine iff_of_false (by simp) ?_
    rintro ⟨keyword, found, -⟩
    simp [named] at found
  | ok keyword =>
    rcases le_or_gt keyword.length text.length with fits | short
    · have width : (text.take keyword.length).length = keyword.length := List.length_take_of_le fits
      have split : text.take keyword.length ++ text.drop keyword.length = text := List.take_append_drop _ _
      have whole_iff : SizeInside out.type text ↔ if out.type = .uint ∨ out.type = .int ∨ out.type = .bytesStatic then
          ((text.drop keyword.length).takeWhile isDigit).length < 4 ∧
            SuffixInside ((text.drop keyword.length).dropWhile isDigit)
          else SuffixInside (text.drop keyword.length) := by
        rw [SizeInside, named]
        simp [fits]
      rw [whole_iff]
      split_ifs with tagged
      · have decided := @DecidedBy.sized _ _ _ _ _ (text.drop keyword.length) inside_decided out named width
          tagged
        rwa [split] at decided
      · have decided := @DecidedBy.unsized _ _ _ _ _ (text.drop keyword.length) inside_decided out named width
          tagged
        rwa [split] at decided
    · rw [getSize_short named short]
      refine iff_of_false (by simp) ?_
      rintro ⟨other, found, inside, -⟩
      rw [named, Except.ok.injEq] at found
      rw [← found] at inside
      exact absurd inside (Nat.not_le.mpr short)

end TypeMemory

/-! ## The parser -/

/-- The parser stays inside of its string and its arrays on exactly these strings: their keywords, widths and
suffixes are read inside, and a comparison that looks at all characters finds them. -/
theorem typeParser_inside_iff (whole : Bool) (text : Bytes) (out : InputOutputAbi) :
    (TypeMemory.getTypeAndSizeFromString whole text out ≠ .error .outOfBounds ↔
      KeywordsInside text ∧ (whole = true → Comparable text)) ∧
    (TypeMemory.getSizeFromStringAndCheckIfArray text out ≠ .error .outOfBounds ↔ SizeInside out.type text) := by
  refine ⟨?_, TypeMemory.getSizeFromStringAndCheckIfArray_inside_iff text out⟩
  by_cases comparable : whole = true → Comparable text
  · rw [TypeMemory.getTypeAndSizeFromString_eq comparable, and_iff_left comparable]
    exact getTypeAndSizeFromString_inside_iff text out
  · obtain ⟨strict, short⟩ := Classical.not_imp.mp comparable
    rw [strict, TypeMemory.getTypeAndSizeFromString_short short]
    exact iff_of_false (by simp) fun both => short (both.2 rfl)

/-- Four digits fill the size buffer, an open bracket is never found closed, and a length of four digits takes
the index out of the string. -/
theorem typeParser_outside :
    (let out : InputOutputAbi := ⟨[], .unknown, 0, .unknown, 0, 0⟩
    TypeMemory.getTypeAndSizeFromString false (ascii "uint1234") out = .error .outOfBounds ∧
      TypeMemory.getTypeAndSizeFromString false (ascii "uint8[") out = .error .outOfBounds ∧
      TypeMemory.getTypeAndSizeFromString false (ascii "bool[1234]") out = .error .outOfBounds) := by
  decide

end Iotex
