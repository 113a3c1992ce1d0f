import Iotex.Proofs.TypeStrings
import Iotex.Spec.ContractAbi

/-! # Array suffixes of type names

The parser behind the element type. The loop over an array length advances its pointer and its
index together, so it copies every other character: a single digit is read as it stands, two or
three digits become a smaller number, and with four or more the loop leaves the string, as it does
without a closing bracket.
-/

namespace Iotex

open Spec

/-- Characters behind the opening bracket are counted from the one that follows it. -/
theorem charAt_suffix (before suffix : Bytes) (index : ℕ) :
    charAt (before ++ 91 :: suffix) (before.length + 1 + index) = charAt suffix index := by
  have split : before.length + 1 + index = before.length + (index + 1) := by omega
  rw [split, charAt, charAt, List.length_append, List.length_cons]
  simp only [Nat.add_lt_add_iff_left, Nat.add_lt_add_iff_right, Nat.add_left_cancel_iff, Nat.add_right_cancel_iff,
    List.getD_eq_getElem?_getD]
  rw [List.getElem?_append_right (by omega), Nat.add_sub_cancel_left, List.getElem?_cons_succ]

theorem charAt_cases (text : Bytes) (index : ℕ) :
    (∃ char, charAt text index = .ok char) ∨ charAt text index = .error .outOfBounds := by
  rw [charAt]
  split_ifs
  · exact .inl ⟨_, rfl⟩
  · exact .inl ⟨_, rfl⟩
  · exact .inr rfl

theorem charAt_inside {text : Bytes} {index : ℕ} (inside : index ≤ text.length) :
    charAt text index = .ok (text.getD index 0) := by
  rw [charAt]
  split_ifs with before
  · rfl
  · rw [List.getD_eq_getElem?_getD, List.getElem?_eq_none (by omega), Option.getD_none]
  · omega

/-! ## The loop over an array length -/

/-- One step of the loop at a character other than the closing bracket. -/
theorem copyArraySize_step {str : Bytes} {char : UInt8} (left i pCurr : ℕ) (buf : Bytes)
    (read : charAt str pCurr = .ok char) (other : char ≠ 93) :
    copyArraySize str (left + 1) i pCurr buf = (do
      let char ← charAt str (pCurr + i)
      copyArraySize str left (i + 1) (pCurr + 1) (buf ++ [char])) := by
  rw [copyArraySize, read, ok_bind, if_neg other]

/-- The loop stops at the closing bracket. -/
theorem copyArraySize_stop {str : Bytes} (left i pCurr : ℕ) (buf : Bytes) (read : charAt str pCurr = .ok 93) :
    copyArraySize str left i pCurr buf = .ok (pCurr, buf) := by
  cases left with
  | zero => rfl
  | succ left => rw [copyArraySize, read, ok_bind, if_pos rfl, pure_eq_ok]

private theorem everyOther_drop {count i : ℕ} (more : i < count) (text : Bytes) :
    everyOther (count - i) (text.drop (2 * i)) =
      text.getD (i + i) 0 :: everyOther (count - (i + 1)) (text.drop (2 * (i + 1))) := by
  have next : count - i = count - (i + 1) + 1 := by omega
  have behind : 2 * (i + 1) = i + i + 2 := by omega
  rw [next, behind, everyOther, List.drop_drop, List.headD_eq_head?_getD, List.head?_drop,
    List.getD_eq_getElem?_getD, Nat.two_mul]

/-- The loop from an index up to the first closing bracket. -/
theorem copyArraySize_run (before : Bytes) {number rest : Bytes} (unclosed : 93 ∉ number) {left i : ℕ}
    (inside : i ≤ number.length) (room : number.length ≤ left + i) (buf : Bytes) :
    copyArraySize (before ++ 91 :: (number ++ 93 :: rest)) left i (before.length + 1 + i) buf =
      if number.length = i ∨ number.length ≤ rest.length + 3 then
        .ok (before.length + 1 + number.length,
          buf ++ everyOther (number.length - i) ((number ++ 93 :: rest).drop (2 * i)))
      else .error .outOfBounds := by
  induction left generalizing i buf with
  | zero =>
    obtain rfl : i = number.length := by omega
    rw [if_pos (.inl rfl), Nat.sub_self, everyOther, List.append_nil]
    rfl
  | succ left ih =>
    rcases inside.eq_or_lt with rfl | small
    · have closing : charAt (before ++ 91 :: (number ++ 93 :: rest)) (before.length + 1 + number.length) = .ok 93 := by
        rw [charAt_suffix, charAt_append]
      rw [copyArraySize_stop _ _ _ _ closing, if_pos (.inl rfl), Nat.sub_self, everyOther, List.append_nil]
    · have read : charAt (before ++ 91 :: (number ++ 93 :: rest)) (before.length + 1 + i) = .ok number[i] := by
        rw [charAt_suffix, charAt_inside (by rw [List.length_append]; omega), List.getD_eq_getElem?_getD,
          List.getElem?_append_left small, List.getElem?_eq_getElem small, Option.getD_some]
      have other : number[i] ≠ 93 := fun same => unclosed (same ▸ List.getElem_mem small)
      rw [copyArraySize_step left i _ _ read other, Nat.add_assoc (before.length + 1), charAt_suffix]
      rcases le_or_gt (i + i) (number ++ 93 :: rest).length with reached | beyond
      · rw [charAt_inside reached, ok_bind, Nat.add_assoc (before.length + 1), ih (by omega) (by omega),
          everyOther_drop small, List.append_assoc, List.singleton_append]
        simp only [List.length_append, List.length_cons] at reached
        have same : (number.length = i + 1 ∨ number.length ≤ rest.length + 3) ↔
            (number.length = i ∨ number.length ≤ rest.length + 3) := by omega
        simp only [same]
      · rw [charAt_beyond beyond, error_bind, if_neg]
        simp only [List.length_append, List.length_cons] at beyond
        omega

/-- Without a closing bracket the loop leaves the string or does all its iterations. -/
private theorem copyArraySize_unclosed (before : Bytes) {behind : Bytes} (unclosed : 93 ∉ behind) (left i : ℕ)
    (buf : Bytes) :
    copyArraySize (before ++ 91 :: behind) left i (before.length + 1 + i) buf = .error .outOfBounds ∨
      ∃ copied, copyArraySize (before ++ 91 :: behind) left i (before.length + 1 + i) buf =
        .ok (before.length + 1 + i + left, copied) := by
  induction left generalizing i buf with
  | zero => exact .inr ⟨buf, rfl⟩
  | succ left ih =>
    rcases charAt_cases (before ++ 91 :: behind) (before.length + 1 + i) with ⟨char, read⟩ | outside
    · have other : char ≠ 93 := by
        rintro rfl
        rw [charAt_suffix] at read
        have inside := charAt_eq_ok read
        rw [charAt_inside inside, Except.ok.injEq, List.getD_eq_getElem?_getD] at read
        cases found : behind[i]? with
        | none => simp [found] at read
        | some char =>
          rw [found, Option.getD_some] at read
          exact unclosed (read ▸ List.mem_of_getElem? found)
      rw [copyArraySize_step left i _ _ read other]
      rcases charAt_cases (before ++ 91 :: behind) (before.length + 1 + i + i) with ⟨copied, second⟩ | outside
      · have total : before.length + 1 + i + (left + 1) = before.length + 1 + (i + 1) + left := by omega
        rw [second, ok_bind, total]
        exact ih (i + 1) _
      · rw [outside, error_bind]
        exact .inl rfl
    · rw [copyArraySize, outside, error_bind]
      exact .inl rfl

/-! ## The suffix of a type -/

/-- Nothing is left behind an elementary type. -/
theorem checkIfArray_end (text : Bytes) (out : InputOutputAbi) :
    checkIfArray text text.length out = .ok (.success, out) := by
  rw [checkIfArray, if_pos rfl, pure_eq_ok]

/-- Empty brackets are a dynamic array. -/
theorem checkIfArray_dynamic (before : Bytes) (out : InputOutputAbi) :
    checkIfArray (before ++ [91, 93]) before.length out =
      .ok (.success, { out with arrayType := out.type, type := .arrayDynamic }) := by
  have bracket : charAt (before ++ [91, 93]) before.length = .ok 91 := charAt_append before 91 [93]
  have close : charAt (before ++ [91, 93]) (before.length + 1) = .ok 93 := charAt_suffix before [93] 0
  rw [checkIfArray, if_neg (by simp), bracket, ok_bind, if_neg (by simp), close, ok_bind, if_pos rfl, pure_eq_ok]

/-- Behind a bracket that is not closed at once. -/
private theorem checkIfArray_bracket (before : Bytes) {behind : Bytes} (more : behind.head? ≠ some 93)
    (out : InputOutputAbi) :
    checkIfArray (before ++ 91 :: behind) before.length out = (do
      let out := { out with arrayType := out.type, type := .arrayStatic }
      let (pCurr, buf) ← copyArraySize (before ++ 91 :: behind) (before ++ 91 :: behind).length 0 (before.length + 1) []
      if (← charAt (before ++ 91 :: behind) pCurr) ≠ 93 then return (.errorBadParameter, out)
      let arraySize ← atoi buf
      return (.success, { out with arraySize := toUint32 arraySize })) := by
  have first : charAt (before ++ 91 :: behind) (before.length + 1) = .ok (behind.getD 0 0) :=
    (charAt_suffix before behind 0).trans (charAt_inside (Nat.zero_le _))
  have other : behind.getD 0 0 ≠ 93 := by
    cases behind with
    | nil => simp
    | cons char rest => simpa using more
  rw [checkIfArray, if_neg (by simp), charAt_append, ok_bind, if_neg (by simp), first, ok_bind, if_neg other]

/-- A length that the loop gets to the end of. -/
theorem checkIfArray_closed (before : Bytes) {number rest : Bytes} (unclosed : 93 ∉ number) (some : number ≠ [])
    (out : InputOutputAbi) :
    checkIfArray (before ++ 91 :: (number ++ 93 :: rest)) before.length out =
      if number.length ≤ rest.length + 3 then do
        let arraySize ← atoi (everyOther number.length (number ++ 93 :: rest))
        return (.success, { out with arrayType := out.type, type := .arrayStatic, arraySize := toUint32 arraySize })
      else .error .outOfBounds := by
  have more : (number ++ 93 :: rest).head? ≠ Option.some 93 := by
    obtain ⟨first, others, rfl⟩ := List.exists_cons_of_ne_nil some
    rintro same
    rw [List.cons_append, List.head?_cons, Option.some.injEq] at same
    exact unclosed (same ▸ List.mem_cons_self)
  have ran := @copyArraySize_run before number rest unclosed (before ++ 91 :: (number ++ 93 :: rest)).length 0
    (Nat.zero_le _) (by simp; omega) []
  have closing : charAt (before ++ 91 :: (number ++ 93 :: rest)) (before.length + 1 + number.length) = .ok 93 := by
    rw [charAt_suffix, charAt_append]
  have positive : ¬number.length = 0 := by simpa using some
  rw [checkIfArray_bracket before more, ran]
  simp only [positive, false_or]
  split_ifs
  · simp only [ok_bind, closing, ne_eq, not_true_eq_false, ↓reduceIte, List.nil_append, Nat.sub_zero, Nat.mul_zero,
      List.drop_zero]
  · rfl

/-- A bracket that is never closed takes the parser out of the string. -/
theorem checkIfArray_unclosed (before : Bytes) {behind : Bytes} (unclosed : 93 ∉ behind) (out : InputOutputAbi) :
    checkIfArray (before ++ 91 :: behind) before.length out = .error .outOfBounds := by
  have more : behind.head? ≠ some 93 := fun same => unclosed (List.mem_of_head? same)
  rw [checkIfArray_bracket before more]
  rcases copyArraySize_unclosed before unclosed (before ++ 91 :: behind).length 0 [] with outside | ⟨copied, ran⟩
  · rw [Nat.add_zero] at outside
    rw [outside, error_bind]
  · rw [Nat.add_zero] at ran
    have beyond : charAt (before ++ 91 :: behind) (before.length + 1 + (before ++ 91 :: behind).length) =
        .error .outOfBounds := charAt_beyond (by omega)
    simp only [ran, ok_bind, beyond, error_bind]

/-- Without a bracket the parser is done, and so it is behind empty brackets. -/
theorem checkIfArray_plain (before : Bytes) {suffix : Bytes}
    (plain : (∀ behind, suffix ≠ 91 :: behind) ∨ ∃ rest, suffix = 91 :: 93 :: rest) (out : InputOutputAbi) :
    ∃ result, checkIfArray (before ++ suffix) before.length out = .ok result := by
  rcases plain with other | ⟨rest, rfl⟩
  · cases suffix with
    | nil => exact ⟨_, by rw [List.append_nil, checkIfArray_end]⟩
    | cons char behind =>
      have bracket : char ≠ 91 := fun same => other behind (same ▸ rfl)
      rw [checkIfArray, if_neg (by simp), charAt_append, ok_bind, if_pos bracket]
      exact ⟨_, rfl⟩
  · have closing : charAt (before ++ 91 :: 93 :: rest) (before.length + 1) = .ok 93 :=
      charAt_suffix before (93 :: rest) 0
    rw [checkIfArray, if_neg (by simp), charAt_append, ok_bind, if_neg (by simp), closing, ok_bind, if_pos rfl]
    exact ⟨_, rfl⟩

/-! ## The lengths that are read -/

/-- What the loop copies for a length of up to three digits. -/
def copiedLength : Bytes → Bytes
  | [first] => [first]
  | [first, _] => [first, 93]
  | [first, _, third] => [first, third, 0]
  | _ => []

private theorem short_cases {digits : Bytes} (some : digits ≠ []) (short : digits.length ≤ 3) :
    (∃ first, digits = [first]) ∨ (∃ first second, digits = [first, second]) ∨
      ∃ first second third, digits = [first, second, third] := by
  have positive := List.length_pos_iff.mpr some
  rcases (by omega : digits.length = 1 ∨ digits.length = 2 ∨ digits.length = 3) with one | two | three
  · exact .inl (List.length_eq_one_iff.mp one)
  · exact .inr (.inl (List.length_eq_two.mp two))
  · exact .inr (.inr (List.length_eq_three.mp three))

/-- For a length of up to three digits these are the characters at every other index. -/
private theorem everyOther_short {digits : Bytes} (some : digits ≠ []) (short : digits.length ≤ 3) :
    everyOther digits.length (digits ++ [93]) = copiedLength digits := by
  rcases short_cases some short with ⟨first, rfl⟩ | ⟨first, second, rfl⟩ | ⟨first, second, third, rfl⟩ <;> rfl

private theorem unclosed_digits {digits : Bytes} (each : ∀ char ∈ digits, isDigit char = true) : 93 ∉ digits :=
  fun member => absurd (each 93 member) (by decide)

/-- A length of up to three digits is the number that the copied characters denote. -/
theorem checkIfArray_short (before : Bytes) {digits : Bytes} (each : ∀ char ∈ digits, isDigit char = true)
    (some : digits ≠ []) (short : digits.length ≤ 3) {count : ℕ} (read : atoi (copiedLength digits) = .ok (count : ℤ))
    (bound : count < 2 ^ 32) (out : InputOutputAbi) :
    checkIfArray (before ++ 91 :: (digits ++ [93])) before.length out =
      .ok (.success, { out with arrayType := out.type, type := .arrayStatic, arraySize := UInt32.ofNat count }) := by
  have converted : toUint32 (count : ℤ) = UInt32.ofNat count := by
    rw [toUint32]
    congr 1
    omega
  rw [checkIfArray_closed before (unclosed_digits each) some, if_pos (by simpa using short),
    everyOther_short some short, read, ok_bind, converted, pure_eq_ok]

/-- With four or more digits the index runs past the terminating NUL before the bracket is reached. -/
theorem checkIfArray_long (before : Bytes) {digits : Bytes} (each : ∀ char ∈ digits, isDigit char = true)
    (long : 4 ≤ digits.length) (out : InputOutputAbi) :
    checkIfArray (before ++ 91 :: (digits ++ [93])) before.length out = .error .outOfBounds := by
  have some : digits ≠ [] := List.ne_nil_of_length_pos (by omega)
  rw [checkIfArray_closed before (unclosed_digits each) some, if_neg]
  rw [List.length_nil]
  omega

/-- A single digit is read as it stands. -/
private theorem atoi_copiedLength_one {digit : UInt8} (isDigit : isDigit digit = true) :
    atoi (copiedLength [digit]) = .ok (decimalValue [digit] : ℤ) := by
  have bound := decimalValue_lt [digit] (by simpa using isDigit)
  have read := atoi_digits [digit] [] (by simpa using isDigit) (by simp) (by simp) (by simp) (by
    rw [List.length_singleton] at bound
    omega)
  exact read

/-- Of two digits the second is lost. -/
private theorem atoi_copiedLength_two {first second : UInt8} (isDigit : isDigit first = true) :
    atoi (copiedLength [first, second]) = .ok (decimalValue [first] : ℤ) := by
  have bound := decimalValue_lt [first] (by simpa using isDigit)
  exact atoi_digits [first] [93] (by simpa using isDigit) (by simp) (by simp; decide) (by simp) (by
    rw [List.length_singleton] at bound
    omega)

/-- Of three digits the second is lost. -/
private theorem atoi_copiedLength_three {first second third : UInt8} (digit : isDigit first = true)
    (last : isDigit third = true) :
    atoi (copiedLength [first, second, third]) = .ok (decimalValue [first, third] : ℤ) := by
  have each : ∀ char ∈ [first, third], isDigit char = true := by simp [digit, last]
  have bound := decimalValue_lt _ each
  have plain : cString [first, third] = [first, third] := cString_of_noNul fun nul => absurd (each 0 nul) (by decide)
  have cut : cString (copiedLength [first, second, third]) = cString [first, third] := by
    change cString ([first, third] ++ [0]) = _
    rw [plain, cString, List.takeWhile_append_of_pos, List.takeWhile_cons_of_neg (by simp), List.append_nil]
    intro char member
    simpa using fun (nul : char = 0) => absurd (each 0 (nul ▸ member)) (by decide)
  have read := atoi_digits _ [] each (by simp) (by simp) (by simp) (by
    simp only [List.length_cons, List.length_nil] at bound
    omega)
  rw [List.append_nil] at read
  rw [← atoi_cString, cut, atoi_cString, read]

/-- Up to three digits give a number: the digit itself, or one with fewer digits than were written. -/
theorem atoi_copiedLength {digits : Bytes} (each : ∀ char ∈ digits, isDigit char = true) (some : digits ≠ [])
    (short : digits.length ≤ 3) :
    ∃ count : ℕ, atoi (copiedLength digits) = .ok (count : ℤ) ∧ count < 100 ∧
      (digits.length = 1 → count = decimalValue digits) ∧
      (digits.length ≠ 1 → (decimal count).length < digits.length) := by
  rcases short_cases some short with ⟨first, rfl⟩ | ⟨first, second, rfl⟩ | ⟨first, second, third, rfl⟩
  · have bound := decimalValue_lt _ each
    refine ⟨_, atoi_copiedLength_one (each first (by simp)), ?_, fun _ => rfl, fun several => absurd rfl several⟩
    rw [List.length_singleton] at bound
    omega
  · have bound := decimalValue_lt [first] (by simpa using each first (by simp))
    rw [List.length_singleton] at bound
    refine ⟨_, atoi_copiedLength_two (each first (by simp)), by omega, by simp, ?_⟩
    intro _
    exact Nat.lt_of_le_of_lt (decimal_length_le _ (by omega) bound) (by simp)
  · have bound := decimalValue_lt [first, third]
      (by simpa using ⟨each first (by simp), each third (by simp)⟩)
    simp only [List.length_cons, List.length_nil] at bound
    refine ⟨_, atoi_copiedLength_three (each first (by simp)) (each third (by simp)), by omega, by simp, ?_⟩
    intro _
    exact Nat.lt_of_le_of_lt (decimal_length_le _ (by omega) bound) (by simp)

/-! ## What the names of the grammar are read as -/

theorem Spec.ElementaryType.parsed_type (type : ElementaryType) (out : InputOutputAbi) :
    (type.parsed out).type = type.tag := by
  rw [ElementaryType.parsed]
  split <;> rfl

/-- An elementary type, a bare integer with its full width. -/
theorem getType_elementary (type : ElementaryType) (out : InputOutputAbi) :
    getTypeAndSizeFromString (AbiType.elementary type).text out =
      .ok (.success, if type.isBare then { out with type := type.tag, sizeBytes := 32 } else type.parsed out) := by
  by_cases bare : type.isBare = true
  · rw [if_pos bare]
    exact getTypeAndSizeFromString_bare (.elementary type) out bare
  · rw [if_neg bare, getTypeAndSizeFromString_eq (.elementary type) out bare, AbiType.text, AbiType.element,
      AbiType.suffix, List.append_nil, checkIfArray_end]

theorem getType_dynamicArray (element : ElementaryType) (out : InputOutputAbi) :
    getTypeAndSizeFromString (AbiType.dynamicArray element).text out =
      .ok (.success, { element.parsed out with arrayType := element.tag, type := .arrayDynamic }) := by
  have brackets : (AbiType.dynamicArray element).text = element.text ++ [91, 93] := rfl
  rw [getTypeAndSizeFromString_eq (.dynamicArray element) out id, brackets, AbiType.element, checkIfArray_dynamic,
    ElementaryType.parsed_type]

/-- An array with a length of up to three digits, read exactly when it has one. -/
theorem getType_fixedArray_short (element : ElementaryType) {length : ArrayLength}
    (short : (decimal length.count).length ≤ 3) (out : InputOutputAbi) :
    ∃ count : ℕ, count < 100 ∧
      getTypeAndSizeFromString (AbiType.fixedArray element length).text out = .ok (.success,
        { element.parsed out with
          arrayType := element.tag, type := .arrayStatic, arraySize := UInt32.ofNat count }) ∧
      ((decimal length.count).length = 1 → count = length.count) ∧
      ((decimal length.count).length ≠ 1 → (decimal count).length < (decimal length.count).length) := by
  have brackets : (AbiType.fixedArray element length).text = element.text ++ 91 :: (decimal length.count ++ [93]) := rfl
  obtain ⟨count, number, bound, single, several⟩ :=
    atoi_copiedLength (isDigit_decimal length.count) (decimal_ne_nil _) short
  rw [decimalValue_decimal] at single
  refine ⟨count, bound, ?_, single, several⟩
  rw [getTypeAndSizeFromString_eq (.fixedArray element length) out id, brackets, AbiType.element,
    checkIfArray_short _ (isDigit_decimal _) (decimal_ne_nil _) short number (by omega), ElementaryType.parsed_type]

/-- A length of more digits takes the parser out of the string. -/
theorem getType_fixedArray_long (element : ElementaryType) {length : ArrayLength}
    (long : ¬(decimal length.count).length ≤ 3) (out : InputOutputAbi) :
    getTypeAndSizeFromString (AbiType.fixedArray element length).text out = .error .outOfBounds := by
  have brackets : (AbiType.fixedArray element length).text = element.text ++ 91 :: (decimal length.count ++ [93]) := rfl
  rw [getTypeAndSizeFromString_eq (.fixedArray element length) out id, brackets, AbiType.element,
    checkIfArray_long _ (isDigit_decimal _) (by omega)]

/-- Numbers below ten have one digit. -/
theorem decimal_length_eq_one {count : ℕ} : (decimal count).length = 1 ↔ count < 10 := by
  constructor
  · intro one
    have bound := decimalValue_lt _ (isDigit_decimal count)
    rwa [decimalValue_decimal, one, pow_one] at bound
  · intro small
    have upper := decimal_length_le count (le_refl 1) (by omega)
    have lower := List.length_pos_iff.mpr (decimal_ne_nil count)
    omega

end Iotex
