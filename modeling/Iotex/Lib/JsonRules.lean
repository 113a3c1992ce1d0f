import Iotex.Lib.Json

/-! # Composing JSON texts

`Reads text value` says that the parser, started on `text` followed by anything a value may be
followed by, consumes exactly `text` and returns `value`. The rules below build such facts for
the texts a printer produces, one rule for each production that a printer of objects, plain
strings, booleans and whole numbers uses.
-/

namespace Iotex.Json

/-- What may directly follow a value: nothing that could extend a number. -/
def EndsValue (rest : Bytes) : Prop :=
  ∀ char ∈ rest.head?, isDigit char = false ∧ char ≠ 46 ∧ char ≠ 101 ∧ char ≠ 69

def Reads (text : Bytes) (value : Json) : Prop :=
  ∀ fuel rest, text.length < fuel → EndsValue rest → parseValue fuel (text ++ rest) = some (value, rest)

/-- The same for the members of an object, up to and with the closing brace. -/
def ReadsMembers (text : Bytes) (members : List (Bytes × Json)) : Prop :=
  ∀ fuel rest, text.length < fuel → parseMembers fuel (text ++ rest) = some (members, rest)

theorem endsValue_of_close {char : UInt8} (rest : Bytes) (close : char = 44 ∨ char = 125 ∨ char = 93) :
    EndsValue (char :: rest) := by
  intro other present
  obtain rfl : char = other := by simpa using present
  rcases close with rfl | rfl | rfl <;> decide

theorem skipSpace_cons {char : UInt8} (rest : Bytes) (visible : isSpace char = false) :
    skipSpace (char :: rest) = char :: rest := by
  simp only [skipSpace, List.dropWhile_cons, visible, Bool.false_eq_true, ↓reduceIte]

theorem skipSpace_space (rest : Bytes) : skipSpace (32 :: rest) = skipSpace rest := rfl

theorem plain_digits {text : Bytes} (digits : ∀ char ∈ text, isDigit char = true) : PlainText text := by
  intro char member
  have digit := digits char member
  have quote : char ≠ 34 := by
    rintro rfl
    exact absurd digit (by decide)
  have backslash : char ≠ 92 := by
    rintro rfl
    exact absurd digit (by decide)
  simp only [isDigit, Bool.and_eq_true, decide_eq_true_eq] at digit
  simp only [isPlain, Bool.and_eq_true, decide_eq_true_eq, bne_iff_ne]
  exact ⟨⟨by omega, quote⟩, backslash⟩

/-- A plain text ends exactly at the quote behind it. -/
theorem parseChars_plain (text rest : Bytes) (plain : PlainText text) :
    parseChars (text ++ 34 :: rest) = some (text, rest) := by
  induction text with
  | nil =>
    rw [List.nil_append, parseChars.eq_def]
    rfl
  | cons char text ih =>
    have head := plain char (List.mem_cons_self ..)
    simp only [isPlain, Bool.and_eq_true, decide_eq_true_eq, bne_iff_ne, ne_eq] at head
    obtain ⟨⟨control, quote⟩, backslash⟩ := head
    have tail := ih fun other member => plain other (List.mem_cons_of_mem _ member)
    rw [List.cons_append, parseChars.eq_def]
    simp only [if_neg quote, if_neg backslash, if_neg (show ¬ char.toNat < 32 by omega), tail, bind,
      Option.bind_some]

private theorem span_digits (digits rest : Bytes) (inside : ∀ char ∈ digits, isDigit char = true)
    (boundary : EndsValue rest) : (digits ++ rest).span isDigit = (digits, rest) := by
  rw [List.span_eq_takeWhile_dropWhile, List.takeWhile_append_of_pos inside,
    List.dropWhile_append_of_pos inside]
  cases rest with
  | nil => simp
  | cons char rest =>
    have stop := (boundary char rfl).1
    simp [stop]

private theorem parseFraction_none (rest : Bytes) (boundary : EndsValue rest) :
    parseFraction rest = some ([], rest) := by
  cases rest with
  | nil => rfl
  | cons char rest =>
    have stop := (boundary char rfl).2.1
    rw [parseFraction]
    rintro tail equal
    exact stop (List.cons.inj equal).1

private theorem parseExponent_none (rest : Bytes) (boundary : EndsValue rest) :
    parseExponent rest = some (0, rest) := by
  cases rest with
  | nil => rfl
  | cons char rest =>
    have stop := (boundary char rfl).2.2
    rw [parseExponent, if_neg (by tauto)]

/-- The first digit of a number's text is zero only for zero itself. -/
private theorem decimal_leading (value : ℕ) (zero : (decimal value).head? = some 48) :
    (decimal value).length = 1 := by
  rw [decimal] at zero ⊢
  split at zero
  · rename_i isZero
    rw [if_pos isZero]
    rfl
  · rename_i nonzero
    exfalso
    have nonempty : Nat.digits 10 value ≠ [] := Nat.digits_ne_nil_iff_ne_zero.mpr nonzero
    rw [List.head?_reverse, List.getLast?_map, List.getLast?_eq_some_getLast nonempty, Option.map_some,
      Option.some.injEq] at zero
    have leading := Nat.getLast_digit_ne_zero 10 nonzero
    have bound := Nat.digits_lt_base (by norm_num) (List.getLast_mem nonempty)
    have value := congrArg UInt8.toNat zero
    rw [digitChar_toNat bound] at value
    have fortyEight : (48 : UInt8).toNat = 48 := rfl
    omega

/-- The digits of a number's text are neither missing nor led by a zero. -/
private theorem decimal_whole (value : ℕ) :
    ¬(decimal value = [] ∨ ((decimal value).head? = some 48 ∧ 1 < (decimal value).length)) := by
  rintro (empty | ⟨zero, long⟩)
  · exact decimal_ne_nil value empty
  · have := decimal_leading value zero
    omega

/-- A minus sign in front of the digits. -/
theorem parseNumber_negative (value : ℕ) (rest : Bytes) (boundary : EndsValue rest) :
    parseNumber (45 :: (decimal value ++ rest)) = some (.num (-value) 0, rest) := by
  simp only [parseNumber, List.head?_cons, ↓reduceIte, List.tail_cons, span_digits _ _ (isDigit_decimal value) boundary,
    decimal_whole, parseFraction_none _ boundary, parseExponent_none _ boundary, List.append_nil, decimalValue_decimal,
    List.length_nil, Nat.cast_zero, sub_zero, bind, Option.bind_some]

theorem parseNumber_decimal (value : ℕ) (rest : Bytes) (boundary : EndsValue rest) :
    parseNumber (decimal value ++ rest) = some (.num value 0, rest) := by
  have nonempty := decimal_ne_nil value
  have digits := isDigit_decimal value
  obtain ⟨first, tail, text⟩ := List.exists_cons_of_ne_nil nonempty
  have firstDigit := digits first (by rw [text]; exact List.mem_cons_self ..)
  have unsigned : ¬ (decimal value ++ rest).head? = some 45 := by
    rw [text]
    intro sign
    obtain rfl : first = 45 := by simpa using sign
    exact absurd firstDigit (by decide)
  simp only [parseNumber, unsigned, ↓reduceIte,
    span_digits _ _ digits boundary, decimal_whole value, parseFraction_none _ boundary,
    parseExponent_none _ boundary, List.append_nil, decimalValue_decimal, List.length_nil,
    Nat.cast_zero, sub_zero, bind, Option.bind_some]

theorem Reads.decimal (value : ℕ) : Reads (decimal value) (.num value 0) := by
  intro fuel rest enough boundary
  obtain ⟨fuel, rfl⟩ : ∃ n, fuel = n + 1 := ⟨fuel - 1, by omega⟩
  obtain ⟨first, tail, text⟩ := List.exists_cons_of_ne_nil (decimal_ne_nil value)
  have firstDigit := isDigit_decimal value first (by rw [text]; exact List.mem_cons_self ..)
  have number := parseNumber_decimal value rest boundary
  rw [text, List.cons_append] at number ⊢
  -- a digit starts none of the other productions
  have other : ∀ char : UInt8, isDigit char = false → first ≠ char := by
    rintro char notDigit rfl
    rw [firstDigit] at notDigit
    contradiction
  have visible : isSpace first = false := by
    simp [isSpace, other 32 (by decide), other 9 (by decide), other 10 (by decide), other 13 (by decide)]
  have keyword : ∀ (char : UInt8) (word : Bytes), isDigit char = false →
      (char :: word).isPrefixOf (first :: (tail ++ rest)) = false := by
    intro char word notDigit
    simp [List.isPrefixOf, (other char notDigit).symm]
  rw [parseValue, skipSpace_cons _ visible]
  simp only [other 34 (by decide), other 123 (by decide), other 91 (by decide), ↓reduceIte]
  have notTrue : (ascii "true").isPrefixOf (first :: (tail ++ rest)) = false :=
    keyword 116 (ascii "rue") (by decide)
  have notFalse : (ascii "false").isPrefixOf (first :: (tail ++ rest)) = false :=
    keyword 102 (ascii "alse") (by decide)
  have notNull : (ascii "null").isPrefixOf (first :: (tail ++ rest)) = false :=
    keyword 110 (ascii "ull") (by decide)
  simp only [notTrue, notFalse, notNull, Bool.false_eq_true, ↓reduceIte]
  exact number

theorem Reads.negative (value : ℕ) : Reads (45 :: Iotex.decimal value) (.num (-value) 0) := by
  intro fuel rest enough boundary
  obtain ⟨fuel, rfl⟩ : ∃ n, fuel = n + 1 := ⟨fuel - 1, by omega⟩
  rw [List.cons_append, parseValue, skipSpace_cons _ (by decide)]
  simp only [show ¬(45 : UInt8) = 34 by decide, show ¬(45 : UInt8) = 123 by decide, show ¬(45 : UInt8) = 91 by decide,
    ↓reduceIte]
  exact parseNumber_negative value rest boundary

theorem Reads.bool (value : Bool) : Reads (ascii (if value then "true" else "false")) (.bool value) := by
  intro fuel rest enough _
  obtain ⟨fuel, rfl⟩ : ∃ n, fuel = n + 1 := ⟨fuel - 1, by omega⟩
  cases value with
  | true =>
    change parseValue (fuel + 1) (116 :: 114 :: 117 :: 101 :: rest) = _
    rw [parseValue, skipSpace_cons _ (by decide)]
    rfl
  | false =>
    change parseValue (fuel + 1) (102 :: 97 :: 108 :: 115 :: 101 :: rest) = _
    rw [parseValue, skipSpace_cons _ (by decide)]
    rfl

theorem Reads.str (text : Bytes) (plain : PlainText text) :
    Reads (34 :: (text ++ [34])) (.str text) := by
  intro fuel rest enough _
  obtain ⟨fuel, rfl⟩ : ∃ n, fuel = n + 1 := ⟨fuel - 1, by omega⟩
  rw [List.cons_append, parseValue, skipSpace_cons _ (by decide)]
  simp only [↓reduceIte, List.append_assoc, List.cons_append, List.nil_append,
    parseChars_plain text rest plain, Option.map_some]

theorem Reads.space {text : Bytes} {value : Json} (reads : Reads text value) : Reads (32 :: text) value := by
  intro fuel rest enough boundary
  obtain ⟨fuel, rfl⟩ : ∃ n, fuel = n + 1 := ⟨fuel - 1, by omega⟩
  have inner := reads (fuel + 1) rest (by simp only [List.length_cons] at enough; omega) boundary
  rw [List.cons_append, parseValue, skipSpace_space]
  rwa [parseValue] at inner

/-- The name and colon in front of a member's value. -/
theorem parseMembers_name (name rest : Bytes) (fuel : ℕ) (plain : PlainText name) :
    parseMembers (fuel + 1) (34 :: (name ++ 34 :: 58 :: rest)) =
      (parseValue fuel rest).bind fun (value, rest) =>
        match skipSpace rest with
        | 44 :: rest => (parseMembers fuel rest).bind fun (members, rest) => some ((name, value) :: members, rest)
        | 125 :: rest => some ([(name, value)], rest)
        | _ => none := by
  rw [parseMembers, skipSpace_cons _ (by decide)]
  simp only [parseChars_plain name _ plain]
  rfl

theorem ReadsMembers.last (name : Bytes) {text : Bytes} {value : Json} (plain : PlainText name)
    (reads : Reads text value) :
    ReadsMembers (34 :: (name ++ 34 :: 58 :: (text ++ [125]))) [(name, value)] := by
  intro fuel rest enough
  obtain ⟨fuel, rfl⟩ : ∃ n, fuel = n + 1 := ⟨fuel - 1, by omega⟩
  have inner := reads fuel (125 :: rest)
    (by simp only [List.length_cons, List.length_append] at enough; omega)
    (endsValue_of_close rest (by simp))
  simp only [List.cons_append, List.append_assoc, List.nil_append]
  rw [parseMembers_name name _ fuel plain, inner]
  simp only [Option.bind_some, skipSpace_cons rest (show isSpace 125 = false by decide)]

theorem ReadsMembers.cons (name : Bytes) {text more : Bytes} {value : Json} {members : List (Bytes × Json)}
    (plain : PlainText name) (reads : Reads text value) (others : ReadsMembers more members) :
    ReadsMembers (34 :: (name ++ 34 :: 58 :: (text ++ 44 :: more))) ((name, value) :: members) := by
  intro fuel rest enough
  obtain ⟨fuel, rfl⟩ : ∃ n, fuel = n + 1 := ⟨fuel - 1, by omega⟩
  simp only [List.length_cons, List.length_append] at enough
  have inner := reads fuel (44 :: (more ++ rest)) (by omega) (endsValue_of_close _ (by simp))
  have tail := others fuel rest (by omega)
  simp only [List.cons_append, List.append_assoc]
  rw [parseMembers_name name _ fuel plain, inner]
  simp only [Option.bind_some, skipSpace_cons (more ++ rest) (show isSpace 44 = false by decide), tail]

/-- A member with a string value in front of other members. -/
theorem ReadsMembers.text (name : Bytes) {text more : Bytes} {members : List (Bytes × Json)}
    (plainName : PlainText name)
    (plain : PlainText text) (others : ReadsMembers more members) :
    ReadsMembers (34 :: (name ++ 34 :: 58 :: (32 :: 34 :: (text ++ [34]) ++ 44 :: more)))
      ((name, .str text) :: members) :=
  ReadsMembers.cons name plainName (Reads.space (Reads.str text plain)) others

/-- A last member with a string value. -/
theorem ReadsMembers.lastText (name text : Bytes) (plainName : PlainText name) (plain : PlainText text) :
    ReadsMembers (34 :: (name ++ 34 :: 58 :: (32 :: 34 :: (text ++ [34]) ++ [125]))) [(name, .str text)] :=
  ReadsMembers.last name plainName (Reads.space (Reads.str text plain))

theorem Reads.obj {text : Bytes} {members : List (Bytes × Json)} (reads : ReadsMembers (34 :: text) members) :
    Reads (123 :: 34 :: text) (.obj members) := by
  intro fuel rest enough _
  obtain ⟨fuel, rfl⟩ : ∃ n, fuel = n + 1 := ⟨fuel - 1, by omega⟩
  have inner := reads fuel rest (by simp only [List.length_cons] at enough ⊢; omega)
  rw [List.cons_append] at inner
  rw [List.cons_append, List.cons_append, parseValue, skipSpace_cons _ (by decide)]
  simp only [show (123 : UInt8) ≠ 34 by decide, ↓reduceIte,
    skipSpace_cons (text ++ rest) (show isSpace 34 = false by decide), List.head?_cons,
    show ¬ some (34 : UInt8) = some 125 by decide, inner, Option.map_some]

/-- A text that reads as a value is a document with that value. -/
theorem parse_of_reads {text : Bytes} {value : Json} (reads : Reads text value) :
    parse text = some value := by
  have whole := reads (text.length + 1) [] (by omega) (by simp [EndsValue])
  rw [List.append_nil] at whole
  simp [parse, whole, skipSpace]

end Iotex.Json
