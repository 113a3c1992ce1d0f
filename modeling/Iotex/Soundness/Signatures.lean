import Iotex.Proofs.ArraySuffix

/-! # Signatures of parsed inputs

Parsing the type names of a function's inputs and printing its signature. An elementary type and an
array with a sized element type come back in canonical form, as long as the array length has one
digit; every other type is printed shorter than its canonical form, or not read at all.
-/

namespace Iotex

open Spec

namespace Spec

theorem ElementaryType.toText_tag (type : ElementaryType) : type.tag.toText = .ok type.keyword := by
  cases type <;> rfl

theorem ElementaryType.noNul_keyword (type : ElementaryType) : (0 : UInt8) ∉ type.keyword := by
  cases type
  all_goals
    change (0 : UInt8) ∉ ascii _
    decide

theorem noNul_of_digits {digits : Bytes} (each : ∀ char ∈ digits, isDigit char = true) : (0 : UInt8) ∉ digits :=
  fun nul => absurd (each 0 nul) (by decide)

theorem AbiType.noNul_text (type : AbiType) : (0 : UInt8) ∉ type.text := by
  have suffix : (0 : UInt8) ∉ type.suffix := by
    cases type with
    | elementary type => simp [AbiType.suffix]
    | dynamicArray element => simp [AbiType.suffix, ascii]
    | fixedArray element length => simp [AbiType.suffix, noNul_of_digits (isDigit_decimal _)]
  rw [AbiType.text, ElementaryType.text, List.mem_append, List.mem_append]
  rintro ((keyword | digits) | behind)
  · exact type.element.noNul_keyword keyword
  · exact noNul_of_digits type.element.isDigit_digits digits
  · exact suffix behind

end Spec

/-! ## Printing -/

/-- The width that is printed for an integer. -/
private theorem width_bits (width : ByteWidth) : formatD (UInt32.ofNat width.bytes * 8) =
      decimal (8 * width.bytes) := by
  have bound := width.bound
  have value : (UInt32.ofNat width.bytes * 8).toNat = 8 * width.bytes := by
    rw [UInt32.toNat_mul, UInt32.toNat_ofNat']
    change width.bytes % 2 ^ 32 * 8 % 2 ^ 32 = _
    omega
  rw [formatD_of_lt (by omega), value]

private theorem width_toNat (width : ByteWidth) : (UInt32.ofNat width.bytes).toNat = width.bytes := by
  have bound := width.bound
  rw [UInt32.toNat_ofNat']
  omega

/-- A type with its width is printed as it was written. -/
theorem signatureOfInput_sized {type : ElementaryType} (sized : type.isBare = false) (out : InputOutputAbi) :
    signatureOfInput (type.parsed out) = .ok type.text := by
  have bytes (width : ByteWidth) : formatD (UInt32.ofNat width.bytes) = decimal width.bytes := by
    have bound := width.bound
    rw [formatD_of_lt (by rw [width_toNat]; omega), width_toNat]
  cases type with
  | uint width =>
    cases width with
    | none => simp [ElementaryType.isBare] at sized
    | some width => exact congrArg (fun text => Except.ok (ascii "uint" ++ text)) (width_bits width)
  | int width =>
    cases width with
    | none => simp [ElementaryType.isBare] at sized
    | some width => exact congrArg (fun text => Except.ok (ascii "int" ++ text)) (width_bits width)
  | bytesN width => exact congrArg (fun text => Except.ok (ascii "bytes" ++ text)) (bytes width)
  | _ => rfl

/-- A bare integer is printed with its default width. -/
theorem signatureOfInput_bare {type : ElementaryType} (bare : type.isBare = true) (out : InputOutputAbi) :
    signatureOfInput { out with type := type.tag, sizeBytes := 32 } = .ok type.canonical := by
  have bits : formatD (32 * 8) = ascii "256" := by decide
  cases type with
  | uint width =>
    obtain rfl : width = none := by cases width <;> simp [ElementaryType.isBare] at bare ⊢
    exact congrArg (fun text => Except.ok (ascii "uint" ++ text)) bits
  | int width =>
    obtain rfl : width = none := by cases width <;> simp [ElementaryType.isBare] at bare ⊢
    exact congrArg (fun text => Except.ok (ascii "int" ++ text)) bits
  | _ => simp [ElementaryType.isBare] at bare

/-- The digits that are printed for the element type of an array. -/
private theorem elementSize_eq (type : ElementaryType) (out : InputOutputAbi) (unset : out.arrayTypeSizeBytes = 0) :
    (if 0 < (type.parsed out).arrayTypeSizeBytes then
      if type.tag = .int ∨ type.tag = .uint then decimal ((type.parsed out).arrayTypeSizeBytes.toNat * 8)
      else decimal (type.parsed out).arrayTypeSizeBytes.toNat
    else []) = type.digits := by
  have positive (width : ByteWidth) : (0 : UInt32) < UInt32.ofNat width.bytes := by
    have := width.positive
    rw [UInt32.lt_iff_toNat_lt, width_toNat]
    exact this
  rcases type with (_ | width) | (_ | width) | _ | _ | _ | _ | width
  all_goals
    simp only [ElementaryType.parsed, ElementaryType.parsedWidth, ElementaryType.tag, ElementaryType.digits, unset,
      Option.elim]
  case uint.some | int.some => simp only [positive, width_toNat, Nat.mul_comm, or_true, true_or, ↓reduceIte]
  case bytesN => simp [positive, -UInt32.toNat_ofNat', width_toNat]
  all_goals simp

/-- An array is printed with its element type as it was written. -/
theorem signatureOfInput_array (element : ElementaryType) (out : InputOutputAbi) (unset : out.arrayTypeSizeBytes = 0)
    {type : EthereumTypeName} (array : type = .arrayStatic ∨ type = .arrayDynamic) (arraySize : UInt32) :
    signatureOfInput { element.parsed out with arrayType := element.tag, type := type, arraySize := arraySize } =
      .ok (element.text ++ ([91] ++ (if type = .arrayStatic then formatD arraySize else []) ++ [93])) := by
  have size := elementSize_eq element out unset
  have table : EthereumTypeName.toText .arrayStatic = .ok [] ∧ EthereumTypeName.toText .arrayDynamic = .ok [] :=
    ⟨rfl, rfl⟩
  rcases array with rfl | rfl
  all_goals
    rw [signatureOfInput]
    simp only [ElementaryType.toText_tag, size, table, ok_bind, pure_eq_ok]
    simp [ElementaryType.text]

/-- The pieces of the inputs are separated by commas. -/
theorem signatureOfInputs_pieces {inputs : List InputOutputAbi} {pieces : List Bytes}
    (printed : List.Forall₂ (fun input piece => signatureOfInput input = .ok piece) inputs pieces) :
    signatureOfInputs inputs = .ok (commaSeparated pieces) := by
  induction printed with
  | nil => rfl
  | @cons input piece inputs pieces head tail ih =>
    cases tail with
    | nil => simp [signatureOfInputs, head, commaSeparated]
    | @cons next other _ _ _ _ =>
      rw [signatureOfInputs, head, ok_bind, ih, ok_bind, pure_eq_ok]
      · simp [commaSeparated]
      · simp

/-! ## Parsing -/

/-- The object that a type string is parsed into. -/
private def target (entry : AbiEntry) : InputOutputAbi :=
  { InputOutputAbi.construct entry.memory with name := cString entry.name }

/-- An entry is parsed as its type string. -/
private theorem parseInputOutput_entry (entry : AbiEntry) :
    parseInputOutput entry.json (InputOutputAbi.construct entry.memory) = (do
      let (ret, out) ← getTypeAndSizeFromString entry.type.text (target entry)
      if ret ≠ .success then return (ret, out)
      if out.type = .tupleDynamic ∨ out.type = .tupleStatic then return (.errorWrongType, out)
      return (.success, out)) := by
  have name : setStringFromJsonObject (some (.str entry.name)) (InputOutputAbi.construct entry.memory).name 0 =
      (.success, cString entry.name) := by
    simp only [setStringFromJsonObject, lt_irrefl, false_and, ↓reduceIte]
  rw [parseInputOutput, entry.nameGiven, name]
  simp only [ne_eq, not_true_eq_false, ↓reduceIte]
  rw [entry.typeGiven, setStringFromJsonObject_str entry.type.noNul_text]
  simp only [not_true_eq_false, ↓reduceIte]
  rfl

/-- A type string that was read is the result, unless it was a tuple. -/
private theorem parse_of_read {entry : AbiEntry} {input : InputOutputAbi}
    (read : getTypeAndSizeFromString entry.type.text (target entry) = .ok (.success, input))
    (other : input.type ≠ .tupleDynamic ∧ input.type ≠ .tupleStatic) :
    parseInputOutput entry.json (InputOutputAbi.construct entry.memory) = .ok (.success, input) := by
  rw [parseInputOutput_entry, read, ok_bind]
  simp only [ne_eq, not_true_eq_false, ↓reduceIte, other, or_self, pure_eq_ok]

private theorem tag_other (type : ElementaryType) : type.tag ≠ .tupleDynamic ∧ type.tag ≠ .tupleStatic := by
  cases type <;> exact ⟨nofun, nofun⟩

/-- An elementary type is parsed and printed in canonical form. -/
private theorem print_elementary {entry : AbiEntry} {type : ElementaryType} (same : entry.type = .elementary type) :
    ∃ input, parseInputOutput entry.json (InputOutputAbi.construct entry.memory) = .ok (.success, input) ∧
      signatureOfInput input = .ok entry.type.canonical := by
  have read := getType_elementary type (target entry)
  rw [← same] at read
  refine ⟨_, parse_of_read read ?_, ?_⟩
  · split_ifs
    · exact tag_other type
    · rw [ElementaryType.parsed_type]
      exact tag_other type
  · rw [same, AbiType.canonical, AbiType.suffix, AbiType.element, List.append_nil]
    split_ifs with bare
    · exact signatureOfInput_bare bare (target entry)
    · rw [ElementaryType.canonical, if_neg bare, List.append_nil]
      exact signatureOfInput_sized (by simpa using bare) (target entry)

/-- A dynamic array is parsed and printed with its element type as it was written. -/
private theorem print_dynamicArray {entry : AbiEntry} {element : ElementaryType}
    (same : entry.type = .dynamicArray element) :
    ∃ input, parseInputOutput entry.json (InputOutputAbi.construct entry.memory) = .ok (.success, input) ∧
      signatureOfInput input = .ok (element.text ++ ascii "[]") := by
  have read := getType_dynamicArray element (target entry)
  rw [← same] at read
  refine ⟨_, parse_of_read read (by simp), ?_⟩
  exact signatureOfInput_array element (target entry) rfl (.inr rfl) (element.parsed (target entry)).arraySize

/-- A fixed array is printed with the length that the digits were read as. -/
private theorem print_fixedArray {entry : AbiEntry} {element : ElementaryType} {length : ArrayLength}
    (same : entry.type = .fixedArray element length) (short : (decimal length.count).length ≤ 3) :
    ∃ input, ∃ count : ℕ,
      parseInputOutput entry.json (InputOutputAbi.construct entry.memory) = .ok (.success, input) ∧
      signatureOfInput input = .ok (element.text ++ (91 :: decimal count ++ [93])) ∧
      ((decimal length.count).length = 1 → count = length.count) ∧
      ((decimal length.count).length ≠ 1 → (decimal count).length < (decimal length.count).length) := by
  obtain ⟨count, bound, read, single, several⟩ := getType_fixedArray_short element short (target entry)
  rw [← same] at read
  refine ⟨_, count, parse_of_read read (by simp), ?_, single, several⟩
  have value : (UInt32.ofNat count).toNat = count := by
    rw [UInt32.toNat_ofNat']
    omega
  have printed := signatureOfInput_array element (target entry) rfl (.inl rfl) (UInt32.ofNat count)
  rw [if_pos rfl, formatD_of_lt (by omega), value] at printed
  exact printed

/-! ## The types that are printed canonically -/

private theorem canonical_length (type : ElementaryType) :
    type.text.length ≤ type.canonical.length ∧ (type.isBare = true → type.text.length < type.canonical.length) := by
  rw [ElementaryType.canonical, List.length_append]
  constructor
  · omega
  · intro bare
    rw [if_pos bare]
    simp [ascii]

private theorem canonical_of_sized {type : ElementaryType} (sized : type.isBare = false) :
    type.canonical = type.text := by
  rw [ElementaryType.canonical, sized]
  simp

/-- An entry of a printable type survives parsing and printing. -/
theorem parse_print {entry : AbiEntry} (printable : entry.type.Printable) :
    ∃ input, parseInputOutput entry.json (InputOutputAbi.construct entry.memory) = .ok (.success, input) ∧
      signatureOfInput input = .ok entry.type.canonical := by
  cases same : entry.type with
  | elementary type => exact same ▸ print_elementary same
  | dynamicArray element =>
    rw [same] at printable
    obtain ⟨input, parsed, printed⟩ := print_dynamicArray same
    refine ⟨input, parsed, ?_⟩
    rw [printed, AbiType.canonical, AbiType.element, canonical_of_sized printable]
    rfl
  | fixedArray element length =>
    rw [same] at printable
    have one := decimal_length_eq_one.mpr printable.2
    obtain ⟨input, count, parsed, printed, single, -⟩ := print_fixedArray same (by omega)
    refine ⟨input, parsed, ?_⟩
    rw [printed, single one, AbiType.canonical, AbiType.element, canonical_of_sized printable.1]
    rfl

/-- An entry of any other type is printed shorter than it should be, if it is parsed at all. -/
theorem parse_print_short {entry : AbiEntry} (unprintable : ¬entry.type.Printable) {input : InputOutputAbi}
    (parsed : parseInputOutput entry.json (InputOutputAbi.construct entry.memory) = .ok (.success, input)) :
    ∃ piece, signatureOfInput input = .ok piece ∧ piece.length < entry.type.canonical.length := by
  cases same : entry.type with
  | elementary type => exact absurd (same ▸ trivial) unprintable
  | dynamicArray element =>
    have bare : element.isBare = true := by simpa [same, AbiType.Printable] using unprintable
    obtain ⟨other, read, printed⟩ := print_dynamicArray same
    obtain rfl : other = input := (Prod.mk.inj (Except.ok.inj (read.symm.trans parsed))).2
    refine ⟨_, printed, ?_⟩
    have longer := (canonical_length element).2 bare
    rw [AbiType.canonical, AbiType.element, AbiType.suffix, List.length_append, List.length_append]
    omega
  | fixedArray element length =>
    by_cases short : (decimal length.count).length ≤ 3
    · obtain ⟨other, count, read, printed, single, several⟩ := print_fixedArray same short
      obtain rfl : other = input := (Prod.mk.inj (Except.ok.inj (read.symm.trans parsed))).2
      refine ⟨_, printed, ?_⟩
      have longer := canonical_length element
      have failing : element.isBare = true ∨ (decimal length.count).length ≠ 1 := by
        by_contra both
        rw [not_or, not_not, decimal_length_eq_one, Bool.not_eq_true] at both
        exact unprintable (same ▸ both)
      have count : (decimal count).length ≤ (decimal length.count).length := by
        by_cases one : (decimal length.count).length = 1
        · rw [single one]
        · exact (several one).le
      simp only [AbiType.canonical, AbiType.element, AbiType.suffix, List.length_append, List.length_cons]
      rcases failing with bare | more
      · have := longer.2 bare
        omega
      · have := several more
        omega
    · have read := getType_fixedArray_long element short (target entry)
      rw [← same] at read
      rw [parseInputOutput_entry, read, error_bind] at parsed
      simp at parsed

/-! ## Lists of inputs -/

/-- The entries are parsed, and every function with the parsed inputs has the canonical signature. -/
def SurviveParsing (entries : List AbiEntry) : Prop :=
  ∃ inputs, List.Forall₂ (fun entry input =>
      parseInputOutput entry.json (InputOutputAbi.construct entry.memory) = .ok (.success, input)) entries inputs ∧
    ∀ function : FunctionAbi, function.inputs = inputs → function.getSignature =
      .ok (function.name ++ [40] ++ commaSeparated (entries.map fun entry => entry.type.canonical) ++ [41])

private theorem commaSeparated_length (pieces : List Bytes) :
    (commaSeparated pieces).length = (pieces.map List.length).sum + (pieces.length - 1) := by
  induction pieces with
  | nil => rfl
  | cons piece rest ih =>
    cases rest with
    | nil => simp [commaSeparated]
    | cons next rest =>
      simp only [commaSeparated, List.intersperse_cons_cons, List.flatten_cons, List.length_append, List.map_cons,
        List.sum_cons, List.length_cons, List.length_nil] at ih ⊢
      omega

/-- The printed pieces of parsed entries are together no longer than the canonical forms, and shorter
when a type is not printable. -/
private theorem pieces_of_parsed {entries : List AbiEntry} {inputs : List InputOutputAbi}
    (parsed : List.Forall₂ (fun entry input =>
      parseInputOutput entry.json (InputOutputAbi.construct entry.memory) = .ok (.success, input)) entries inputs) :
    ∃ pieces : List Bytes, List.Forall₂ (fun input piece => signatureOfInput input = .ok piece) inputs pieces ∧
      pieces.length = entries.length ∧
      (pieces.map List.length).sum ≤ (entries.map fun entry => entry.type.canonical.length).sum ∧
      ((∃ entry ∈ entries, ¬entry.type.Printable) →
        (pieces.map List.length).sum < (entries.map fun entry => entry.type.canonical.length).sum) := by
  induction parsed with
  | nil => exact ⟨[], .nil, rfl, le_refl _, by simp⟩
  | @cons entry input entries inputs head tail ih =>
    obtain ⟨pieces, printed, count, bound, shorter⟩ := ih
    have piece : ∃ piece, signatureOfInput input = .ok piece ∧ piece.length ≤ entry.type.canonical.length ∧
        (¬entry.type.Printable → piece.length < entry.type.canonical.length) := by
      by_cases printable : entry.type.Printable
      · obtain ⟨other, read, same⟩ := parse_print printable
        obtain rfl : other = input := (Prod.mk.inj (Except.ok.inj (read.symm.trans head))).2
        exact ⟨_, same, le_refl _, fun unprintable => absurd printable unprintable⟩
      · obtain ⟨piece, same, less⟩ := parse_print_short printable head
        exact ⟨piece, same, less.le, fun _ => less⟩
    obtain ⟨piece, first, most, less⟩ := piece
    refine ⟨piece :: pieces, .cons first printed, by rw [List.length_cons, List.length_cons, count], ?_, ?_⟩
    · simp only [List.map_cons, List.sum_cons]
      omega
    · simp only [List.map_cons, List.sum_cons]
      rintro ⟨other, member, unprintable⟩
      rcases List.mem_cons.mp member with rfl | member
      · have := less unprintable
        omega
      · have := shorter ⟨other, member, unprintable⟩
        omega

/-- Entries of printable types are parsed into inputs that are printed canonically. -/
private theorem inputs_of_printable {entries : List AbiEntry} (printable : ∀ entry ∈ entries, entry.type.Printable) :
    ∃ inputs, List.Forall₂ (fun entry input =>
        parseInputOutput entry.json (InputOutputAbi.construct entry.memory) = .ok (.success, input)) entries inputs ∧
      List.Forall₂ (fun input piece => signatureOfInput input = .ok piece) inputs
        (entries.map fun entry => entry.type.canonical) := by
  induction entries with
  | nil => exact ⟨[], .nil, .nil⟩
  | cons entry rest ih =>
    obtain ⟨input, parsed, printed⟩ := parse_print (printable entry List.mem_cons_self)
    obtain ⟨inputs, all, pieces⟩ := ih fun other member => printable other (List.mem_cons_of_mem _ member)
    exact ⟨input :: inputs, .cons parsed all, .cons printed pieces⟩

/-- A list of inputs survives parsing and printing exactly when every type is printable and an `int` counts
the inputs. -/
theorem surviveParsing_iff (entries : List AbiEntry) :
    SurviveParsing entries ↔ (∀ entry ∈ entries, entry.type.Printable) ∧ entries.length < 2 ^ 31 := by
  constructor
  · rintro ⟨inputs, parsed, printed⟩
    have signature := printed { constant := false, inputs := inputs, payable := false } rfl
    obtain ⟨text, each, signature⟩ := bind_eq_ok.mp signature
    obtain ⟨_, bounded, signature⟩ := bind_eq_ok.mp signature
    have counted : inputs.length < 2 ^ 31 := by
      by_contra large
      rw [countInt_of_le (not_lt.mp large)] at bounded
      cases bounded
    refine ⟨?_, parsed.length_eq ▸ counted⟩
    by_contra failing
    push Not at failing
    obtain ⟨pieces, printedEach, count, -, shorter⟩ := pieces_of_parsed parsed
    have less := shorter failing
    obtain rfl := Except.ok.inj ((signatureOfInputs_pieces printedEach).symm.trans each)
    have lengths := congrArg List.length (Except.ok.inj signature)
    simp only [List.length_append, commaSeparated_length, List.map_map, List.length_map] at lengths
    rw [show (List.length ∘ fun entry : AbiEntry => entry.type.canonical) =
      fun entry => entry.type.canonical.length from rfl] at lengths
    omega
  · rintro ⟨printable, counted⟩
    obtain ⟨inputs, parsed, pieces⟩ := inputs_of_printable printable
    refine ⟨inputs, parsed, ?_⟩
    rintro function rfl
    rw [FunctionAbi.getSignature, signatureOfInputs_pieces pieces, ok_bind,
      countInt_of_lt (parsed.length_eq ▸ counted), ok_bind, pure_eq_ok]

/-! ## An array of bare integers -/

namespace BareArray

/-- An input of type `uint[]`. -/
def entry : AbiEntry where
  type := .dynamicArray (.uint none)
  json := .obj [(ascii "name", .str (ascii "values")), (ascii "type", .str (ascii "uint[]"))]
  name := ascii "values"
  memory := { type := .unknown, sizeBytes := 0, arrayType := .unknown, arraySize := 0 }
  nameGiven := rfl
  typeGiven := rfl

end BareArray

/-- The element type is printed without its width. -/
theorem uintArray_printed_bare :
    (∃ input, parseInputOutput BareArray.entry.json (InputOutputAbi.construct BareArray.entry.memory) =
      .ok (.success, input) ∧
      signatureOfInput input = .ok (ascii "uint[]")) ∧
    ¬SurviveParsing [BareArray.entry] := by
  refine ⟨⟨_, rfl, by decide⟩, ?_⟩
  rintro ⟨inputs, parsed, printed⟩
  obtain ⟨input, rest, head, tail, rfl⟩ := List.forall₂_cons_left_iff.mp parsed
  obtain rfl := List.forall₂_nil_left_iff.mp tail
  have signature := printed { constant := false, inputs := [input], payable := false } rfl
  have same : parseInputOutput BareArray.entry.json (InputOutputAbi.construct BareArray.entry.memory) =
      .ok (.success,
        { name := ascii "values", type := .arrayDynamic, sizeBytes := 0, arrayType := .uint, arraySize := 0 }) := by
    decide
  obtain rfl := (Prod.mk.inj (Except.ok.inj (same.symm.trans head))).2
  exact absurd signature (by decide)

end Iotex
