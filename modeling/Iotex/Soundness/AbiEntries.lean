import Iotex.Lib.Collect
import Iotex.Proofs.TypeReading
import Iotex.Soundness.TypeGrammar

/-! # Parsing the inputs of a function

What the parser makes of one entry and of a list of entries. An entry that is read exactly and one
that is refused are so whatever is in memory; on memory without a tuple no other entry is refused,
and what is read of it is not what it says.
-/

namespace Iotex

open Spec

/-! ## Entries -/

section

variable {data : Json}

/-- A type string that was read is the result, unless it is a tuple. -/
private theorem parseInputOutput_given {name type : Bytes} (named : charsOf? (data.get? (ascii "name")) = some name)
    (typed : charsOf? (data.get? (ascii "type")) = some type) (out : InputOutputAbi) :
    parseInputOutput data out = (do
      let (ret, out) ← getTypeAndSizeFromString type { out with name := name }
      if ret ≠ .success then return (ret, out)
      if out.type = .tupleDynamic ∨ out.type = .tupleStatic then return (.errorWrongType, out)
      return (.success, out)) := by
  rw [parseInputOutput_eq, named, typed]

theorem parseInputOutput_returns_iff (out : InputOutputAbi) :
    (∃ result, parseInputOutput data out = .ok result) ↔ QuietInput data := by
  rw [QuietInput]
  cases named : charsOf? (data.get? (ascii "name")) with
  | none =>
    rw [parseInputOutput_eq, named]
    exact iff_of_true ⟨_, rfl⟩ (.inl rfl)
  | some name =>
    cases typed : charsOf? (data.get? (ascii "type")) with
    | none =>
      rw [parseInputOutput_eq, named, typed]
      exact iff_of_true ⟨_, rfl⟩ (.inr nofun)
    | some type =>
      have returns := getTypeAndSizeFromString_returns_iff type { out with name := name }
      have stays : (some name = none ∨ ∀ text, some type = some text → StaysInside text) ↔ StaysInside type := by
        simp
      rw [parseInputOutput_given named typed, stays, ← returns]
      constructor
      · rintro ⟨result, ran⟩
        obtain ⟨read, same, -⟩ := bind_eq_ok.mp ran
        exact ⟨read, same⟩
      · rintro ⟨⟨ret, read⟩, same⟩
        simp only [same, ok_bind]
        split_ifs
        · exact ⟨_, rfl⟩
        · exact ⟨_, rfl⟩
        · exact ⟨_, rfl⟩

/-- A refused entry is an error. -/
theorem parseInputOutput_refused (refused : RefusedInput data) (out : InputOutputAbi) :
    ∃ code left, parseInputOutput data out = .ok (code, left) ∧ code ≠ .success := by
  rcases refused with unnamed | untyped | ⟨text, typed, rejected⟩
  · rw [parseInputOutput_eq, unnamed]
    exact ⟨_, _, rfl, nofun⟩
  · rw [parseInputOutput_eq, untyped]
    cases charsOf? (data.get? (ascii "name")) with
    | none => exact ⟨_, _, rfl, nofun⟩
    | some name => exact ⟨_, _, rfl, nofun⟩
  · exact parseInputOutput_rejected typed rejected out

/-- On memory without a tuple no other entry is an error. -/
theorem refusedInput_of_error {out left : InputOutputAbi} {code : ResultCode}
    (noTuple : out.type ≠ .tupleDynamic ∧ out.type ≠ .tupleStatic)
    (parsed : parseInputOutput data out = .ok (code, left)) (failed : code ≠ .success) : RefusedInput data := by
  cases named : charsOf? (data.get? (ascii "name")) with
  | none => exact .inl named
  | some name =>
    cases typed : charsOf? (data.get? (ascii "type")) with
    | none => exact .inr (.inl typed)
    | some text =>
      refine .inr (.inr ⟨text, typed, ?_⟩)
      by_contra accepted
      exact failed (parseInputOutput_accepted named typed accepted noTuple parsed)

/-- A readable entry is read. -/
theorem parseInputOutput_readable (readable : ReadableInput data) (memory : InputOutputAbi) :
    ∃ input, parseInputOutput data memory.construct = .ok (.success, input) ∧ DescribesInput data input := by
  obtain ⟨present, type, typed, printable⟩ := readable
  obtain ⟨name, named⟩ := Option.isSome_iff_exists.mp present
  obtain ⟨input, read⟩ := getType_printable printable { memory.construct with name := name }
  obtain ⟨-, kept, represents⟩ := getType_represents rfl read
  have represented := represents.mpr printable
  have noTuple : ¬(input.type = .tupleDynamic ∨ input.type = .tupleStatic) := by
    cases type with
    | elementary type =>
      rw [represented.1]
      rcases type with (_ | width) | (_ | width) | _ | _ | _ | _ | width <;> simp [ElementaryType.tagAndWidth]
    | dynamicArray element => simp [represented.1]
    | fixedArray element length => simp [represented.1]
  refine ⟨input, ?_, ?_, type, typed, represented⟩
  · rw [parseInputOutput_given named typed, read, ok_bind]
    simp only [ne_eq, not_true_eq_false, ↓reduceIte, noTuple, pure_eq_ok]
  · rw [named, kept]

/-- No other entry is described by what is read. -/
theorem readableInput_of_described {memory input : InputOutputAbi}
    (parsed : parseInputOutput data memory.construct = .ok (.success, input)) (described : DescribesInput data input) :
    ReadableInput data := by
  obtain ⟨named, type, typed, represented⟩ := described
  refine ⟨by rw [named]; rfl, type, typed, ?_⟩
  rw [parseInputOutput_given named typed] at parsed
  obtain ⟨⟨ret, read⟩, ran, parsed⟩ := bind_eq_ok.mp parsed
  obtain ⟨rfl, -, represents⟩ := getType_represents rfl ran
  have same : read = input := by
    simp only [ne_eq, not_true_eq_false, ↓reduceIte] at parsed
    split_ifs at parsed
    · simp at parsed
    · exact (Prod.mk.inj (Except.ok.inj parsed)).2
  exact represents.mp (same ▸ represented)

end

/-! ## Lists of entries -/

section

variable (memory : ℕ → InputOutputAbi)

/-- One round of the loop, as what it appends or a refusal. -/
def inputRound (position : ℕ) (data : Json) : Exec (Option (List InputOutputAbi)) :=
  (parseInputOutput data (memory position).construct).map fun (ret, input) =>
    if ret = .success then some [input] else none

/-- The result of a parsing loop. -/
def loopResult {Value : Type} (ended : Bool × List Value) : ResultCode × List Value :=
  (if ended.1 then .success else .errorJsonParse, ended.2)

theorem parseInputsOutputs_eq (position : ℕ) (entries : List Json) (out : List InputOutputAbi) :
    parseInputsOutputs memory position entries out =
      (collect (inputRound memory) position entries out).map loopResult := by
  induction entries generalizing position out with
  | nil => rfl
  | cons data rest ih =>
    rw [parseInputsOutputs, collect, inputRound]
    cases parsed : parseInputOutput data (memory position).construct with
    | error fault => rfl
    | ok result =>
      obtain ⟨ret, input⟩ := result
      by_cases ok : ret = .success
      · subst ok
        exact ih (position + 1) (out ++ [input])
      · simp only [ok_bind, ne_eq, ok, not_false_eq_true, ↓reduceIte, Except.map]
        rfl

private theorem inputRound_some {position : ℕ} {data : Json} {values : List InputOutputAbi}
    (parsed : inputRound memory position data = .ok (some values)) :
    ∃ input, values = [input] ∧ parseInputOutput data (memory position).construct = .ok (.success, input) := by
  obtain ⟨⟨ret, input⟩, read, kept⟩ := map_eq_ok.mp parsed
  dsimp only at kept
  split_ifs at kept with ok
  · rw [ok] at read
    exact ⟨input, (Option.some.inj kept).symm, read⟩

private theorem inputRound_none {position : ℕ} {data : Json} (refused : inputRound memory position data = .ok none) :
    ∃ code left, parseInputOutput data (memory position).construct = .ok (code, left) ∧ code ≠ .success := by
  obtain ⟨⟨ret, input⟩, read, dropped⟩ := map_eq_ok.mp refused
  dsimp only at dropped
  split_ifs at dropped with ok
  exact ⟨ret, input, read, ok⟩

private theorem inputRound_quiet {entries : List Json} (quiet : ∀ entry ∈ entries, QuietInput entry) :
    ∀ entry ∈ entries, ∀ position, ∃ result, inputRound memory position entry = .ok result := by
  intro entry member position
  obtain ⟨result, parsed⟩ := (parseInputOutput_returns_iff (memory position).construct).mpr (quiet entry member)
  rw [inputRound, parsed]
  exact ⟨_, rfl⟩

/-- Readable entries are read in order. -/
theorem parseInputsOutputs_readable {entries : List Json} (readable : ∀ entry ∈ entries, ReadableInput entry) :
    ∃ inputs, parseInputsOutputs memory 0 entries [] = .ok (.success, inputs) ∧
      List.Forall₂ DescribesInput entries inputs := by
  have each : ∀ entry ∈ entries, ∀ position, ∃ values, inputRound memory position entry = .ok (some values) ∧
      if true = true then ∃ input, values = [input] ∧ DescribesInput entry input else values = [] := by
    intro entry member position
    obtain ⟨input, parsed, described⟩ := parseInputOutput_readable (readable entry member) (memory position)
    refine ⟨[input], ?_, input, rfl, described⟩
    rw [inputRound, parsed]
    rfl
  obtain ⟨pieces, good, ran⟩ := collect_of_each each 0 []
  have described := @forall₂_filter_flatten _ _ _ (fun _ => true) _ _ good
  rw [List.filter_true] at described
  refine ⟨pieces.flatten, ?_, described⟩
  rw [parseInputsOutputs_eq, ran]
  rfl

/-- A refused entry behind entries that the parser gets through is an error. -/
theorem parseInputsOutputs_refused {before after : List Json} {entry : Json}
    (quiet : ∀ other ∈ before, QuietInput other) (refused : RefusedInput entry) :
    ∃ left, parseInputsOutputs memory 0 (before ++ entry :: after) [] = .ok (.errorJsonParse, left) := by
  have error : ∀ position, inputRound memory position entry = .ok none := by
    intro position
    obtain ⟨code, left, parsed, failed⟩ := parseInputOutput_refused refused (memory position).construct
    rw [inputRound, parsed]
    simp only [Except.map, failed, ↓reduceIte]
  obtain ⟨left, ran⟩ := @collect_refused _ _ _ _ before after entry (inputRound_quiet memory quiet) error 0 []
  rw [parseInputsOutputs_eq, ran]
  exact ⟨left, rfl⟩

/-- The loop returns on entries that the parser gets through. -/
theorem parseInputsOutputs_quiet {entries : List Json} (quiet : ∀ entry ∈ entries, QuietInput entry) :
    ∃ result, parseInputsOutputs memory 0 entries [] = .ok result := by
  obtain ⟨result, ran⟩ := collect_returns (inputRound_quiet memory quiet) 0 []
  rw [parseInputsOutputs_eq, ran]
  exact ⟨_, rfl⟩

/-- What a loop that returned has read, and where it stopped. -/
theorem parseInputsOutputs_ok {entries : List Json} {code : ResultCode} {inputs : List InputOutputAbi}
    (ran : parseInputsOutputs memory 0 entries [] = .ok (code, inputs)) :
    code = .success ∧ List.Forall₂ (fun data input =>
        ∃ position, parseInputOutput data (memory position).construct = .ok (.success, input)) entries inputs ∨
      code = .errorJsonParse ∧ ∃ before entry after, entries = before ++ entry :: after ∧
        (∀ other ∈ before, QuietInput other) ∧
        ∃ position code left, parseInputOutput entry (memory position).construct = .ok (code, left) ∧
          code ≠ .success := by
  rw [parseInputsOutputs_eq] at ran
  obtain ⟨⟨done, left⟩, loop, ends⟩ := map_eq_ok.mp ran
  obtain ⟨rfl, rfl⟩ := Prod.mk.inj ends
  obtain ⟨before, after, pieces, rfl, rfl, each, ends⟩ := collect_eq_ok loop
  rcases ends with ⟨rfl, rfl⟩ | ⟨rfl, entry, rest, position, rfl, refused⟩
  · refine .inl ⟨rfl, ?_⟩
    have single : List.Forall₂ (fun data values => if true = true then ∃ input, values = [input] ∧
        ∃ position, parseInputOutput data (memory position).construct = .ok (.success, input) else values = [])
        before pieces := by
      apply each.imp
      rintro data values ⟨position, parsed⟩
      obtain ⟨input, rfl, read⟩ := inputRound_some memory parsed
      exact ⟨input, rfl, position, read⟩
    have collected := @forall₂_filter_flatten _ _ _ (fun _ => true) _ _ single
    rwa [List.filter_true, ← List.append_nil before] at collected
  · refine .inr ⟨rfl, before, entry, rest, rfl, ?_, position, inputRound_none memory refused⟩
    intro other member
    obtain ⟨values, position, parsed⟩ := exists_of_forall₂ each member
    obtain ⟨input, -, read⟩ := inputRound_some memory parsed
    exact (parseInputOutput_returns_iff _).mp ⟨_, read⟩

/-! ## Members that hold entries -/

/-- What is read of a member; nothing when it is no array or an entry is an error. -/
def readInputs (member : Option Json) : Exec (Option (List InputOutputAbi)) :=
  match member with
  | some (.arr entries) =>
    (parseInputsOutputs memory 0 entries []).map fun (ret, inputs) => if ret = .success then some inputs else none
  | _ => .ok none

variable {member : Option Json}

theorem readInputs_readable (readable : ReadableInputs member) :
    ∃ inputs, readInputs memory member = .ok (some inputs) ∧ DescribesInputs member inputs := by
  obtain ⟨entries, rfl, each⟩ := readable
  obtain ⟨inputs, ran, described⟩ := parseInputsOutputs_readable memory each
  refine ⟨inputs, ?_, entries, rfl, described⟩
  rw [readInputs, ran]
  rfl

theorem readInputs_refused (refused : RefusedInputs member) : readInputs memory member = .ok none := by
  rw [readInputs.eq_def]
  split
  · rename_i entries
    obtain ⟨before, entry, after, rfl, quiet, error⟩ := refused entries rfl
    obtain ⟨left, ran⟩ := @parseInputsOutputs_refused memory before after entry quiet error
    rw [ran]
    rfl
  · rfl

theorem readInputs_quiet (quiet : QuietInputs member) : ∃ result, readInputs memory member = .ok result := by
  rw [readInputs.eq_def]
  split
  · rename_i entries
    obtain ⟨result, ran⟩ := parseInputsOutputs_quiet memory (quiet entries rfl)
    rw [ran]
    exact ⟨_, rfl⟩
  · exact ⟨_, rfl⟩

/-- A member that was read is got through, and is read exactly if it describes what was read. -/
theorem readInputs_some {inputs : List InputOutputAbi} (read : readInputs memory member = .ok (some inputs)) :
    QuietInputs member ∧ (DescribesInputs member inputs → ReadableInputs member) := by
  rw [readInputs.eq_def] at read
  split at read
  · rename_i entries
    obtain ⟨⟨code, left⟩, ran, kept⟩ := map_eq_ok.mp read
    dsimp only at kept
    split_ifs at kept with ok
    obtain rfl := Option.some.inj kept
    obtain ⟨-, each⟩ | ⟨failed, -⟩ := parseInputsOutputs_ok memory ran
    · refine ⟨?_, ?_⟩
      · intro others same entry member
        obtain rfl := Json.arr.inj (Option.some.inj same)
        obtain ⟨input, position, parsed⟩ := exists_of_forall₂ each member
        exact (parseInputOutput_returns_iff _).mp ⟨_, parsed⟩
      · rintro ⟨others, same, described⟩
        obtain rfl := Json.arr.inj (Option.some.inj same)
        refine ⟨_, rfl, ?_⟩
        intro entry member
        obtain ⟨input, ⟨position, parsed⟩, same⟩ := exists_of_forall₂ (forall₂_both each described) member
        exact readableInput_of_described parsed same
    · exact absurd (ok.symm.trans failed) (by decide)
  · simp at read

/-- On memory without tuples only refused members are not read. -/
theorem refusedInputs_of_none (noTuple : ∀ position, (memory position).type ≠ .tupleDynamic ∧
    (memory position).type ≠ .tupleStatic) (read : readInputs memory member = .ok none) : RefusedInputs member := by
  rintro entries rfl
  obtain ⟨⟨code, left⟩, ran, dropped⟩ := map_eq_ok.mp read
  obtain ⟨rfl, -⟩ | ⟨-, before, entry, after, same, quiet, position, code, left, parsed, failed⟩ :=
    parseInputsOutputs_ok memory ran
  · simp at dropped
  · have error := @refusedInput_of_error _ (memory position).construct _ _ (noTuple position) parsed failed
    exact ⟨before, entry, after, same, quiet, error⟩

end

end Iotex
