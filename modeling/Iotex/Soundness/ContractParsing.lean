import Iotex.Soundness.AbiEntries

/-! # Parsing a contract

When the parser of a contract's ABI returns the functions that its elements describe, or an error
with the functions it was given. A function that leaves out `constant` or `payable` keeps what was
in memory, a missing name or a type outside the grammar is no error, and an element that is an error
does not take back the functions in front of it.
-/

namespace Iotex

open Spec

/-! ## Functions -/

private theorem setBoolFromJsonObject_eq (json : Option Json) (target : Bool) :
    setBoolFromJsonObject json target =
      match boolOf? json with
      | some value => (.success, value)
      | none => (.errorJsonParse, target) := by
  cases json with
  | none => rfl
  | some value => cases value <;> rfl

private theorem setBoolFromJsonObject_snd (json : Option Json) (target : Bool) :
    (setBoolFromJsonObject json target).2 = (boolOf? json).getD target := by
  rw [setBoolFromJsonObject_eq]
  cases boolOf? json <;> rfl

private theorem setStringFromJsonObject_snd (json : Option Json) (target : Bytes) :
    (setStringFromJsonObject json target 0).2 = (charsOf? json).getD target := by
  rw [setStringFromJsonObject_eq]
  cases charsOf? json <;> rfl

/-- The function that the parser makes of its inputs and outputs. -/
def functionOf (memory : FunctionMemory) (element : Json) (inputs outputs : List InputOutputAbi) : FunctionAbi where
  constant := (boolOf? (element.get? (ascii "constant"))).getD memory.constant
  inputs := inputs
  name := (charsOf? (element.get? (ascii "name"))).getD []
  outputs := outputs
  stateMutability := (charsOf? (element.get? (ascii "stateMutability"))).getD []
  payable := (boolOf? (element.get? (ascii "payable"))).getD memory.payable

/-- The function that was parsed, or nothing when it is an error. -/
def readFunction (memory : FunctionMemory) (element : Json) : Exec (Option FunctionAbi) :=
  (parseFunction memory element).map fun (ret, function) => if ret = .success then some function else none

section

variable {memory : FunctionMemory} {element : Json}

/-- Only the inputs and the outputs decide whether a function is an error. -/
theorem readFunction_eq :
    readFunction memory element = (do
      let inputs ← readInputs memory.inputs (element.get? (ascii "inputs"))
      inputs.elim (.ok none) fun inputs => do
        let outputs ← readInputs memory.outputs (element.get? (ascii "outputs"))
        return outputs.map (functionOf memory element inputs)) := by
  have readOut : ∀ entries, readInputs memory.outputs (some (.arr entries)) =
      (parseInputsOutputs memory.outputs 0 entries []).map fun read =>
        if read.1 = .success then some read.2 else none := fun _ => rfl
  rw [readFunction, parseFunction]
  simp only [getObjectItem]
  cases given : element.get? (ascii "inputs") with
  | none => rfl
  | some inputs =>
    cases inputs with
    | arr entries =>
      rw [readInputs]
      dsimp only
      cases parseInputsOutputs memory.inputs 0 entries [] with
      | error fault => rfl
      | ok result =>
        obtain ⟨ret, inputs⟩ := result
        by_cases ok : ret = .success
        · subst ok
          cases returned : element.get? (ascii "outputs") with
          | none => rfl
          | some outputs =>
            cases outputs with
            | arr results =>
              simp only [readOut, Except.map, ↓reduceIte, ok_bind, ne_eq, not_true_eq_false]
              cases parseInputsOutputs memory.outputs 0 results [] with
              | error fault => rfl
              | ok result =>
                obtain ⟨ret, outputs⟩ := result
                by_cases ok : ret = .success
                · subst ok
                  simp [functionOf, ← setBoolFromJsonObject_snd, ← setStringFromJsonObject_snd]
                · simp [ok]
            | _ => rfl
        · simp [Except.map, ok]
    | _ => rfl

private theorem readFunction_some {function : FunctionAbi}
    (read : readFunction memory element = .ok (some function)) :
    ∃ inputs outputs, readInputs memory.inputs (element.get? (ascii "inputs")) = .ok (some inputs) ∧
      readInputs memory.outputs (element.get? (ascii "outputs")) = .ok (some outputs) ∧
      function = functionOf memory element inputs outputs := by
  rw [readFunction_eq] at read
  obtain ⟨given, inputs, read⟩ := bind_eq_ok.mp read
  cases given with
  | none => simp at read
  | some given =>
    obtain ⟨returned, outputs, read⟩ := bind_eq_ok.mp read
    cases returned with
    | none => simp at read
    | some returned => exact ⟨given, returned, inputs, outputs, (Option.some.inj (Except.ok.inj read)).symm⟩

/-- A readable function is read whatever is in memory. -/
theorem readFunction_readable (defaults : Defaults) (blank : defaults.stateMutability = [])
    (readable : ReadableFunction element) :
    ∃ function, readFunction memory element = .ok (some function) ∧ DescribesFunction defaults element function := by
  obtain ⟨inputs, given, describedInputs⟩ := readInputs_readable memory.inputs readable.inputs
  obtain ⟨outputs, returned, describedOutputs⟩ := readInputs_readable memory.outputs readable.outputs
  obtain ⟨name, named⟩ := Option.isSome_iff_exists.mp readable.name
  obtain ⟨constant, isConstant⟩ := Option.isSome_iff_exists.mp readable.constant
  obtain ⟨payable, isPayable⟩ := Option.isSome_iff_exists.mp readable.payable
  refine ⟨functionOf memory element inputs outputs, ?_, ?_, describedInputs, describedOutputs, .inl ?_, .inl ?_, ?_⟩
  · rw [readFunction_eq, given, ok_bind, returned]
    rfl
  · rw [functionOf, named, Option.getD_some]
  · rw [functionOf, isConstant, Option.getD_some]
  · rw [functionOf, isPayable, Option.getD_some]
  · rcases readable.stateMutability with missing | present
    · refine .inr ⟨missing, ?_⟩
      rw [functionOf, missing, blank]
      rfl
    · obtain ⟨text, stated⟩ := Option.isSome_iff_exists.mp present
      left
      rw [functionOf, stated, Option.getD_some]

/-- A refused function is an error whatever is in memory. -/
theorem readFunction_refused (refused : RefusedFunction element) : readFunction memory element = .ok none := by
  rw [readFunction_eq]
  rcases refused with inputs | ⟨quiet, outputs⟩
  · rw [readInputs_refused memory.inputs inputs]
    rfl
  · obtain ⟨given, read⟩ := readInputs_quiet memory.inputs quiet
    rw [read, ok_bind]
    cases given with
    | none => rfl
    | some inputs =>
      rw [readInputs_refused memory.outputs outputs]
      rfl

/-- Memory that differs from the defaults and holds no tuple. -/
structure Unlike (memory : FunctionMemory) (defaults : Defaults) : Prop where
  constant : memory.constant ≠ defaults.constant
  payable : memory.payable ≠ defaults.payable
  inputs : ∀ position, (memory.inputs position).type ≠ .tupleDynamic ∧ (memory.inputs position).type ≠ .tupleStatic
  outputs : ∀ position, (memory.outputs position).type ≠ .tupleDynamic ∧ (memory.outputs position).type ≠ .tupleStatic

private theorem flag_isSome {default stored : Bool} {member : Option Json} (other : stored ≠ default)
    (given : FlagIs default member ((boolOf? member).getD stored)) : (boolOf? member).isSome := by
  rcases given with same | ⟨missing, same⟩
  · rw [same]
    rfl
  · subst missing
    exact absurd same other

/-- What is read on such memory describes readable functions only. -/
theorem readableFunction_of_described {defaults : Defaults} (unlike : Unlike memory defaults) {function : FunctionAbi}
    (read : readFunction memory element = .ok (some function))
    (described : DescribesFunction defaults element function) : ReadableFunction element := by
  obtain ⟨inputs, outputs, given, returned, rfl⟩ := readFunction_some read
  refine ⟨?_, (readInputs_some memory.inputs given).2 described.inputs,
    (readInputs_some memory.outputs returned).2 described.outputs, flag_isSome unlike.constant described.constant,
    flag_isSome unlike.payable described.payable, ?_⟩
  · rw [described.name]
    rfl
  · rcases described.stateMutability with stated | ⟨missing, -⟩
    · exact .inr (by rw [stated]; rfl)
    · exact .inl missing

/-- And only refused functions are errors on it. -/
theorem refusedFunction_of_error {defaults : Defaults} (unlike : Unlike memory defaults)
    (read : readFunction memory element = .ok none) : RefusedFunction element := by
  rw [readFunction_eq] at read
  obtain ⟨given, inputs, read⟩ := bind_eq_ok.mp read
  cases given with
  | none => exact .inl (refusedInputs_of_none memory.inputs unlike.inputs inputs)
  | some given =>
    refine .inr ⟨(readInputs_some memory.inputs inputs).1, ?_⟩
    obtain ⟨returned, outputs, read⟩ := bind_eq_ok.mp read
    cases returned with
    | none => exact refusedInputs_of_none memory.outputs unlike.outputs outputs
    | some returned => simp at read

end

/-! ## Elements -/

section

variable (memory : ℕ → FunctionMemory)

/-- One round of the loop, as what it appends or a refusal. -/
def elementRound (position : ℕ) (element : Json) : Exec (Option (List FunctionAbi)) :=
  match charsOf? (element.get? (ascii "type")) with
  | none => .ok none
  | some _ =>
    if isFunction element then
      (readFunction (memory position) element).map fun function => function.map fun function => [function]
    else .ok (some [])

theorem parseElements_eq (position : ℕ) (elements : List Json) (out : List FunctionAbi) :
    parseElements memory position elements out =
      (collect (elementRound memory) position elements out).map loopResult := by
  induction elements generalizing position out with
  | nil => rfl
  | cons element rest ih =>
    have type := setStringFromJsonObject_eq (element.get? (ascii "type")) []
    rw [parseElements, collect, elementRound, isFunction]
    simp only [getObjectItem, type]
    cases typed : charsOf? (element.get? (ascii "type")) with
    | none => rfl
    | some text =>
      by_cases function : text = ascii "function"
      · simp only [function, ne_eq, not_true_eq_false, ↓reduceIte, beq_self_eq_true, readFunction]
        cases parseFunction (memory position) element with
        | error fault => rfl
        | ok result =>
          obtain ⟨ret, parsed⟩ := result
          by_cases ok : ret = .success
          · subst ok
            exact ih (position + 1) (out ++ [parsed])
          · simp [Except.map, ok, loopResult]
      · simp [function, ih]

/-- One value for a function and none for another element. -/
private def Pieces (related : Json → FunctionAbi → Prop) (element : Json) (functions : List FunctionAbi) : Prop :=
  if isFunction element = true then ∃ function, functions = [function] ∧ related element function else functions = []

private theorem elementRound_readable {defaults : Defaults} (blank : defaults.stateMutability = []) {element : Json}
    (typed : (charsOf? (element.get? (ascii "type"))).isSome)
    (readable : isFunction element = true → ReadableFunction element) (position : ℕ) :
    ∃ functions, elementRound memory position element = .ok (some functions) ∧
      Pieces (DescribesFunction defaults) element functions := by
  obtain ⟨type, typed⟩ := Option.isSome_iff_exists.mp typed
  rw [elementRound, typed]
  by_cases kind : isFunction element = true
  · obtain ⟨function, read, described⟩ :=
      @readFunction_readable (memory position) element defaults blank (readable kind)
    refine ⟨[function], ?_, ?_⟩
    · simp only [kind, ↓reduceIte, read]
      rfl
    · rw [Pieces, if_pos kind]
      exact ⟨function, rfl, described⟩
  · refine ⟨[], ?_, ?_⟩
    · simp only [kind, Bool.false_eq_true, ↓reduceIte]
    · rw [Pieces, if_neg kind]

private theorem elementRound_other {element : Json} (typed : (charsOf? (element.get? (ascii "type"))).isSome)
    (other : isFunction element = false) (position : ℕ) : elementRound memory position element = .ok (some []) := by
  obtain ⟨type, typed⟩ := Option.isSome_iff_exists.mp typed
  rw [elementRound, typed, other]
  rfl

private theorem elementRound_refused {element : Json} (refused : RefusedElement element) (position : ℕ) :
    elementRound memory position element = .ok none := by
  rw [elementRound.eq_def]
  split
  · rfl
  · rename_i type typed
    obtain untyped | ⟨kind, error⟩ := refused
    · rw [untyped] at typed
      cases typed
    · rw [if_pos kind, readFunction_refused error]
      rfl

private theorem elementRound_some {element : Json} {functions : List FunctionAbi} {position : ℕ}
    (read : elementRound memory position element = .ok (some functions)) :
    (charsOf? (element.get? (ascii "type"))).isSome ∧
      Pieces (fun element function => ∃ position, readFunction (memory position) element = .ok (some function))
        element functions := by
  rw [elementRound] at read
  cases typed : charsOf? (element.get? (ascii "type")) with
  | none => simp [typed] at read
  | some type =>
    refine ⟨rfl, ?_⟩
    by_cases kind : isFunction element = true
    · simp only [typed, if_pos kind] at read
      rw [Pieces, if_pos kind]
      obtain ⟨result, parsed, kept⟩ := map_eq_ok.mp read
      obtain ⟨function, rfl, single⟩ := Option.map_eq_some_iff.mp kept
      exact ⟨function, single.symm, position, parsed⟩
    · simp only [typed, if_neg kind, Except.ok.injEq, Option.some.injEq] at read
      rw [Pieces, if_neg kind]
      exact read.symm

/-- On memory unlike the defaults only refused elements are errors. -/
private theorem refusedElement_of_none {defaults : Defaults} (unlike : ∀ position, Unlike (memory position) defaults)
    {element : Json} {position : ℕ} (read : elementRound memory position element = .ok none) :
    RefusedElement element := by
  rw [elementRound] at read
  cases typed : charsOf? (element.get? (ascii "type")) with
  | none => exact .inl typed
  | some type =>
    by_cases kind : isFunction element = true
    · simp only [typed, if_pos kind] at read
      obtain ⟨result, parsed, dropped⟩ := map_eq_ok.mp read
      obtain rfl := Option.map_eq_none_iff.mp dropped
      exact .inr ⟨kind, refusedFunction_of_error (unlike position) parsed⟩
    · simp [typed, if_neg kind] at read

/-- The loop over elements that are read exactly appends a function for each element that is one. -/
theorem parseElements_whole {defaults : Defaults} (blank : defaults.stateMutability = []) {elements : List Json}
    (whole : ∀ element ∈ elements, (charsOf? (element.get? (ascii "type"))).isSome ∧
      (isFunction element = true → ReadableFunction element)) (out : List FunctionAbi) :
    ∃ functions, parseElements memory 0 elements out = .ok (.success, out ++ functions) ∧
      List.Forall₂ (DescribesFunction defaults) (elements.filter isFunction) functions := by
  have each : ∀ element ∈ elements, ∀ position, ∃ functions,
      elementRound memory position element = .ok (some functions) ∧
        Pieces (DescribesFunction defaults) element functions := by
    intro element member
    exact elementRound_readable memory blank (whole element member).1 (whole element member).2
  obtain ⟨pieces, good, ran⟩ := collect_of_each each 0 out
  refine ⟨pieces.flatten, ?_, forall₂_filter_flatten good⟩
  rw [parseElements_eq, ran]
  rfl

/-- A refused element with no function in front of it leaves the functions so far. -/
theorem parseElements_refused {before after : List Json} {element : Json}
    (skipped : ∀ other ∈ before, (charsOf? (other.get? (ascii "type"))).isSome ∧ isFunction other = false)
    (refused : RefusedElement element) (out : List FunctionAbi) :
    parseElements memory 0 (before ++ element :: after) out = .ok (.errorJsonParse, out) := by
  have others : ∀ other ∈ before, ∀ position, elementRound memory position other = .ok (some []) := by
    intro other member
    exact elementRound_other memory (skipped other member).1 (skipped other member).2
  rw [parseElements_eq, collect_skipped others, collect_cons_none after out (elementRound_refused memory refused _)]
  rfl

/-- On memory unlike the defaults the loop is faithful to no other elements. -/
theorem wholeOrRefused_of_faithful {defaults : Defaults} (unlike : ∀ position, Unlike (memory position) defaults)
    {elements : List Json} {ret : ResultCode} {left : List FunctionAbi}
    (ran : parseElements memory 0 elements [] = .ok (ret, left))
    (described : ret = .success → List.Forall₂ (DescribesFunction defaults) (elements.filter isFunction) left)
    (unchanged : ret ≠ .success → left = []) : WholeOrRefused elements := by
  rw [parseElements_eq] at ran
  obtain ⟨⟨done, functions⟩, loop, ends⟩ := map_eq_ok.mp ran
  obtain ⟨rfl, rfl⟩ := Prod.mk.inj ends
  obtain ⟨before, after, pieces, rfl, rfl, each, ends⟩ := collect_eq_ok loop
  rw [List.nil_append] at described unchanged
  have typed : ∀ element ∈ before, (charsOf? (element.get? (ascii "type"))).isSome := by
    intro element member
    obtain ⟨functions, position, read⟩ := exists_of_forall₂ each member
    exact (elementRound_some memory read).1
  have readEach : List.Forall₂ (fun element function => ∃ position, readFunction (memory position) element =
      .ok (some function)) (before.filter isFunction) pieces.flatten := by
    apply forall₂_filter_flatten
    apply each.imp
    rintro element functions ⟨position, read⟩
    exact (elementRound_some memory read).2
  rcases ends with ⟨rfl, rfl⟩ | ⟨rfl, element, rest, position, rfl, refused⟩
  · left
    rw [List.append_nil] at described ⊢
    intro element member
    refine ⟨typed element member, ?_⟩
    intro kind
    obtain ⟨function, ⟨position, read⟩, same⟩ :=
      exists_of_forall₂ (forall₂_both readEach (described rfl)) (List.mem_filter.mpr ⟨member, kind⟩)
    exact readableFunction_of_described (unlike position) read same
  · refine .inr ⟨before, element, rest, rfl, ?_, refusedElement_of_none memory unlike refused⟩
    have empty : pieces.flatten = [] := unchanged nofun
    rw [empty] at readEach
    intro other member
    refine ⟨typed other member, ?_⟩
    exact Bool.eq_false_iff.mpr (List.filter_eq_nil_iff.mp (List.forall₂_nil_right_iff.mp readEach) other member)

end

/-! ## Contracts -/

/-- With the same defaults for every text that was in memory: a success appends the functions that
the elements of the ABI describe, in order, and an error leaves the functions as they were. -/
def ParsesFaithfully (cJSON_Parse : CJsonParse) (contractAbi : Bytes) : Prop :=
  ∃ defaults, ∀ memory out, ∃ ret left, parseContract cJSON_Parse memory contractAbi out = .ok (ret, left) ∧
    (ret = .success → ∃ elements functions, cJSON_Parse (cString contractAbi) = some (.arr elements) ∧
      left = out ++ functions ∧ List.Forall₂ (DescribesFunction defaults) (elements.filter isFunction) functions) ∧
    (ret ≠ .success → left = out)

/-- Memory unlike the defaults. -/
private def unlikeMemory (defaults : Defaults) : FunctionMemory :=
  let input : InputOutputAbi :=
    { type := .uint, sizeBytes := 0, arrayType := .uint, arraySize := 0 }
  { constant := !defaults.constant, payable := !defaults.payable, inputs := fun _ => input, outputs := fun _ => input }

private theorem unlikeMemory_unlike (defaults : Defaults) : Unlike (unlikeMemory defaults) defaults where
  constant := by simp [unlikeMemory]
  payable := by simp [unlikeMemory]
  inputs _ := by simp [unlikeMemory]
  outputs _ := by simp [unlikeMemory]

/-- A text is parsed faithfully exactly when it is no array, or its elements are read exactly, or an
element with no function in front of it is refused. -/
theorem parseContract_faithful_iff (cJSON_Parse : CJsonParse) (contractAbi : Bytes) :
    ParsesFaithfully cJSON_Parse contractAbi ↔
      ∀ elements, cJSON_Parse (cString contractAbi) = some (.arr elements) → WholeOrRefused elements := by
  constructor
  · rintro ⟨defaults, faithful⟩ elements parsed
    obtain ⟨ret, left, ran, success, error⟩ := faithful (fun _ => unlikeMemory defaults) []
    rw [parseContract, parsed] at ran
    apply wholeOrRefused_of_faithful _ (fun _ => unlikeMemory_unlike defaults) ran _ error
    intro ok
    obtain ⟨others, functions, same, rfl, described⟩ := success ok
    obtain rfl := Json.arr.inj (Option.some.inj (parsed.symm.trans same))
    exact described
  · intro exact
    refine ⟨⟨false, false, []⟩, ?_⟩
    intro memory out
    rw [parseContract.eq_def]
    split
    · exact ⟨_, _, rfl, nofun, fun _ => rfl⟩
    · rename_i data parsed
      split
      · rename_i elements
        rcases exact elements parsed with whole | ⟨before, element, after, rfl, skipped, refused⟩
        · obtain ⟨functions, ran, described⟩ :=
            @parseElements_whole memory ⟨false, false, []⟩ rfl elements whole out
          exact ⟨_, _, ran, fun _ => ⟨elements, functions, parsed, rfl, described⟩, fun failed => absurd rfl failed⟩
        · exact ⟨_, _, parseElements_refused memory skipped refused out, nofun, fun _ => rfl⟩
      · exact ⟨_, _, rfl, nofun, fun _ => rfl⟩

namespace LateError

def contractAbi : Bytes :=
  ascii "[\x7b\"type\":\"function\",\"name\":\"a\",\"constant\":true," ++
    ascii "\"inputs\":[],\"outputs\":[],\"payable\":false\x7d,\x7b\"name\":\"x\"\x7d]"

/-- The elements of the text: a function and an element without a type. -/
def elements : List Json :=
  [.obj [(ascii "type", .str (ascii "function")), (ascii "name", .str (ascii "a")), (ascii "constant", .bool true),
      (ascii "inputs", .arr []), (ascii "outputs", .arr []), (ascii "payable", .bool false)],
    .obj [(ascii "name", .str (ascii "x"))]]

def cJSON_Parse : CJsonParse := fun text => if text = contractAbi then some (.arr elements) else none

end LateError

/-- The second element is an error, and the function in front of it stays. -/
theorem lateError_keepsFunction :
    (∀ memory, parseContract LateError.cJSON_Parse memory LateError.contractAbi [] =
      .ok (.errorJsonParse, [{ constant := true, name := ascii "a", payable := false }])) ∧
    ¬ParsesFaithfully LateError.cJSON_Parse LateError.contractAbi := by
  have parsed : LateError.cJSON_Parse (cString LateError.contractAbi) = some (.arr LateError.elements) := by
    have whole : cString LateError.contractAbi = LateError.contractAbi := by decide +kernel
    rw [LateError.cJSON_Parse, whole, if_pos rfl]
  have ran : ∀ memory, parseContract LateError.cJSON_Parse memory LateError.contractAbi [] =
      .ok (.errorJsonParse, [{ constant := true, name := ascii "a", payable := false }]) := by
    intro memory
    rw [parseContract, parsed]
    rfl
  refine ⟨ran, ?_⟩
  rintro ⟨defaults, faithful⟩
  obtain ⟨ret, left, same, -, unchanged⟩ := faithful (fun _ => unlikeMemory defaults) []
  rw [ran] at same
  obtain ⟨rfl, rfl⟩ := Prod.mk.inj (Except.ok.inj same)
  exact absurd (unchanged nofun) (by simp)

end Iotex
