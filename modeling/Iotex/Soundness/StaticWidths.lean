import Iotex.Proofs.Calls
import Iotex.Proofs.OwnWidths
import Iotex.Soundness.StaticCalls

/-! # Widths of static arguments

A static argument takes the bytes that the supplied value describes, by its own size and the types
of its elements. Those are the bytes that the declaration prescribes when the value conforms to it;
the encoder compares no size, count or element type with the declaration.
-/

namespace Iotex

open Spec

namespace Spec

/-- The bytes that the declaration of a static input prescribes. -/
def declaredWidth (input : InputOutputAbi) : ℕ := if input.type = .arrayStatic then 32 * input.arraySize.toNat else 32

/-- The elementary type of a static input, or of its elements. -/
def scalarType (input : InputOutputAbi) : EthereumTypeName × UInt32 :=
  if input.type = .arrayStatic then (input.arrayType, input.arrayTypeSizeBytes) else (input.type, input.sizeBytes)

/-- An element that its own type and size make one word. -/
def OneWord (item : ParameterValue) : Prop :=
  item.type ∈ [.uint, .int, .bool, .address] ∨ item.type = .bytesStatic ∧ 1 ≤ item.size.toInt ∧ item.size.toInt ≤ 32

/-- The inputs have the same names and the same types up to sizes, counts and types of elements. -/
def SameKinds (inputs others : List InputOutputAbi) : Prop :=
  List.Forall₂ (fun input other => input.name = other.name ∧ input.type = other.type ∧
    input.isDynamic = other.isDynamic) inputs others

end Spec

/-! ## One argument -/

/-- The head of a static input is what its supplied value describes. -/
structure OwnWidth (input : InputOutputAbi) (param : ParameterValue) (head : Cells) : Prop where
  encoded : ∃ bytes, Contract.generateBytesForParameter param input.type = .ok (bytes, head)
  elementary : input.type ∈ [.uint, .int, .bool, .address] → head.length = 32
  bytesStatic : input.type = .bytesStatic → (head.length = 32 ↔ 1 ≤ param.size.toInt ∧ param.size.toInt ≤ 32)
  elements : input.type = .arrayStatic → ∀ pointer items, param.value = .elements pointer items →
    (∀ item ∈ items.take param.size.toNatClampNeg, item.type ≠ .unknown ∧ item.isDynamic = false) →
    ∃ pieces, List.Forall₂ EncodedElement (items.take param.size.toNatClampNeg) pieces ∧ head = pieces.flatten
  oneWord : input.type = .arrayStatic → ∀ pointer items, param.value = .elements pointer items →
    (∀ item ∈ items.take param.size.toNatClampNeg, OneWord item) → head.length = 32 * param.size.toNatClampNeg
  conforming : ∀ value, valueOf? input param = some value →
    head.length = declaredWidth input ∧
      (∀ item ∈ value.scalars, item.HasType (scalarType input).1 (scalarType input).2) ∧
      (value.NoFalse → head = cells (words value.scalars))

private theorem oneWord_known {item : ParameterValue} (one : OneWord item) :
    item.type ≠ .unknown ∧ item.isDynamic = false := by
  simp only [OneWord, List.mem_cons, List.not_mem_nil, or_false] at one
  rcases one with (type | type | type | type) | ⟨type, -⟩ <;>
    simp [ParameterValue.isDynamic, EthereumTypeName.isDynamic, type]

private theorem oneWord_length {item : ParameterValue} {piece : Cells} (one : OneWord item)
    (encoded : EncodedElement item piece) : piece.length = 32 := by
  obtain ⟨bytes, ran⟩ := encoded
  rcases one with elementary | ⟨type, sized⟩
  · exact generateBytesForParameter_word elementary ran
  · rw [type] at ran
    exact (generateBytesForParameter_bytesStatic ran).mpr sized

private theorem pieces_length {items : List ParameterValue} {pieces : List Cells}
    (each : List.Forall₂ EncodedElement items pieces) (one : ∀ item ∈ items, OneWord item) :
    pieces.flatten.length = 32 * items.length := by
  induction each with
  | nil => rfl
  | cons head _ ih =>
    have first := oneWord_length (one _ List.mem_cons_self) head
    have others := ih fun item member => one item (List.mem_cons_of_mem _ member)
    rw [List.flatten_cons, List.length_append, List.length_cons, first, others]
    omega

/-- A value that conforms to the declaration takes the bytes that the declaration prescribes. -/
private theorem conforming_width {input : InputOutputAbi} {param : ParameterValue} {bytes : Count} {head : Cells}
    {value : Value} (static : input.isDynamic = false)
    (ran : Contract.generateBytesForParameter param input.type = .ok (bytes, head))
    (denotes : valueOf? input param = some value) :
    head.length = declaredWidth input ∧
      (∀ item ∈ value.scalars, item.HasType (scalarType input).1 (scalarType input).2) ∧
      (value.NoFalse → head = cells (words value.scalars)) := by
  have inPlace : value.part.isByOffset = false := (isDynamic_of_value denotes).symm.trans static
  have sent : head = cells (words (value.scalars.map Scalar.sent)) := by
    have encoded := generateBytesForParameter_value denotes (short_of_static inPlace)
    split_ifs at encoded
    · obtain ⟨count, same⟩ := encoded
      rw [ran, sent_body_static inPlace] at same
      exact (Prod.mk.inj (Except.ok.inj same)).2
    · rw [ran] at encoded
      simp at encoded
  have typed : (∀ item ∈ value.scalars, item.HasType (scalarType input).1 (scalarType input).2) ∧
      32 * value.scalars.length = declaredWidth input := by
    rcases scalars_of_value denotes inPlace with ⟨type, -, length, each⟩ | ⟨type, scalar, rfl, each⟩
    · rw [scalarType, declaredWidth, if_pos type, if_pos type, length]
      exact ⟨each, rfl⟩
    · rw [scalarType, declaredWidth, if_neg type, if_neg type]
      simpa [Value.scalars] using each
  refine ⟨?_, typed.1, ?_⟩
  · rw [sent, cells_length, words_sent_length, words_length typed.1, typed.2]
  · intro plain
    rw [sent, (words_sent_eq_iff _).mpr plain]

theorem ownWidth_of_encoded {input : InputOutputAbi} {param : ParameterValue} {bytes : Count} {head : Cells}
    (static : input.isDynamic = false)
    (ran : Contract.generateBytesForParameter param input.type = .ok (bytes, head)) : OwnWidth input param head where
  encoded := ⟨bytes, ran⟩
  elementary type := generateBytesForParameter_word type ran
  bytesStatic type := generateBytesForParameter_bytesStatic (type ▸ ran)
  elements type pointer items holds known := (generateBytesForParameter_elements holds known (type ▸ ran)).2
  oneWord type pointer items holds one := by
    obtain ⟨enough, pieces, each, rfl⟩ :=
      generateBytesForParameter_elements holds (fun item member => oneWord_known (one item member)) (type ▸ ran)
    rw [pieces_length each one, List.length_take, Nat.min_eq_left enough]
  conforming value denotes := conforming_width static ran denotes

/-! ## The arguments of a call -/

section

variable {keccak_256 : Keccak} {params : ParameterValuesDictionary}

/-- Declared sizes, counts and types of elements have no part in the encoding. -/
theorem encodeInputs_sameKinds {inputs others : List InputOutputAbi} (same : SameKinds inputs others) :
    Contract.encodeInputs params inputs = Contract.encodeInputs params others := by
  induction same with
  | nil => rfl
  | cons head _ ih =>
    obtain ⟨name, type, dynamic⟩ := head
    rw [Contract.encodeInputs, Contract.encodeInputs, name, type, dynamic, ih]

private theorem moveTails_static {inputs : List InputOutputAbi} {encoded : List Contract.EncodedInput}
    (each : List.Forall₂ (EncodesInput params) inputs encoded) (static : ∀ input ∈ inputs, input.isDynamic = false) :
    Contract.moveTails encoded = [] := by
  induction each with
  | nil => rfl
  | cons head _ ih =>
    have first := head.1.trans (static _ List.mem_cons_self)
    rw [Contract.moveTails, List.flatMap_cons, if_neg (by simp [first])]
    exact ih fun input member => static input (List.mem_cons_of_mem _ member)

/-- A call whose static arguments have the widths of their supplied values, and the same arguments
whatever sizes, counts and types of elements the function declares. -/
def CallsInOwnWidths (keccak_256 : Keccak) (params : ParameterValuesDictionary) (function : FunctionAbi)
    (call : Cells) : Prop :=
  ∃ signature heads tails, function.getSignature = .ok signature ∧
    call = cells (selector keccak_256 signature) ++ (heads.flatten ++ tails) ∧
    List.Forall₂ (fun input head => input.isDynamic = false →
      ∃ param, params.getParameter? input.name = some param ∧ OwnWidth input param head) function.inputs heads ∧
    ((∀ input ∈ function.inputs, input.isDynamic = false) → tails = []) ∧
    ∀ declared : FunctionAbi, SameKinds function.inputs declared.inputs →
      ∀ other, declared.getSignature = .ok other → ∀ out,
        Contract.generateCallData keccak_256 ⟨[declared]⟩ declared.name params out =
          .ok (.success, hexText (cells (selector keccak_256 other) ++ (heads.flatten ++ tails)))

/-- The call data of a contract with one function. -/
private theorem generateCallData_one {function : FunctionAbi} {call : Cells}
    (encoded : callOf keccak_256 params function = .ok (some call)) (short : call.length < 2 ^ 31) (out : Cells) :
    Contract.generateCallData keccak_256 ⟨[function]⟩ function.name params out = .ok (.success, hexText call) := by
  rw [Contract.generateCallData]
  refine (callDataLoop_cons rfl [] [] out).mpr (.inr ⟨call, encoded, by simpa using short, ?_⟩)
  rw [Contract.callDataLoop, List.nil_append]

theorem callsInOwnWidths {function : FunctionAbi} {call : Cells}
    (ran : callOf keccak_256 params function = .ok (some call)) (short : call.length < 2 ^ 31) :
    CallsInOwnWidths keccak_256 params function call := by
  obtain ⟨signature, encoded, printed, loop, rfl⟩ := callOf_some_iff.mp ran
  have each := (encodeInputs_each loop).1
  have arguments : (encoded.map Contract.EncodedInput.inPlace).flatten ++ Contract.moveTails encoded =
      encoded.flatMap Contract.EncodedInput.inPlace ++ Contract.moveTails encoded := by
    rw [List.flatMap_def]
  refine ⟨signature, encoded.map Contract.EncodedInput.inPlace, Contract.moveTails encoded, printed, ?_, ?_, ?_, ?_⟩
  · rw [arguments]
  · rw [List.forall₂_map_right_iff]
    apply each.imp
    rintro input found ⟨dynamic, param, supplied, read⟩ static
    rw [Contract.EncodedInput.inPlace, dynamic, static]
    exact ⟨param, supplied, ownWidth_of_encoded static read⟩
  · exact moveTails_static each
  · intro declared same other printedOther out
    have behind : callOf keccak_256 params declared = .ok (some (cells (selector keccak_256 other) ++
        (encoded.flatMap Contract.EncodedInput.inPlace ++ Contract.moveTails encoded))) :=
      callOf_some_iff.mpr ⟨other, encoded, printedOther, (encodeInputs_sameKinds same).symm.trans loop, rfl⟩
    rw [arguments]
    apply generateCallData_one behind
    rwa [List.length_append, cells_length, selector_length] at short ⊢

/-! ## Calls -/

private theorem callsInOwnWidths_each {functions : List FunctionAbi} {calls : List Cells}
    (encoded : CallsOf keccak_256 params functions calls) (short : calls.flatten.length < 2 ^ 31) :
    List.Forall₂ (CallsInOwnWidths keccak_256 params) functions calls := by
  induction encoded with
  | nil => exact .nil
  | cons head _ ih =>
    rw [List.flatten_cons, List.length_append] at short
    exact .cons (callsInOwnWidths head (by omega)) (ih (by omega))

/-- A call fails only when a value is missing, and in a call that succeeds each static argument has
the width of its supplied value. -/
theorem generateCallData_ownWidths (keccak_256 : Keccak) (contract : Contract) (functionName : Bytes)
    (params : ParameterValuesDictionary) (out : Cells) {ret : ResultCode} {result : Cells}
    (returned : contract.generateCallData keccak_256 functionName params out = .ok (ret, result)) :
    (ret = .success ↔ ∀ function ∈ contract.named functionName, ∀ input ∈ function.inputs,
      (params.getParameter? input.name).isSome) ∧
    (ret = .success → ∃ calls, List.Forall₂ (CallsInOwnWidths keccak_256 params) (contract.named functionName) calls ∧
      result = if contract.named functionName = [] then out else hexText calls.flatten) := by
  rw [generateCallData_named] at returned
  rcases callDataLoop_returned named_name (by norm_num) returned with
    ⟨rfl, calls, encoded, short, rfl⟩ | ⟨rfl, before, function, after, -, same, -, stops, -⟩
  · rw [List.length_nil, Nat.zero_add] at short
    refine ⟨iff_of_true rfl ?_, fun _ => ⟨calls, callsInOwnWidths_each encoded short, by rw [List.nil_append]⟩⟩
    intro function member input present
    obtain ⟨param, supplied, -⟩ := (encoded.callable function member).supplied input present
    rw [supplied]
    rfl
  · refine ⟨iff_of_false (by simp) ?_, by simp⟩
    intro all
    obtain ⟨front, input, back, inputs, missing, -⟩ := stops.missing
    have supplied := all function (by simp [same]) input (by simp [inputs])
    rw [missing] at supplied
    cases supplied

/-- The call of a function with five inputs, one of them an array, succeeds because they all have values. -/
theorem setLimits_inOwnWidths :
    (ResultCode.success = .success ↔ ∀ function ∈ SetLimits.contract.named (ascii "setLimits"),
      ∀ input ∈ function.inputs, ((SetLimits.params 256).getParameter? input.name).isSome) ∧
    (ResultCode.success = .success →
      ∃ calls, List.Forall₂ (CallsInOwnWidths paddedHash (SetLimits.params 256))
        (SetLimits.contract.named (ascii "setLimits")) calls ∧
        cells (hex (ascii "setL" ++ words ((SetLimits.values 256).flatMap Value.scalars))) =
          if SetLimits.contract.named (ascii "setLimits") = [] then [] else hexText calls.flatten) :=
  generateCallData_ownWidths paddedHash SetLimits.contract (ascii "setLimits") (SetLimits.params 256) []
    (by decide +kernel)

end

/-! ## A value wider than its declaration -/

/-- A success has for each static input a value that conforms to the declaration, in the bytes that
the declaration prescribes. -/
def KeepsDeclaredWidths (keccak_256 : Keccak) (contract : Contract) (functionName : Bytes)
    (params : ParameterValuesDictionary) (out : Cells) : Prop :=
  ∀ result, contract.generateCallData keccak_256 functionName params out = .ok (.success, result) →
    ∀ function ∈ contract.named functionName, ∀ input ∈ function.inputs, input.isDynamic = false →
      ∃ param value bytes head, params.getParameter? input.name = some param ∧ valueOf? input param = some value ∧
        Contract.generateBytesForParameter param input.type = .ok (bytes, head) ∧ head.length = declaredWidth input

namespace SetCode

/-- `setCode(bytes4 _code)`, as the ABI parser leaves it. -/
def function : FunctionAbi where
  constant := false
  inputs := [{ name := ascii "_code", type := .bytesStatic, sizeBytes := 4, arrayType := .unknown, arraySize := 0 }]
  name := ascii "setCode"
  payable := false

def contract : Contract := ⟨[function]⟩

def code : ParameterValue := { value := .bytes 0x1000 (cells (List.replicate 33 1)), size := 33, type := .bytesStatic }

def params : ParameterValuesDictionary := ParameterValuesDictionary.empty.addParameter (ascii "_code") code

end SetCode

/-- Thirty-three bytes for a `bytes4` are a success of two words. -/
theorem setCode_takes_two_words :
    SetCode.contract.generateCallData paddedHash (ascii "setCode") SetCode.params [] =
        .ok (.success, cells (hex (ascii "setC" ++ (List.replicate 33 1 ++ List.replicate 31 0)))) ∧
      ¬KeepsDeclaredWidths paddedHash SetCode.contract (ascii "setCode") SetCode.params [] := by
  have produced : SetCode.contract.generateCallData paddedHash (ascii "setCode") SetCode.params [] =
      .ok (.success, cells (hex (ascii "setC" ++ (List.replicate 33 1 ++ List.replicate 31 0)))) := by decide
  refine ⟨produced, ?_⟩
  intro kept
  obtain ⟨param, value, bytes, head, supplied, denotes, -⟩ :=
    kept _ produced SetCode.function (by decide) _ List.mem_cons_self (by decide)
  have code : SetCode.params.getParameter? (ascii "_code") = some SetCode.code := rfl
  obtain rfl : SetCode.code = param := Option.some.inj (code.symm.trans supplied)
  rw [show valueOf? _ SetCode.code = none from rfl] at denotes
  simp at denotes

end Iotex
