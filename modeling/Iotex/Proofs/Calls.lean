import Iotex.Proofs.CallData
import Iotex.Proofs.EncoderRuns

/-! # Runs of the search loop

Which functions have call data, and how long it is; and how the search loop ends: behind the call data of all
functions of the name, or at the first of them with an input that has no value.
-/

namespace Iotex

open Spec

/-- The functions of a contract under a name. -/
def Contract.named (contract : Contract) (functionName : Bytes) : List FunctionAbi :=
  contract.functions.filter fun f => f.name == functionName

theorem named_name {contract : Contract} {functionName : Bytes} :
    ∀ function ∈ contract.named functionName, function.name = functionName := by
  intro function member
  simpa using (List.mem_filter.mp member).2

/-! ## Signatures -/

private theorem toText_unknown {text : Bytes} : EthereumTypeName.unknown.toText ≠ .ok text := by
  simp [EthereumTypeName.toText, ethereumTypeNameToStringLT, EthereumTypeName.ctorIdx]

private theorem known_of_signatureOfInput {input : InputOutputAbi} {text : Bytes}
    (printed : signatureOfInput input = .ok text) :
    input.type ≠ .unknown ∧ (input.type ∈ [.arrayStatic, .arrayDynamic] → input.arrayType ≠ .unknown) := by
  obtain ⟨typeText, first, printed⟩ := bind_eq_ok.mp printed
  constructor
  · intro unknown
    rw [unknown] at first
    exact toText_unknown first
  · intro array unknown
    simp only [List.mem_cons, List.not_mem_nil, or_false] at array
    rcases array with type | type <;> simp only [type, unknown] at printed <;>
      obtain ⟨element, found, -⟩ := bind_eq_ok.mp printed <;> exact toText_unknown found

private theorem signatureOfInput_of_known {input : InputOutputAbi} (known : input.type ≠ .unknown)
    (element : input.type ∈ [.arrayStatic, .arrayDynamic] → input.arrayType ≠ .unknown) :
    ∃ text, signatureOfInput input = .ok text := by
  obtain ⟨text, printed⟩ := toText_of_known known
  rw [signatureOfInput, printed, ok_bind]
  cases type : input.type
  case arrayStatic | arrayDynamic =>
    obtain ⟨elementText, elementPrinted⟩ := toText_of_known (element (by simp [type]))
    simp only [elementPrinted, ok_bind, pure_eq_ok]
    exact ⟨_, rfl⟩
  all_goals exact ⟨_, rfl⟩

private theorem each_of_signatureOfInputs {inputs : List InputOutputAbi} {text : Bytes}
    (printed : signatureOfInputs inputs = .ok text) : ∀ input ∈ inputs, ∃ text, signatureOfInput input = .ok text := by
  induction inputs generalizing text with
  | nil => simp
  | cons input rest ih =>
    cases rest with
    | nil =>
      intro other member
      obtain rfl := List.mem_singleton.mp member
      exact ⟨text, printed⟩
    | cons next rest =>
      rw [signatureOfInputs] at printed
      · obtain ⟨first, head, printed⟩ := bind_eq_ok.mp printed
        obtain ⟨texts, tail, -⟩ := bind_eq_ok.mp printed
        exact List.forall_mem_cons.mpr ⟨⟨first, head⟩, ih tail⟩
      · simp

theorem getSignature_iff {function : FunctionAbi} :
    (∃ signature, function.getSignature = .ok signature) ↔ SignaturePrintable function := by
  constructor
  · rintro ⟨signature, printed⟩
    obtain ⟨text, inputs, printed⟩ := bind_eq_ok.mp printed
    obtain ⟨_, counted, -⟩ := bind_eq_ok.mp printed
    have each := each_of_signatureOfInputs inputs
    refine ⟨?_, ?_, ?_⟩
    · rw [countInt] at counted
      split_ifs at counted with bound
      exact bound
    · intro input member
      obtain ⟨text, found⟩ := each input member
      exact (known_of_signatureOfInput found).1
    · intro input member
      obtain ⟨text, found⟩ := each input member
      exact (known_of_signatureOfInput found).2
  · rintro ⟨counted, types, elementTypes⟩
    obtain ⟨text, printed⟩ := signatureOfInputs_of_each fun input member =>
      signatureOfInput_of_known (types input member) (elementTypes input member)
    rw [FunctionAbi.getSignature, printed, ok_bind, countInt_of_lt counted]
    exact ⟨_, rfl⟩

variable {keccak_256 : Keccak} {params : ParameterValuesDictionary}

/-! ## Inputs -/

/-- What the loop over the inputs keeps for one input. -/
def EncodesInput (params : ParameterValuesDictionary) (input : InputOutputAbi) (encoded : Contract.EncodedInput) :
    Prop :=
  encoded.isDynamic = input.isDynamic ∧ ∃ param, params.getParameter? input.name = some param ∧
    Contract.generateBytesForParameter param input.type = .ok (encoded.bytes, encoded.data)

/-- An input is encoded with as many bytes as its value says, which are written as it says. -/
theorem EncodesInput.foretold {input : InputOutputAbi} {encoded : Contract.EncodedInput}
    (kept : EncodesInput params input encoded) :
    Supplied params input ∧ encoded.data.length = inputLength params input ∧
      (Initialized encoded.data ↔
        ∀ param, params.getParameter? input.name = some param → bytesSet param input.type = true) := by
  obtain ⟨-, param, supplied, ran⟩ := kept
  have runs := generateBytesForParameter_runs param input.type
  rw [ran] at runs
  obtain ⟨known, -, length, written⟩ := runsAs_of_ok runs
  refine ⟨⟨param, supplied, known⟩, by rw [inputLength, supplied, length]; rfl, ?_⟩
  simp [supplied, written]

/-- A supplied input is encoded. -/
theorem encodesInput_of_supplied {input : InputOutputAbi} (known : Supplied params input) :
    ∃ encoded, EncodesInput params input encoded := by
  obtain ⟨param, supplied, readable⟩ := known
  have runs := generateBytesForParameter_runs param input.type
  rw [RunsAs, if_pos readable] at runs
  obtain ⟨data, ran, -⟩ := runs
  exact ⟨⟨input.isDynamic, _, data⟩, rfl, param, supplied, ran⟩

/-- One step of the loop over the inputs, at an input that has a value. -/
theorem encodeInputs_step {input : InputOutputAbi} {rest : List InputOutputAbi} {first : Contract.EncodedInput}
    (kept : EncodesInput params input first) {encoded : Option (List Contract.EncodedInput)} :
    Contract.encodeInputs params (input :: rest) = .ok encoded ↔
      first.data.length < 2 ^ 31 ∧ ∃ others, Contract.encodeInputs params rest = .ok others ∧
        encoded = others.map fun others => first :: others := by
  obtain ⟨isDynamic, bytes, data⟩ := first
  obtain ⟨rfl, param, supplied, ran⟩ := kept
  rw [encodeInputs_cons]
  constructor
  · rintro (⟨missing, -⟩ | ⟨other, count, text, others, found, read, short, loop, rfl⟩)
    · rw [supplied] at missing
      cases missing
    · obtain rfl : param = other := Option.some.inj (supplied.symm.trans found)
      obtain ⟨rfl, rfl⟩ := Prod.mk.inj (Except.ok.inj (ran.symm.trans read))
      exact ⟨short, others, loop, rfl⟩
  · rintro ⟨short, others, loop, rfl⟩
    exact .inr ⟨param, bytes, data, others, supplied, ran, short, loop, rfl⟩

theorem encodeInputs_each {inputs : List InputOutputAbi} {encoded : List Contract.EncodedInput}
    (ran : Contract.encodeInputs params inputs = .ok (some encoded)) :
    List.Forall₂ (EncodesInput params) inputs encoded ∧ ∀ kept ∈ encoded, kept.data.length < 2 ^ 31 := by
  induction inputs generalizing encoded with
  | nil =>
    obtain rfl := Option.some.inj (Except.ok.inj ran)
    exact ⟨.nil, by simp⟩
  | cons input rest ih =>
    rcases encodeInputs_cons.mp ran with ⟨-, none⟩ | ⟨param, bytes, data, others, supplied, first, short, loop, same⟩
    · cases none
    · obtain ⟨tail, rfl, rfl⟩ := Option.map_eq_some_iff.mp same.symm
      obtain ⟨each, shorts⟩ := ih loop
      exact ⟨.cons ⟨rfl, param, supplied, first⟩ each, List.forall_mem_cons.mpr ⟨short, shorts⟩⟩

/-- The loop over the inputs ends with an encoding exactly when all of them have values that can be read. -/
theorem encodeInputs_some_iff {inputs : List InputOutputAbi} :
    (∃ encoded, Contract.encodeInputs params inputs = .ok (some encoded)) ↔
      ∀ input ∈ inputs, Supplied params input ∧ inputLength params input < 2 ^ 31 := by
  constructor
  · rintro ⟨encoded, ran⟩ input member
    obtain ⟨each, shorts⟩ := encodeInputs_each ran
    clear ran
    induction each with
    | nil => cases member
    | @cons _ kept _ others head _ ih =>
      obtain ⟨short, rest⟩ := List.forall_mem_cons.mp shorts
      rcases List.mem_cons.mp member with rfl | member
      · obtain ⟨known, length, -⟩ := head.foretold
        exact ⟨known, length ▸ short⟩
      · exact ih member rest
  · intro all
    induction inputs with
    | nil => exact ⟨[], rfl⟩
    | cons input rest ih =>
      obtain ⟨⟨known, short⟩, others⟩ := List.forall_mem_cons.mp all
      obtain ⟨first, kept⟩ := encodesInput_of_supplied known
      obtain ⟨tail, loop⟩ := ih others
      exact ⟨_, (encodeInputs_step kept).mpr ⟨kept.foretold.2.1 ▸ short, _, loop, rfl⟩⟩

/-- The loop over the inputs ends without one exactly at the first input that has no value, if it gets there. -/
theorem encodeInputs_none_iff {inputs : List InputOutputAbi} :
    Contract.encodeInputs params inputs = .ok none ↔
      ∃ before input after, inputs = before ++ input :: after ∧ params.getParameter? input.name = none ∧
        ∀ earlier ∈ before, Supplied params earlier ∧ inputLength params earlier < 2 ^ 31 := by
  constructor
  · intro ran
    induction inputs with
    | nil => cases ran
    | cons input rest ih =>
      rcases encodeInputs_cons.mp ran with ⟨missing, -⟩ | ⟨param, bytes, data, others, supplied, first, short, loop, same⟩
      · exact ⟨[], input, rest, rfl, missing, by simp⟩
      · obtain rfl : others = none := by simpa using same.symm
        obtain ⟨before, missing, after, rfl, none, all⟩ := ih loop
        have kept : EncodesInput params input ⟨input.isDynamic, bytes, data⟩ := ⟨rfl, param, supplied, first⟩
        obtain ⟨known, length, -⟩ := kept.foretold
        exact ⟨input :: before, missing, after, rfl, none, List.forall_mem_cons.mpr ⟨⟨known, length ▸ short⟩, all⟩⟩
  · rintro ⟨before, input, after, rfl, missing, all⟩
    induction before with
    | nil => exact encodeInputs_cons.mpr (.inl ⟨missing, rfl⟩)
    | cons earlier before ih =>
      obtain ⟨⟨known, short⟩, others⟩ := List.forall_mem_cons.mp all
      obtain ⟨first, kept⟩ := encodesInput_of_supplied known
      exact (encodeInputs_step kept).mpr ⟨kept.foretold.2.1 ▸ short, none, ih others, rfl⟩

/-! ## Functions -/

private theorem arguments_length (inputs : List Contract.EncodedInput) :
    (inputs.flatMap Contract.EncodedInput.inPlace ++ Contract.moveTails inputs).length =
      (inputs.map fun input => input.data.length).sum := by
  rw [Contract.moveTails, List.length_append]
  induction inputs with
  | nil => rfl
  | cons input rest ih =>
    simp only [List.flatMap_cons, List.length_append, List.map_cons, List.sum_cons, ← ih, Contract.EncodedInput.inPlace]
    split_ifs <;> simp only [List.length_nil] <;> omega

private theorem arguments_initialized {inputs : List Contract.EncodedInput} :
    Initialized (inputs.flatMap Contract.EncodedInput.inPlace ++ Contract.moveTails inputs) ↔
      ∀ input ∈ inputs, Initialized input.data := by
  rw [Contract.moveTails, initialized_append]
  induction inputs with
  | nil => simp [Initialized]
  | cons input rest ih =>
    rw [List.forall_mem_cons, ← ih, List.flatMap_cons, List.flatMap_cons, initialized_append, initialized_append,
      Contract.EncodedInput.inPlace]
    have nothing : Initialized [] := by simp [Initialized]
    split_ifs
    · simp only [nothing]
      tauto
    · simp only [nothing]
      tauto

/-- A function that has call data is callable; its call data is as long as foretold, and written as foretold. -/
theorem callable_of_callOf {function : FunctionAbi} {call : Cells}
    (encoded : callOf keccak_256 params function = .ok (some call)) :
    Callable params function ∧ call.length = callLength params function ∧
      (Initialized call ↔ BytesSet params function) := by
  obtain ⟨signature, inputs, printed, loop, rfl⟩ := callOf_some_iff.mp encoded
  have all := encodeInputs_some_iff.mp ⟨inputs, loop⟩
  have each := (encodeInputs_each loop).1
  refine ⟨⟨getSignature_iff.mp ⟨_, printed⟩, fun input member => (all input member).1⟩, ?_, ?_⟩
  · rw [List.length_append, cells_length, selector_length, arguments_length, callLength]
    congr 1
    clear all loop printed encoded
    generalize function.inputs = declared at each ⊢
    induction each with
    | nil => rfl
    | cons head _ ih => rw [List.map_cons, List.map_cons, List.sum_cons, List.sum_cons, ih, head.foretold.2.1]
  · rw [initialized_append, and_iff_right (initialized_cells _), arguments_initialized, BytesSet]
    clear all loop printed encoded
    generalize function.inputs = declared at each ⊢
    induction each with
    | nil => simp
    | cons head _ ih => rw [List.forall_mem_cons, List.forall_mem_cons, ih, head.foretold.2.2]

/-- The functions all have call data. -/
def CallsOf (keccak_256 : Keccak) (params : ParameterValuesDictionary) (functions : List FunctionAbi)
    (calls : List Cells) : Prop :=
  List.Forall₂ (fun function call => callOf keccak_256 params function = .ok (some call)) functions calls

theorem CallsOf.callable {functions : List FunctionAbi} {calls : List Cells}
    (encoded : CallsOf keccak_256 params functions calls) : ∀ function ∈ functions, Callable params function := by
  intro function member
  obtain ⟨call, found⟩ := exists_of_forall₂ encoded member
  exact (callable_of_callOf found).1

theorem CallsOf.initialized {functions : List FunctionAbi} {calls : List Cells}
    (encoded : CallsOf keccak_256 params functions calls) :
    Initialized calls.flatten ↔ ∀ function ∈ functions, BytesSet params function := by
  induction encoded with
  | nil => simp [Initialized]
  | cons head _ ih =>
    rw [List.flatten_cons, initialized_append, ih, List.forall_mem_cons, (callable_of_callOf head).2.2]

/-- Behind some call data the text is that of all of them, also when there are no more functions. -/
private theorem CallsOf.text_behind {functions : List FunctionAbi} {calls : List Cells}
    (encoded : CallsOf keccak_256 params functions calls) (contractData : Cells) :
    (if functions = [] then hexText contractData else hexText (contractData ++ calls.flatten)) =
      hexText (contractData ++ calls.flatten) := by
  split_ifs with last
  · subst last
    rw [List.forall₂_nil_left_iff.mp encoded, List.flatten_nil, List.append_nil]
  · rfl

/-- The search loop over functions that all have call data. -/
theorem callDataLoop_callsOf {functionName : Bytes} {functions : List FunctionAbi} {calls : List Cells}
    (named : ∀ function ∈ functions, function.name = functionName)
    (encoded : CallsOf keccak_256 params functions calls) (rest : List FunctionAbi) {contractData : Cells}
    (short : contractData.length + calls.flatten.length < 2 ^ 31) (out : Cells) {code : ResultCode} {result : Cells} :
    Contract.callDataLoop keccak_256 functionName params (functions ++ rest) contractData out = .ok (code, result) ↔
      Contract.callDataLoop keccak_256 functionName params rest (contractData ++ calls.flatten)
        (if functions = [] then out else hexText (contractData ++ calls.flatten)) = .ok (code, result) := by
  induction encoded generalizing contractData out with
  | nil => simp
  | @cons function call others calls head tail ih =>
    obtain ⟨name, names⟩ := List.forall_mem_cons.mp named
    rw [List.flatten_cons, List.length_append] at short
    rw [List.cons_append, callDataLoop_cons name]
    have step := @ih names (contractData ++ call) (by rw [List.length_append]; omega) (hexText (contractData ++ call))
    rw [CallsOf.text_behind tail] at step
    rw [if_neg (List.cons_ne_nil _ _), List.flatten_cons, ← List.append_assoc, ← step]
    constructor
    · rintro (⟨signature, printed, -, missing, -⟩ | ⟨other, found, -, ran⟩)
      · obtain ⟨_, inputs, -, loop, -⟩ := callOf_some_iff.mp head
        rw [missing] at loop
        cases loop
      · obtain rfl : call = other := Option.some.inj (Except.ok.inj (head.symm.trans found))
        exact ran
    · intro ran
      exact .inr ⟨call, head, by omega, ran⟩

/-- The search loop returns behind the call data of all functions, or at a function with an input that has no
value, whose selector is left in the output. -/
theorem callDataLoop_returned {functionName : Bytes} {functions : List FunctionAbi}
    (named : ∀ function ∈ functions, function.name = functionName) {contractData out result : Cells} {code : ResultCode}
    (start : contractData.length < 2 ^ 31)
    (ran : Contract.callDataLoop keccak_256 functionName params functions contractData out = .ok (code, result)) :
    (code = .success ∧ ∃ calls, CallsOf keccak_256 params functions calls ∧
      contractData.length + calls.flatten.length < 2 ^ 31 ∧
      result = if functions = [] then out else hexText (contractData ++ calls.flatten)) ∨
    (code = .errorBadParameter ∧ ∃ before function after calls, functions = before ++ function :: after ∧
      CallsOf keccak_256 params before calls ∧ StopsCall params function ∧
      contractData.length + calls.flatten.length + 4 < 2 ^ 31) := by
  induction functions generalizing contractData out with
  | nil =>
    obtain ⟨rfl, rfl⟩ := Prod.mk.inj (Except.ok.inj ran)
    exact .inl ⟨rfl, [], .nil, by simpa using start, rfl⟩
  | cons function rest ih =>
    obtain ⟨name, names⟩ := List.forall_mem_cons.mp named
    rcases (callDataLoop_cons name rest contractData out).mp ran with
      ⟨signature, printed, short, missing, rfl, -⟩ | ⟨call, encoded, short, ran⟩
    · have stops : StopsCall params function := ⟨getSignature_iff.mp ⟨_, printed⟩, encodeInputs_none_iff.mp missing⟩
      exact .inr ⟨rfl, [], function, rest, [], rfl, .nil, stops, by simpa using short⟩
    · rw [← List.length_append] at short
      rcases ih names short ran with ⟨rfl, calls, tail, total, rfl⟩ | ⟨rfl, before, stop, after, calls, rfl, tail, stops, total⟩
      · refine .inl ⟨rfl, call :: calls, .cons encoded tail, ?_, ?_⟩
        · rw [List.length_append] at total
          rw [List.flatten_cons, List.length_append]
          omega
        · rw [if_neg (List.cons_ne_nil _ _), List.flatten_cons, ← List.append_assoc, tail.text_behind]
      · refine .inr ⟨rfl, function :: before, stop, after, call :: calls, rfl, .cons encoded tail, stops, ?_⟩
        rw [List.length_append] at total
        rw [List.flatten_cons, List.length_append]
        omega

theorem generateCallData_named (keccak_256 : Keccak) (contract : Contract) (functionName : Bytes)
    (params : ParameterValuesDictionary) (out : Cells) :
    contract.generateCallData keccak_256 functionName params out =
      Contract.callDataLoop keccak_256 functionName params (contract.named functionName) [] out :=
  Contract.callDataLoop_filter keccak_256 functionName params contract.functions [] out

/-- The call data of functions that all have some, as long as an `int` counts it. -/
theorem generateCallData_callsOf {contract : Contract} {functionName : Bytes} {calls : List Cells}
    (encoded : CallsOf keccak_256 params (contract.named functionName) calls) (short : calls.flatten.length < 2 ^ 31)
    (out : Cells) :
    contract.generateCallData keccak_256 functionName params out =
      .ok (.success, if contract.named functionName = [] then out else hexText calls.flatten) := by
  have all := (@callDataLoop_callsOf keccak_256 params functionName _ _ named_name encoded [] [] (by simpa using short) out
    .success (if contract.named functionName = [] then out else hexText calls.flatten)).mpr
    (by rw [Contract.callDataLoop, List.nil_append])
  rwa [List.append_nil, ← generateCallData_named] at all

end Iotex
