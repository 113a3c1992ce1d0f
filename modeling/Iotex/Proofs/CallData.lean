import Iotex.Lib.Collect
import Iotex.Proofs.Encoders

/-! # Assembling call data

What `generateCallData` puts together from its encoded inputs. Only functions of the requested
name matter; the static heads and the dynamic tails reach the output, the offset heads do not.
-/

namespace Iotex

open Spec

/-! ## Text of bytes -/

theorem hexText_cells (bytes : Bytes) : hexText (cells bytes) = cells (hex bytes) := by
  induction bytes with
  | nil => rfl
  | cons byte rest ih =>
    rw [hex_cons, cells_append, ← ih]
    rfl

theorem hexText_append (a b : Cells) : hexText (a ++ b) = hexText a ++ hexText b := List.flatMap_append

theorem vectorToHexString_eq_ok {data text : Cells} :
    vectorToHexString data = .ok text ↔ data.length < 2 ^ 31 ∧ text = hexText data := by
  rw [vectorToHexString, countInt]
  split_ifs with counted
  · rw [ok_bind, pure_eq_ok, Except.ok.injEq, eq_comm, and_iff_right counted]
  · rw [error_bind]
    exact iff_of_false (by simp) fun both => counted both.1

theorem vectorToHexString_of_lt {data : Cells} (counted : data.length < 2 ^ 31) :
    vectorToHexString data = .ok (hexText data) := vectorToHexString_eq_ok.mpr ⟨counted, rfl⟩

namespace Contract

/-- A head is generated from any offset, set or not. -/
theorem generateBytesForUint_sizeT (offset : Option ℕ) (out : Cells) :
    ∃ head, generateBytesForUint (sizeTBytes offset) 8 out = .ok (32, head) := by
  have length : 8 ≤ (sizeTBytes offset).length := by
    cases offset <;> simp [sizeTBytes, uninitialized]
  rw [generateBytesForUint, if_neg (by omega), readFirst_of_le length]
  exact ⟨_, rfl⟩

/-- The bytes of an input that stand among the heads in the output. -/
def EncodedInput.inPlace (input : EncodedInput) : Cells := if input.isDynamic then [] else input.data

/-- The static heads are moved and the heads of dynamic inputs are lost. -/
theorem moveHeads_eq (offset : Option ℕ) (inputs : List EncodedInput) :
    moveHeads offset inputs = .ok (inputs.flatMap EncodedInput.inPlace) := by
  induction inputs generalizing offset with
  | nil => rfl
  | cons input rest ih =>
    obtain ⟨head, generated⟩ := generateBytesForUint_sizeT offset (cells (List.replicate 32 0))
    rw [moveHeads, List.flatMap_cons, EncodedInput.inPlace]
    cases input.isDynamic
    · simp only [Bool.not_false, ↓reduceIte, pure_eq_ok, ok_bind, ih, Bool.false_eq_true]
    · simp only [Bool.not_true, Bool.false_eq_true, ↓reduceIte, generated, pure_eq_ok, ok_bind, ih]

theorem assemble_eq (inputs : List EncodedInput) :
    assemble inputs = .ok (inputs.flatMap EncodedInput.inPlace ++ moveTails inputs) := by
  rw [assemble, moveHeads_eq]
  rfl

variable (keccak_256 : Keccak)

/-- Functions of other names do not affect the call data. -/
theorem callDataLoop_filter (functionName : Bytes) (params : ParameterValuesDictionary)
    (functions : List FunctionAbi) (contractData out : Cells) :
    callDataLoop keccak_256 functionName params functions contractData out =
      callDataLoop keccak_256 functionName params (functions.filter fun f => f.name == functionName)
        contractData out := by
  induction functions generalizing contractData out with
  | nil => rfl
  | cons function rest ih =>
    by_cases named : function.name = functionName
    · rw [List.filter_cons_of_pos (by simpa using named), callDataLoop, callDataLoop, if_pos named, if_pos named]
      simp only [ih]
    · rw [List.filter_cons_of_neg (by simpa using named), callDataLoop, if_neg named, ih]

end Contract

/-! ## One call -/

/-- The call data of one function on its own; `none` when a value is missing. -/
def callOf (keccak_256 : Keccak) (params : ParameterValuesDictionary) (function : FunctionAbi) :
    Exec (Option Cells) := do
  let selector ← Contract.generateFunctionSelector keccak_256 function
  match ← Contract.encodeInputs params function.inputs with
  | none => return none
  | some inputs => return some (cells selector ++ (← Contract.assemble inputs))

theorem selector_length (keccak_256 : Keccak) (signature : Bytes) : (selector keccak_256 signature).length = 4 := by
  simp [selector]

theorem generateFunctionSelector_eq_ok {keccak_256 : Keccak} {function : FunctionAbi} {hashed : Bytes} :
    Contract.generateFunctionSelector keccak_256 function = .ok hashed ↔
      ∃ signature, function.getSignature = .ok signature ∧ hashed = selector keccak_256 signature := by
  rw [Contract.generateFunctionSelector, bind_eq_ok]
  apply exists_congr
  intro signature
  apply and_congr_right
  intro _
  rw [pure_eq_ok, Except.ok.injEq, eq_comm]
  rfl

section
variable {keccak_256 : Keccak} {params : ParameterValuesDictionary} {function : FunctionAbi}

/-- Call data is the selector, the static arguments and the dynamic ones. -/
theorem callOf_some_iff {call : Cells} :
    callOf keccak_256 params function = .ok (some call) ↔
      ∃ signature inputs, function.getSignature = .ok signature ∧
        Contract.encodeInputs params function.inputs = .ok (some inputs) ∧
        call = cells (selector keccak_256 signature) ++
          (inputs.flatMap Contract.EncodedInput.inPlace ++ Contract.moveTails inputs) := by
  rw [callOf, bind_eq_ok]
  constructor
  · rintro ⟨hashed, selected, encoded⟩
    obtain ⟨signature, printed, rfl⟩ := generateFunctionSelector_eq_ok.mp selected
    obtain ⟨inputs, loop, encoded⟩ := bind_eq_ok.mp encoded
    cases inputs with
    | none => simp at encoded
    | some inputs =>
      simp only [Contract.assemble_eq, ok_bind, pure_eq_ok, Except.ok.injEq, Option.some.injEq] at encoded
      exact ⟨signature, inputs, printed, loop, encoded.symm⟩
  · rintro ⟨signature, inputs, printed, loop, rfl⟩
    refine ⟨_, generateFunctionSelector_eq_ok.mpr ⟨signature, printed, rfl⟩, ?_⟩
    rw [loop, ok_bind]
    simp only [Contract.assemble_eq, ok_bind, pure_eq_ok]

/-- Call data starts with the four bytes of the selector. -/
theorem callOf_length {call : Cells} (encoded : callOf keccak_256 params function = .ok (some call)) :
    4 ≤ call.length := by
  obtain ⟨signature, inputs, -, -, rfl⟩ := callOf_some_iff.mp encoded
  rw [List.length_append, cells_length, selector_length]
  omega

/-- What the search loop does at a function of the name: it stops at an input without a value, with the
selector in the output, or goes on behind the call data of the function. -/
theorem callDataLoop_cons {functionName : Bytes} (named : function.name = functionName) (rest : List FunctionAbi)
    (contractData out : Cells) {code : ResultCode} {result : Cells} :
    Contract.callDataLoop keccak_256 functionName params (function :: rest) contractData out = .ok (code, result) ↔
      (∃ signature, function.getSignature = .ok signature ∧ contractData.length + 4 < 2 ^ 31 ∧
        Contract.encodeInputs params function.inputs = .ok none ∧ code = .errorBadParameter ∧
        result = hexText (contractData ++ cells (selector keccak_256 signature))) ∨
      ∃ call, callOf keccak_256 params function = .ok (some call) ∧ contractData.length + call.length < 2 ^ 31 ∧
        Contract.callDataLoop keccak_256 functionName params rest (contractData ++ call)
          (hexText (contractData ++ call)) = .ok (code, result) := by
  have room (signature : Bytes) :
      (contractData ++ cells (selector keccak_256 signature)).length = contractData.length + 4 := by
    rw [List.length_append, cells_length, selector_length]
  rw [Contract.callDataLoop, if_pos named, bind_eq_ok]
  constructor
  · rintro ⟨hashed, selected, ran⟩
    obtain ⟨signature, printed, rfl⟩ := generateFunctionSelector_eq_ok.mp selected
    obtain ⟨text, shown, ran⟩ := bind_eq_ok.mp ran
    obtain ⟨counted, rfl⟩ := vectorToHexString_eq_ok.mp shown
    obtain ⟨inputs, loop, ran⟩ := bind_eq_ok.mp ran
    cases inputs with
    | none =>
      obtain ⟨rfl, rfl⟩ := Prod.mk.inj (Except.ok.inj ran)
      exact .inl ⟨signature, printed, (room signature).symm.trans_lt counted, loop, rfl, rfl⟩
    | some inputs =>
      simp only [Contract.assemble_eq, ok_bind] at ran
      obtain ⟨whole, shown, ran⟩ := bind_eq_ok.mp ran
      obtain ⟨counted, rfl⟩ := vectorToHexString_eq_ok.mp shown
      rw [List.append_assoc, List.length_append] at counted
      rw [List.append_assoc] at ran
      exact .inr ⟨_, callOf_some_iff.mpr ⟨signature, inputs, printed, loop, rfl⟩, counted, ran⟩
  · rintro (⟨signature, printed, counted, loop, rfl, rfl⟩ | ⟨call, encoded, counted, ran⟩)
    · refine ⟨_, generateFunctionSelector_eq_ok.mpr ⟨signature, printed, rfl⟩, ?_⟩
      dsimp only
      rw [vectorToHexString_of_lt ((room signature).trans_lt counted), ok_bind, loop]
      rfl
    · have four := callOf_length encoded
      obtain ⟨signature, inputs, printed, loop, rfl⟩ := callOf_some_iff.mp encoded
      refine ⟨_, generateFunctionSelector_eq_ok.mpr ⟨signature, printed, rfl⟩, ?_⟩
      dsimp only
      rw [vectorToHexString_of_lt ((room signature).trans_lt (by omega)), ok_bind, loop, ok_bind]
      simp only [Contract.assemble_eq, ok_bind, List.append_assoc]
      rw [vectorToHexString_of_lt (by rwa [List.length_append]), ok_bind, ran]

end

/-! ## Typed arguments -/

/-- The input type and the value agree on whether an argument is referred to by an offset. -/
theorem isDynamic_of_value {input : InputOutputAbi} {param : ParameterValue} {value : Value}
    (denotes : valueOf? input param = some value) : input.isDynamic = value.part.isByOffset := by
  rw [valueOf?.eq_def] at denotes
  split at denotes
  case h_8 =>
    rename_i type
    split_ifs at denotes with declared dynamic
    · obtain ⟨datas, found, rfl⟩ := Option.map_eq_some_iff.mp denotes
      simp [InputOutputAbi.isDynamic, type, dynamic, Value.part, HeadTail.Part.isByOffset]
    · obtain ⟨scalars, found, rfl⟩ := Option.map_eq_some_iff.mp denotes
      rw [Bool.not_eq_true] at dynamic
      simp only [InputOutputAbi.isDynamic, type, dynamic, Bool.and_false, Bool.or_false]
      rfl
  case h_10 => simp at denotes
  all_goals
    rename_i type
    obtain ⟨found, read, rfl⟩ := Option.map_eq_some_iff.mp denotes
    simp [InputOutputAbi.isDynamic, type, Value.part, HeadTail.Part.isByOffset, EthereumTypeName.isDynamic]

theorem scalarOf?_hasType {type : EthereumTypeName} {sizeBytes : UInt32} {param : ParameterValue} {scalar : Scalar}
    (denotes : scalarOf? type sizeBytes param = some scalar) : scalar.HasType type sizeBytes := by
  rw [scalarOf?.eq_def] at denotes
  split at denotes
  · split_ifs at denotes with typed
    obtain rfl := Option.some.inj denotes
    exact typed.2.2.2
  · split_ifs at denotes with typed
    obtain rfl := Option.some.inj denotes
    exact typed.2.2.2
  · split_ifs at denotes <;> obtain rfl := Option.some.inj denotes <;> trivial
  · obtain ⟨address, found, rfl⟩ := Option.map_eq_some_iff.mp denotes
    exact (firstBytes?_eq_some.mp found).1
  · split_ifs at denotes with typed
    obtain ⟨bytes, found, rfl⟩ := Option.map_eq_some_iff.mp denotes
    exact ⟨(firstBytes?_eq_some.mp found).1, typed.2.1, typed.2.2⟩
  · simp at denotes

theorem elements_hasType {type : EthereumTypeName} {sizeBytes : UInt32} {param : ParameterValue}
    {scalars : List Scalar} (denotes : elementsOf? type (scalarOf? type sizeBytes) param = some scalars) :
    ∀ item ∈ scalars, item.HasType type sizeBytes := by
  obtain ⟨pointer, first, rest, -, -, -, -, -, -, each⟩ := elementsOf?_eq_some denotes
  intro item member
  obtain ⟨param, -, found⟩ := exists_of_forall₂ each.flip member
  exact scalarOf?_hasType found

theorem Spec.Scalar.HasType.word_length {type : EthereumTypeName} {sizeBytes : UInt32} {scalar : Scalar}
    (typed : scalar.HasType type sizeBytes) : scalar.word.length = 32 := by
  cases scalar with
  | address bytes => cases type <;> simp_all [Scalar.HasType, Scalar.word]
  | bytesN data =>
    cases type <;> simp only [Scalar.HasType] at typed
    rw [Scalar.word, padRight_length _ _ (by omega), blocks]
    omega
  | _ => simp [Scalar.word]

theorem words_length {type : EthereumTypeName} {sizeBytes : UInt32} {items : List Scalar}
    (typed : ∀ item ∈ items, item.HasType type sizeBytes) : (words items).length = 32 * items.length := by
  induction items with
  | nil => rfl
  | cons item rest ih =>
    have first := (typed item List.mem_cons_self).word_length
    have others := ih fun other member => typed other (List.mem_cons_of_mem _ member)
    simp only [words, List.map_cons, List.flatten_cons, List.length_append, List.length_cons] at others ⊢
    omega

theorem sent_word_length (scalar : Scalar) : scalar.sent.word.length = scalar.word.length := by
  cases scalar <;> simp [Scalar.sent, Scalar.word]

theorem words_sent_length (items : List Scalar) : (words (items.map Scalar.sent)).length = (words items).length := by
  induction items with
  | nil => rfl
  | cons item rest ih =>
    simp only [words, List.map_cons, List.flatten_cons, List.length_append, sent_word_length] at ih ⊢
    omega

theorem sent_body_length (value : Value) : value.sent.part.body.length = value.part.body.length := by
  cases value with
  | scalar value => exact sent_word_length value
  | fixedArray items => exact words_sent_length items
  | data bytes => rfl
  | dynamicArray items =>
    simp only [Value.sent, Value.part, HeadTail.Part.body, List.length_append, beBytes_length, words_sent_length]
  | dataArray items => rfl

/-- An argument is sent as a word at least, and as one at least for each element of an array. -/
theorem sent_body_of_value {input : InputOutputAbi} {param : ParameterValue} {value : Value}
    (denotes : valueOf? input param = some value) :
    32 ≤ value.sent.part.body.length ∧ (value.sent.part.body.length < 2 ^ 31 → value.Counted) := by
  rw [sent_body_length]
  rw [valueOf?.eq_def] at denotes
  split at denotes
  case h_8 =>
    split_ifs at denotes with declared dynamic
    · obtain ⟨datas, found, rfl⟩ := Option.map_eq_some_iff.mp denotes
      obtain ⟨_, _, _, -, -, -, -, positive, -, -⟩ := elementsOf?_eq_some found
      have length : 32 * datas.length ≤ (Value.dataArray datas).part.body.length := by
        rw [Value.part, HeadTail.Part.body, HeadTail.layout_length (beBytes_length 32),
          show (datas.map fun item => HeadTail.Part.byOffset (encodeData item)) =
            (datas.map encodeData).map .byOffset from (List.map_map).symm,
          HeadTail.headsSize_byOffset, List.length_map]
        exact Nat.le_add_right _ _
      exact ⟨by omega, fun bound => show datas.length < 2 ^ 26 by omega⟩
    · obtain ⟨scalars, found, rfl⟩ := Option.map_eq_some_iff.mp denotes
      obtain ⟨_, _, _, -, -, -, -, positive, -, -⟩ := elementsOf?_eq_some found
      have length : (Value.fixedArray scalars).part.body.length = 32 * scalars.length :=
        words_length (elements_hasType found)
      rw [length]
      exact ⟨by omega, fun bound => show scalars.length < 2 ^ 26 by omega⟩
  case h_9 =>
    obtain ⟨scalars, found, rfl⟩ := Option.map_eq_some_iff.mp denotes
    have length : (Value.dynamicArray scalars).part.body.length = 32 + 32 * scalars.length := by
      rw [Value.part, HeadTail.Part.body, List.length_append, beBytes_length, words_length (elements_hasType found)]
    rw [length]
    exact ⟨by omega, fun bound => show scalars.length < 2 ^ 26 by omega⟩
  case h_10 => simp at denotes
  all_goals
    obtain ⟨found, read, rfl⟩ := Option.map_eq_some_iff.mp denotes
    refine ⟨?_, fun _ => trivial⟩
    first
      | exact (scalarOf?_hasType read).word_length.ge
      | (have length := encodeData_length found
         change 32 ≤ (encodeData found).length
         omega)

/-- An encoded input carries the value that is sent for an argument. -/
def Carries (input : Contract.EncodedInput) (value : Value) : Prop :=
  input.isDynamic = value.part.isByOffset ∧ input.data = cells value.sent.part.body

/-- The loop over the inputs goes on behind an input whose value is encoded. -/
theorem encodeInputs_cons {params : ParameterValuesDictionary} {input : InputOutputAbi} {rest : List InputOutputAbi}
    {encoded : Option (List Contract.EncodedInput)} :
    Contract.encodeInputs params (input :: rest) = .ok encoded ↔
      (params.getParameter? input.name = none ∧ encoded = none) ∨
      ∃ param bytes data others, params.getParameter? input.name = some param ∧
        Contract.generateBytesForParameter param input.type = .ok (bytes, data) ∧ data.length < 2 ^ 31 ∧
        Contract.encodeInputs params rest = .ok others ∧
        encoded = others.map fun others => ⟨input.isDynamic, bytes, data⟩ :: others := by
  rw [Contract.encodeInputs]
  cases params.getParameter? input.name with
  | none => simp [eq_comm]
  | some param =>
    simp only [reduceCtorEq, false_and, false_or, Option.some.injEq]
    constructor
    · intro ran
      obtain ⟨⟨bytes, data⟩, first, ran⟩ := bind_eq_ok.mp ran
      obtain ⟨text, shown, ran⟩ := bind_eq_ok.mp ran
      obtain ⟨others, loop, ran⟩ := bind_eq_ok.mp ran
      exact ⟨param, bytes, data, others, rfl, first, (vectorToHexString_eq_ok.mp shown).1, loop,
        (Except.ok.inj ran).symm⟩
    · rintro ⟨_, bytes, data, others, rfl, first, counted, loop, rfl⟩
      rw [first, ok_bind, vectorToHexString_of_lt counted, ok_bind, loop]
      rfl

/-- The loop over the inputs on a dictionary that denotes an argument list. -/
theorem encodeInputs_values {params : ParameterValuesDictionary} {inputs : List InputOutputAbi} {values : List Value}
    (typed : valuesOf? params inputs = some values) (short : ∀ value ∈ values, value.Short)
    (counted : ∀ value ∈ values, value.sent.part.body.length < 2 ^ 31) :
    ∃ encoded, Contract.encodeInputs params inputs = .ok (some encoded) := by
  have each := mapM_eq_some.mp typed
  clear typed
  induction each with
  | nil => exact ⟨[], rfl⟩
  | @cons input value inputs values head tail ih =>
    obtain ⟨param, supplied, denotes⟩ := Option.bind_eq_some_iff.mp head
    have small := counted value List.mem_cons_self
    have first := generateBytesForParameter_value denotes (short value List.mem_cons_self)
    rw [if_pos ((sent_body_of_value denotes).2 small)] at first
    obtain ⟨count, encodes⟩ := first
    obtain ⟨encoded, loop⟩ := ih (fun other member => short other (List.mem_cons_of_mem _ member))
      fun other member => counted other (List.mem_cons_of_mem _ member)
    exact ⟨_, encodeInputs_cons.mpr (.inr ⟨param, _, _, _, supplied, encodes, by rwa [cells_length], loop, rfl⟩)⟩

/-- Whatever the loop over these inputs returns carries the arguments. -/
theorem carries_of_encodeInputs {params : ParameterValuesDictionary} {inputs : List InputOutputAbi}
    {values : List Value} {result : Option (List Contract.EncodedInput)}
    (typed : valuesOf? params inputs = some values) (short : ∀ value ∈ values, value.Short)
    (ran : Contract.encodeInputs params inputs = .ok result) :
    ∃ encoded, result = some encoded ∧ List.Forall₂ Carries encoded values := by
  have each := mapM_eq_some.mp typed
  clear typed
  induction each generalizing result with
  | nil =>
    obtain rfl := Except.ok.inj ran
    exact ⟨[], rfl, .nil⟩
  | @cons input value inputs values head tail ih =>
    obtain ⟨param, supplied, denotes⟩ := Option.bind_eq_some_iff.mp head
    have first := generateBytesForParameter_value denotes (short value List.mem_cons_self)
    rcases encodeInputs_cons.mp ran with ⟨missing, -⟩ | ⟨other, bytes, data, others, found, encodes, -, loop, rfl⟩
    · rw [supplied] at missing
      cases missing
    · obtain rfl : param = other := Option.some.inj (supplied.symm.trans found)
      obtain ⟨encoded, rfl, carries⟩ := ih (fun other member => short other (List.mem_cons_of_mem _ member)) loop
      rw [encodes] at first
      split_ifs at first
      obtain ⟨count, same⟩ := first
      obtain ⟨rfl, rfl⟩ := Prod.mk.inj (Except.ok.inj same)
      exact ⟨_, rfl, .cons ⟨isDynamic_of_value denotes, rfl⟩ carries⟩

/-- What the encoder writes for an argument list: the static values and then the dynamic ones. -/
def sentArguments (values : List Value) : Bytes :=
  (values.flatMap fun value => if value.part.isByOffset then [] else value.sent.part.body) ++
    values.flatMap fun value => if value.part.isByOffset then value.sent.part.body else []

theorem sentArguments_of_carries {inputs : List Contract.EncodedInput} {values : List Value}
    (carries : List.Forall₂ Carries inputs values) :
    inputs.flatMap Contract.EncodedInput.inPlace ++ Contract.moveTails inputs = cells (sentArguments values) := by
  rw [sentArguments, cells_append, Contract.moveTails]
  congr 1
  · induction carries with
    | nil => rfl
    | cons head _ ih =>
      rw [List.flatMap_cons, List.flatMap_cons, cells_append, ih, Contract.EncodedInput.inPlace, head.1, head.2]
      split_ifs <;> rfl
  · induction carries with
    | nil => rfl
    | cons head _ ih =>
      rw [List.flatMap_cons, List.flatMap_cons, cells_append, ih, head.1, head.2]
      split_ifs <;> rfl

/-! ## The function selector -/

theorem toText_of_known {type : EthereumTypeName} (known : type ≠ .unknown) : ∃ text, type.toText = .ok text := by
  cases type <;> first | exact ⟨_, rfl⟩ | exact absurd rfl known

/-- The element type of an array that holds values is one the table knows. -/
private theorem elementType_known {input : InputOutputAbi} {param : ParameterValue} {value : Value}
    (denotes : valueOf? input param = some value) (array : input.type = .arrayStatic ∨ input.type = .arrayDynamic) :
    input.arrayType ≠ .unknown := by
  intro unknown
  rw [valueOf?.eq_def] at denotes
  have noScalars : elementsOf? .unknown (scalarOf? .unknown input.arrayTypeSizeBytes) param = none := by
    by_contra some
    obtain ⟨scalars, some⟩ := Option.ne_none_iff_exists'.mp some
    obtain ⟨_, first, -, -, -, ⟨scalar, found⟩, -⟩ := elementsOf?_eq_some some
    rcases scalarOf?_type found with h | h | h | h | h <;> simp at h
  rcases array with type | type <;> rw [type] at denotes <;>
    simp [unknown, EthereumTypeName.isDynamic, noScalars] at denotes

theorem signatureOfInput_of_value {input : InputOutputAbi} {param : ParameterValue} {value : Value}
    (denotes : valueOf? input param = some value) : ∃ text, signatureOfInput input = .ok text := by
  have known : input.type ≠ .unknown := by
    intro unknown
    rw [valueOf?.eq_def, unknown] at denotes
    simp at denotes
  obtain ⟨text, printed⟩ := toText_of_known known
  rw [signatureOfInput, printed, ok_bind]
  cases type : input.type
  case arrayStatic =>
    obtain ⟨element, elementPrinted⟩ := toText_of_known (elementType_known denotes (.inl type))
    simp only [elementPrinted, ok_bind, pure_eq_ok]
    exact ⟨_, rfl⟩
  case arrayDynamic =>
    obtain ⟨element, elementPrinted⟩ := toText_of_known (elementType_known denotes (.inr type))
    simp only [elementPrinted, ok_bind, pure_eq_ok]
    exact ⟨_, rfl⟩
  all_goals exact ⟨_, rfl⟩

theorem signatureOfInputs_of_each {inputs : List InputOutputAbi}
    (each : ∀ input ∈ inputs, ∃ text, signatureOfInput input = .ok text) :
    ∃ text, signatureOfInputs inputs = .ok text := by
  induction inputs with
  | nil => exact ⟨[], rfl⟩
  | cons input rest ih =>
    obtain ⟨text, printed⟩ := each input List.mem_cons_self
    obtain ⟨texts, printedRest⟩ := ih fun other member => each other (List.mem_cons_of_mem _ member)
    cases rest with
    | nil => exact ⟨text, printed⟩
    | cons next rest =>
      rw [signatureOfInputs, printed, ok_bind, printedRest]
      · exact ⟨_, rfl⟩
      · simp

/-- A function whose arguments denote values has a signature, if an `int` counts them. -/
theorem getSignature_of_values {params : ParameterValuesDictionary} {function : FunctionAbi} {values : List Value}
    (typed : valuesOf? params function.inputs = some values) (counted : function.inputs.length < 2 ^ 31) :
    ∃ signature, function.getSignature = .ok signature := by
  have each : ∀ input ∈ function.inputs, ∃ text, signatureOfInput input = .ok text := by
    intro input member
    obtain ⟨value, found⟩ := exists_of_forall₂ (mapM_eq_some.mp typed) member
    obtain ⟨param, -, denotes⟩ := Option.bind_eq_some_iff.mp found
    exact signatureOfInput_of_value denotes
  obtain ⟨text, printed⟩ := signatureOfInputs_of_each each
  rw [FunctionAbi.getSignature, printed, ok_bind, countInt_of_lt counted]
  exact ⟨_, rfl⟩

/-- The bytes of all arguments are sent, the static ones first. -/
theorem sentArguments_length_eq_sum (values : List Value) :
    (sentArguments values).length = (values.map fun value => value.sent.part.body.length).sum := by
  rw [sentArguments, List.length_append]
  induction values with
  | nil => rfl
  | cons value rest ih =>
    simp only [List.flatMap_cons, List.length_append, List.map_cons, List.sum_cons, ← ih]
    split_ifs <;> simp only [List.length_nil] <;> omega

/-- There are no more inputs than bytes of their arguments. -/
private theorem inputs_length_le {params : ParameterValuesDictionary} {inputs : List InputOutputAbi}
    {values : List Value} (typed : valuesOf? params inputs = some values) :
    inputs.length ≤ (sentArguments values).length := by
  rw [sentArguments_length_eq_sum]
  have each := mapM_eq_some.mp typed
  clear typed
  induction each with
  | nil => exact le_refl 0
  | @cons input value inputs values head tail ih =>
    obtain ⟨param, -, denotes⟩ := Option.bind_eq_some_iff.mp head
    have word := (sent_body_of_value denotes).1
    rw [List.length_cons, List.map_cons, List.sum_cons]
    omega

/-- The call data for a typed argument list, as long as an `int` counts its bytes. -/
theorem generateCallData_values (keccak_256 : Keccak) {contract : Contract} {functionName : Bytes}
    {function : FunctionAbi} {params : ParameterValuesDictionary} {values : List Value} (out : Cells)
    (only : contract.functions.filter (fun f => f.name == functionName) = [function])
    (typed : valuesOf? params function.inputs = some values) (short : ∀ value ∈ values, value.Short) :
    if 4 + (sentArguments values).length < 2 ^ 31 then
      ∃ signature, function.getSignature = .ok signature ∧
        contract.generateCallData keccak_256 functionName params out =
          .ok (.success, cells (hex (selector keccak_256 signature ++ sentArguments values)))
    else ∃ fault, contract.generateCallData keccak_256 functionName params out = .error fault := by
  have named : function.name = functionName := by
    have member : function ∈ contract.functions.filter (fun f => f.name == functionName) := by
      rw [only]
      exact List.mem_singleton_self _
    simpa using (List.mem_filter.mp member).2
  have size {signature : Bytes} {inputs : List Contract.EncodedInput} (carries : List.Forall₂ Carries inputs values) :
      cells (selector keccak_256 signature) ++
          (inputs.flatMap Contract.EncodedInput.inPlace ++ Contract.moveTails inputs) =
        cells (selector keccak_256 signature ++ sentArguments values) := by
    rw [sentArguments_of_carries carries, cells_append]
  rw [Contract.generateCallData, Contract.callDataLoop_filter, only]
  split_ifs with counted
  · have bodies : ∀ value ∈ values, value.sent.part.body.length < 2 ^ 31 := by
      intro value member
      have part := List.single_le_sum (by simp) _ (List.mem_map_of_mem (f := fun value => value.sent.part.body.length)
        member)
      rw [← sentArguments_length_eq_sum] at part
      omega
    have inputs := inputs_length_le typed
    obtain ⟨signature, printed⟩ := getSignature_of_values typed (by omega)
    obtain ⟨encoded, loop⟩ := encodeInputs_values typed short bodies
    obtain ⟨_, same, carries⟩ := carries_of_encodeInputs typed short loop
    obtain rfl := Option.some.inj same
    refine ⟨signature, printed, ?_⟩
    have whole := @size signature _ carries
    have call : callOf keccak_256 params function = .ok (some _) :=
      callOf_some_iff.mpr ⟨signature, _, printed, loop, whole.symm⟩
    have length : (cells (selector keccak_256 signature ++ sentArguments values)).length =
        4 + (sentArguments values).length := by
      rw [cells_length, List.length_append, selector_length]
    apply (callDataLoop_cons named [] [] out).mpr
    refine .inr ⟨_, call, by rwa [List.length_nil, Nat.zero_add, length], ?_⟩
    rw [Contract.callDataLoop, List.nil_append, hexText_cells]
  · cases ran : Contract.callDataLoop keccak_256 functionName params [function] [] out with
    | error fault => exact ⟨fault, rfl⟩
    | ok result =>
      exfalso
      rcases (callDataLoop_cons named [] [] out).mp ran with ⟨-, -, -, loop, -⟩ | ⟨call, encoded, bound, -⟩
      · obtain ⟨encoded, same, -⟩ := carries_of_encodeInputs typed short loop
        cases same
      · obtain ⟨signature, inputs, printed, loop, rfl⟩ := callOf_some_iff.mp encoded
        obtain ⟨_, same, carries⟩ := carries_of_encodeInputs typed short loop
        obtain rfl := Option.some.inj same
        rw [size carries, List.length_nil, Nat.zero_add, cells_length, List.length_append, selector_length] at bound
        exact counted bound

/-! ## Lengths -/

private theorem sentArgument_length (value : Value) :
    (if value.part.isByOffset then [] else value.sent.part.body).length +
        (if value.part.isByOffset then value.sent.part.body else []).length +
        32 * (if value.part.isByOffset then 1 else 0) =
      value.part.headSize 32 + value.part.tail.length := by
  have length := sent_body_length value
  generalize value.sent.part.body = sent at length ⊢
  cases part : value.part with
  | inPlace body =>
    rw [part] at length
    change sent.length = body.length at length
    simp [HeadTail.Part.isByOffset, HeadTail.Part.headSize, HeadTail.Part.tail, length]
  | byOffset body =>
    rw [part] at length
    change sent.length = body.length at length
    simp [HeadTail.Part.isByOffset, HeadTail.Part.headSize, HeadTail.Part.tail, length]
    omega

/-- The encoder's output falls short of the standard encoding by one word for each dynamic argument. -/
theorem sentArguments_length (values : List Value) :
    (sentArguments values).length + 32 * values.countP (fun value => value.part.isByOffset) =
      (encodeArguments values).length := by
  rw [encodeArguments, HeadTail.layout_length (beBytes_length 32), sentArguments, List.length_append]
  induction values with
  | nil => rfl
  | cons value rest ih =>
    have first := sentArgument_length value
    simp only [List.flatMap_cons, List.map_cons, HeadTail.headsSize_cons, HeadTail.tails_cons, List.length_append,
      List.countP_cons]
    omega

end Iotex
