import Iotex.Proofs.CallData

/-! # Calls with static arguments

With static arguments only, the call data consists of the selector and the words of the values,
in order. The encoder gets every word right except that of `false`, so the standard call data is
produced exactly when no boolean is `false` and an `int` counts the bytes; such call data determines
the arguments.
-/

namespace Iotex

open Spec

namespace Spec

/-- The elementary values of a static argument, in order. -/
def Value.scalars : Value → List Scalar
  | scalar value => [value]
  | fixedArray items => items
  | _ => []

/-- No boolean of an argument is `false`. -/
def Value.NoFalse (value : Value) : Prop := .bool false ∉ value.scalars

/-- Static arguments that are sent as they are: no boolean is `false`, and an `int` counts the bytes of
the selector and the words. -/
structure SentInFull (values : List Value) : Prop where
  noFalse : ∀ value ∈ values, value.NoFalse
  counted : 4 + 32 * (values.flatMap Value.scalars).length < 2 ^ 31

end Spec

/-! ## Words determine values -/

private theorem residue_lt (value : ℤ) : (value % 2 ^ 256).toNat < 256 ^ 32 := by
  have high := Int.emod_lt_of_pos value (show (0 : ℤ) < 2 ^ 256 by norm_num)
  have whole : (256 : ℕ) ^ 32 = 2 ^ 256 := by norm_num
  rw [whole]
  omega

private theorem intWord_inj {a b : ℤ} {width : ℕ} (bound : width ≤ 32)
    (rangeA : -256 ^ width ≤ 2 * a ∧ 2 * a < 256 ^ width)
    (rangeB : -256 ^ width ≤ 2 * b ∧ 2 * b < 256 ^ width)
    (same : beBytes 32 (a % 2 ^ 256).toNat = beBytes 32 (b % 2 ^ 256).toNat) : a = b := by
  have room : (256 : ℤ) ^ width ≤ 2 ^ 256 := by
    calc (256 : ℤ) ^ width ≤ 256 ^ 32 := pow_le_pow_right₀ (by norm_num) bound
      _ = 2 ^ 256 := by norm_num
  have residues := beBytes_inj (residue_lt a) (residue_lt b) same
  omega

/-- Two values of one elementary type with the same word are equal. -/
theorem Spec.Scalar.HasType.word_inj {type : EthereumTypeName} {sizeBytes : UInt32} {a b : Scalar}
    (typedA : a.HasType type sizeBytes) (typedB : b.HasType type sizeBytes) (same : a.word = b.word) : a = b := by
  cases a <;> cases b <;> cases type <;> simp only [Scalar.HasType] at typedA typedB
  case uint.uint.uint a b =>
    have room : 256 ^ integerWidth sizeBytes ≤ 256 ^ 32 := Nat.pow_le_pow_right (by omega) typedA.1
    rw [beBytes_inj (lt_of_lt_of_le typedA.2 room) (lt_of_lt_of_le typedB.2 room) same]
  case int.int.int a b => rw [intWord_inj typedA.1 typedA.2 typedB.2 same]
  case bool.bool.bool a b => cases a <;> cases b <;> simp_all [Scalar.word, beBytes, leBytes]
  case address.address.address a b => rw [List.append_cancel_left same]
  case bytesN.bytesN.bytesStatic a b => rw [padRight_inj (typedA.1.trans typedB.1.symm) same]

/-! ## Static argument lists determine their words -/

theorem words_append (a b : List Scalar) : words (a ++ b) = words a ++ words b := by
  simp only [words, List.map_append, List.flatten_append]

/-- Equally many values of one type with the same words are equal. -/
theorem words_inj {type : EthereumTypeName} {sizeBytes : UInt32} {a b : List Scalar}
    (typedA : ∀ item ∈ a, item.HasType type sizeBytes) (typedB : ∀ item ∈ b, item.HasType type sizeBytes)
    (lengths : a.length = b.length) (same : words a = words b) : a = b := by
  induction a generalizing b with
  | nil =>
    rw [List.length_nil] at lengths
    exact (List.length_eq_zero_iff.mp lengths.symm).symm
  | cons first rest ih =>
    cases b with
    | nil => simp at lengths
    | cons other others =>
      have one := typedA first List.mem_cons_self
      have two := typedB other List.mem_cons_self
      rw [words, words, List.map_cons, List.map_cons, List.flatten_cons, List.flatten_cons] at same
      obtain ⟨head, tail⟩ := List.append_inj same (one.word_length.trans two.word_length.symm)
      rw [one.word_inj two head,
        ih (fun item member => typedA item (List.mem_cons_of_mem _ member))
          (fun item member => typedB item (List.mem_cons_of_mem _ member)) (by simpa using lengths) tail]

/-- The values of one static input are equally many values of one elementary type. -/
theorem scalars_of_value {input : InputOutputAbi} {param : ParameterValue} {value : Value}
    (denotes : valueOf? input param = some value) (static : value.part.isByOffset = false) :
    (input.type = .arrayStatic ∧ value = .fixedArray value.scalars ∧ value.scalars.length = input.arraySize.toNat ∧
        ∀ item ∈ value.scalars, item.HasType input.arrayType input.arrayTypeSizeBytes) ∨
      (input.type ≠ .arrayStatic ∧ ∃ scalar, value = .scalar scalar ∧ scalar.HasType input.type input.sizeBytes) := by
  rw [valueOf?.eq_def] at denotes
  split at denotes
  case h_8 =>
    rename_i type
    split_ifs at denotes with declared dynamic
    · obtain ⟨datas, found, rfl⟩ := Option.map_eq_some_iff.mp denotes
      simp [Value.part, HeadTail.Part.isByOffset] at static
    · obtain ⟨scalars, found, rfl⟩ := Option.map_eq_some_iff.mp denotes
      obtain ⟨-, -, -, -, -, -, sized, -, -, -⟩ := elementsOf?_eq_some found
      refine .inl ⟨type, rfl, ?_, elements_hasType found⟩
      change scalars.length = input.arraySize.toNat
      omega
  case h_9 =>
    obtain ⟨scalars, found, rfl⟩ := Option.map_eq_some_iff.mp denotes
    simp [Value.part, HeadTail.Part.isByOffset] at static
  case h_10 => simp at denotes
  all_goals
    rename_i type
    obtain ⟨found, read, rfl⟩ := Option.map_eq_some_iff.mp denotes
    first
      | exact .inr ⟨by simp [type], found, rfl, scalarOf?_hasType read⟩
      | simp [Value.part, HeadTail.Part.isByOffset] at static

/-- Two static values of one input have equally long words, and equal words only when they are equal. -/
theorem value_words_inj {input : InputOutputAbi} {paramA paramB : ParameterValue} {a b : Value}
    (denotesA : valueOf? input paramA = some a) (denotesB : valueOf? input paramB = some b)
    (staticA : a.part.isByOffset = false) (staticB : b.part.isByOffset = false) :
    (words a.scalars).length = (words b.scalars).length ∧ (words a.scalars = words b.scalars → a = b) := by
  rcases scalars_of_value denotesA staticA with ⟨type, sameA, lengthA, typedA⟩ | ⟨type, x, rfl, typedA⟩ <;>
    rcases scalars_of_value denotesB staticB with ⟨otherType, sameB, lengthB, typedB⟩ | ⟨otherType, y, rfl, typedB⟩
  · refine ⟨by rw [words_length typedA, words_length typedB, lengthA, lengthB], ?_⟩
    intro same
    rw [sameA, sameB, words_inj typedA typedB (lengthA.trans lengthB.symm) same]
  · exact absurd type otherType
  · exact absurd otherType type
  · have oneA : ∀ item ∈ (Value.scalar x).scalars, item.HasType input.type input.sizeBytes := by
      simpa [Value.scalars] using typedA
    have oneB : ∀ item ∈ (Value.scalar y).scalars, item.HasType input.type input.sizeBytes := by
      simpa [Value.scalars] using typedB
    refine ⟨by rw [words_length oneA, words_length oneB]; rfl, ?_⟩
    intro same
    obtain ⟨rfl, -⟩ := List.cons.inj (words_inj oneA oneB rfl same)
    rfl

/-- Static argument lists of one function with the same words are equal. -/
theorem arguments_words_inj {paramsA paramsB : ParameterValuesDictionary} {inputs : List InputOutputAbi}
    {a b : List Value} (typedA : valuesOf? paramsA inputs = some a) (typedB : valuesOf? paramsB inputs = some b)
    (staticA : ∀ value ∈ a, value.part.isByOffset = false) (staticB : ∀ value ∈ b, value.part.isByOffset = false)
    (same : words (a.flatMap Value.scalars) = words (b.flatMap Value.scalars)) : a = b := by
  have eachA := mapM_eq_some.mp typedA
  have eachB := mapM_eq_some.mp typedB
  clear typedA typedB
  induction eachA generalizing b with
  | nil => rw [List.forall₂_nil_left_iff.mp eachB]
  | @cons input valueA inputs valuesA headA tailA ih =>
    obtain ⟨valueB, valuesB, headB, tailB, rfl⟩ := List.forall₂_cons_left_iff.mp eachB
    obtain ⟨paramA, -, denotesA⟩ := Option.bind_eq_some_iff.mp headA
    obtain ⟨paramB, -, denotesB⟩ := Option.bind_eq_some_iff.mp headB
    obtain ⟨lengths, equal⟩ := value_words_inj denotesA denotesB (staticA _ List.mem_cons_self)
      (staticB _ List.mem_cons_self)
    rw [List.flatMap_cons, List.flatMap_cons, words_append, words_append] at same
    obtain ⟨head, tail⟩ := List.append_inj same lengths
    rw [equal head, ih (fun value member => staticA value (List.mem_cons_of_mem _ member))
      (fun value member => staticB value (List.mem_cons_of_mem _ member)) tail tailB]

/-! ## The call data of static arguments -/

/-- The standard call data of a function with static arguments: its selector and their words. -/
def StandardWords (keccak_256 : Keccak) (function : FunctionAbi) (values : List Value)
    (result : Exec (ResultCode × Cells)) : Prop :=
  ∃ signature, function.getSignature = .ok signature ∧
    result = .ok (.success, cells (hex (selector keccak_256 signature ++ words (values.flatMap Value.scalars))))

/-- The words of static arguments are their standard encoding: no argument needs an offset. -/
theorem encodeArguments_static {values : List Value} (static : ∀ value ∈ values, value.part.isByOffset = false) :
    encodeArguments values = words (values.flatMap Value.scalars) := by
  have inPlace : values.map Value.part = (values.map fun value => words value.scalars).map .inPlace := by
    rw [List.map_map]
    apply List.map_congr_left
    intro value member
    have first := static value member
    cases value with
    | scalar value => simp [Value.part, Value.scalars, words]
    | fixedArray items => rfl
    | _ => simp [Value.part, HeadTail.Part.isByOffset] at first
  rw [encodeArguments, inPlace, HeadTail.layout_inPlace]
  clear static inPlace
  induction values with
  | nil => rfl
  | cons value rest ih => rw [List.map_cons, List.flatten_cons, List.flatMap_cons, words_append, ih]

private theorem sent_word_eq_iff (scalar : Scalar) : scalar.sent.word = scalar.word ↔ scalar ≠ .bool false := by
  cases scalar with
  | bool value => cases value <;> simp [Scalar.sent, Scalar.word, beBytes, leBytes]
  | _ => simp [Scalar.sent]

/-- The words that are sent are the words of the values exactly when none is `false`. -/
theorem words_sent_eq_iff (items : List Scalar) :
    words (items.map Scalar.sent) = words items ↔ .bool false ∉ items := by
  induction items with
  | nil => simp [words]
  | cons item rest ih =>
    have split : words ((item :: rest).map Scalar.sent) = words (item :: rest) ↔
        item.sent.word = item.word ∧ words (rest.map Scalar.sent) = words rest := by
      simp only [words, List.map_cons, List.flatten_cons]
      constructor
      · intro same
        exact List.append_inj same (sent_word_length item)
      · rintro ⟨head, tail⟩
        rw [head, tail]
    rw [split, ih, sent_word_eq_iff, List.mem_cons, not_or]
    exact and_congr_left fun _ => ne_comm

theorem short_of_static {value : Value} (static : value.part.isByOffset = false) : value.Short := by
  cases value <;> trivial

/-- A static value is sent as its words. -/
theorem sent_body_static {value : Value} (static : value.part.isByOffset = false) :
    value.sent.part.body = words (value.scalars.map Scalar.sent) := by
  cases value with
  | scalar value => simp [Value.sent, Value.part, Value.scalars, words, HeadTail.Part.body]
  | fixedArray items => rfl
  | _ => simp [Value.part, HeadTail.Part.isByOffset] at static

theorem sentArguments_static {values : List Value} (static : ∀ value ∈ values, value.part.isByOffset = false) :
    sentArguments values = words ((values.flatMap Value.scalars).map Scalar.sent) := by
  rw [sentArguments]
  induction values with
  | nil => rfl
  | cons value rest ih =>
    have first := static value List.mem_cons_self
    simp only [List.flatMap_cons, first, Bool.false_eq_true, ↓reduceIte, List.nil_append, sent_body_static first,
      List.map_append, words_append, List.append_assoc]
    rw [ih fun other member => static other (List.mem_cons_of_mem _ member)]

/-- The words of the static arguments of a call. -/
theorem sentArguments_static_length {params : ParameterValuesDictionary} {inputs : List InputOutputAbi}
    {values : List Value} (typed : valuesOf? params inputs = some values)
    (static : ∀ value ∈ values, value.part.isByOffset = false) :
    (sentArguments values).length = 32 * (values.flatMap Value.scalars).length := by
  rw [sentArguments_length_eq_sum]
  have each := mapM_eq_some.mp typed
  clear typed
  induction each with
  | nil => rfl
  | @cons input value inputs values head tail ih =>
    obtain ⟨param, -, denotes⟩ := Option.bind_eq_some_iff.mp head
    have first := static value List.mem_cons_self
    have size : value.sent.part.body.length = 32 * value.scalars.length := by
      rw [sent_body_static first, words_sent_length]
      rcases scalars_of_value denotes first with ⟨-, -, -, each⟩ | ⟨-, scalar, rfl, each⟩
      · exact words_length each
      · exact @words_length _ _ [scalar] (by simpa using each)
    rw [List.map_cons, List.sum_cons, List.flatMap_cons, List.length_append, size,
      ih fun other member => static other (List.mem_cons_of_mem _ member)]
    ring

/-- Static arguments give the standard call data exactly when they are sent in full. -/
theorem standardWords_iff (keccak_256 : Keccak) {contract : Contract} {functionName : Bytes}
    {function : FunctionAbi} (only : contract.functions.filter (fun f => f.name == functionName) = [function])
    {params : ParameterValuesDictionary} {values : List Value} (out : Cells)
    (typed : valuesOf? params function.inputs = some values)
    (static : ∀ value ∈ values, value.part.isByOffset = false) :
    StandardWords keccak_256 function values (contract.generateCallData keccak_256 functionName params out) ↔
      SentInFull values := by
  have short : ∀ value ∈ values, value.Short := fun value member => short_of_static (static value member)
  have produced := generateCallData_values keccak_256 out only typed short
  have noFalse : (∀ value ∈ values, value.NoFalse) ↔ .bool false ∉ values.flatMap Value.scalars := by
    simp only [Value.NoFalse, List.mem_flatMap, not_exists, not_and]
  rw [sentArguments_static_length typed static] at produced
  split_ifs at produced with counted
  · obtain ⟨signature, printed, result⟩ := produced
    rw [sentArguments_static static] at result
    constructor
    · rintro ⟨other, printedOther, standard⟩
      obtain rfl : signature = other := Except.ok.inj (printed.symm.trans printedOther)
      rw [result] at standard
      have texts := hex_inj (cells_inj (Prod.mk.inj (Except.ok.inj standard)).2)
      exact ⟨noFalse.mpr ((words_sent_eq_iff _).mp (List.append_cancel_left texts)), counted⟩
    · intro good
      rw [(words_sent_eq_iff _).mpr (noFalse.mp good.noFalse)] at result
      exact ⟨signature, printed, result⟩
  · obtain ⟨fault, stopped⟩ := produced
    constructor
    · rintro ⟨signature, -, standard⟩
      rw [stopped] at standard
      cases standard
    · intro good
      exact absurd good.counted counted

/-- Static arguments give the standard call data exactly when they are sent in full; between two such
calls of one function the call data tells the arguments apart. -/
theorem generateCallData_static (keccak_256 : Keccak) {contract : Contract} {functionName : Bytes}
    {function : FunctionAbi} (only : contract.functions.filter (fun f => f.name == functionName) = [function])
    {params : ParameterValuesDictionary} {values : List Value} (out : Cells)
    (typed : valuesOf? params function.inputs = some values)
    (static : ∀ value ∈ values, value.part.isByOffset = false) :
    (StandardWords keccak_256 function values (contract.generateCallData keccak_256 functionName params out) ↔
        SentInFull values) ∧
      ∀ (others : ParameterValuesDictionary) (otherValues : List Value) (otherOut : Cells),
        valuesOf? others function.inputs = some otherValues →
        (∀ value ∈ otherValues, value.part.isByOffset = false) → SentInFull values → SentInFull otherValues →
        values ≠ otherValues →
        contract.generateCallData keccak_256 functionName params out ≠
          contract.generateCallData keccak_256 functionName others otherOut := by
  have characterized := standardWords_iff keccak_256 only out typed static
  refine ⟨characterized, ?_⟩
  intro others otherValues otherOut otherTyped otherStatic good otherGood different same
  obtain ⟨signature, printed, result⟩ := characterized.mpr good
  obtain ⟨other, printedOther, otherResult⟩ :=
    (standardWords_iff keccak_256 only otherOut otherTyped otherStatic).mpr otherGood
  obtain rfl : signature = other := Except.ok.inj (printed.symm.trans printedOther)
  rw [result, otherResult] at same
  have texts := hex_inj (cells_inj (Prod.mk.inj (Except.ok.inj same)).2)
  exact different (arguments_words_inj typed otherTyped static otherStatic (List.append_cancel_left texts))

/-! ## A boolean argument -/

namespace SetFlag

/-- `setFlag(bool _flag)`, as the ABI parser leaves it. -/
def function : FunctionAbi where
  constant := false
  inputs := [{ name := ascii "_flag", type := .bool, sizeBytes := 0, arrayType := .unknown, arraySize := 0 }]
  name := ascii "setFlag"
  payable := false

def contract : Contract := ⟨[function]⟩

def params : ParameterValuesDictionary :=
  ParameterValuesDictionary.empty.addParameter (ascii "_flag") { value := .boolean false, type := .bool, size := 1 }

end SetFlag

/-- The value `false` is sent as `true`. -/
theorem setFlag_false_sent_as_true :
    SetFlag.contract.generateCallData paddedHash (ascii "setFlag") SetFlag.params [] =
        .ok (.success, cells (hex (ascii "setF" ++ beBytes 32 1))) ∧
      ¬StandardWords paddedHash SetFlag.function [.scalar (.bool false)]
        (SetFlag.contract.generateCallData paddedHash (ascii "setFlag") SetFlag.params []) := by
  have produced : SetFlag.contract.generateCallData paddedHash (ascii "setFlag") SetFlag.params [] =
      .ok (.success, cells (hex (ascii "setF" ++ beBytes 32 1))) := by decide
  refine ⟨produced, ?_⟩
  rintro ⟨signature, printed, standard⟩
  have signed : SetFlag.function.getSignature = .ok (ascii "setFlag(bool)") := by decide
  obtain rfl : ascii "setFlag(bool)" = signature := Except.ok.inj (signed.symm.trans printed)
  rw [produced] at standard
  exact absurd standard (by decide)

/-! ## Several arguments -/

namespace SetLimits

def input (name : Bytes) (type : EthereumTypeName) (sizeBytes : UInt32) : InputOutputAbi :=
  { name := name, type := type, sizeBytes := sizeBytes, arrayType := .unknown, arrayTypeSizeBytes := sizeBytes,
    arraySize := 0 }

/-- `setLimits(address _owner, int16 _offset, uint32[3] _limits, bool _strict, bytes4 _code)`, as the ABI
parser leaves it. -/
def function : FunctionAbi where
  constant := false
  inputs :=
    [input (ascii "_owner") .address 0, input (ascii "_offset") .int 2,
      { name := ascii "_limits", type := .arrayStatic, sizeBytes := 4, arrayType := .uint, arrayTypeSizeBytes := 4,
        arraySize := 3 },
      input (ascii "_strict") .bool 0, input (ascii "_code") .bytesStatic 4]
  name := ascii "setLimits"
  payable := false

def contract : Contract := ⟨[SetFlag.function, function]⟩

def limit (value : ℕ) : ParameterValue := { value := .integer 4 value, size := 4, type := .uint }

def params (last : ℕ) : ParameterValuesDictionary :=
  ((((ParameterValuesDictionary.empty.addParameter (ascii "_owner") (makeParamAddress 0x1000 (Vector.replicate 20 0xab))
    ).addParameter (ascii "_offset") { value := .integer 2 0xfffe, size := 2, type := .int }
    ).addParameter (ascii "_limits")
      { value := .elements 0x2000 [limit 1, limit 0xffffffff, limit last], size := 3, type := .arrayStatic }
    ).addParameter (ascii "_strict") { value := .boolean true, size := 1, type := .bool }
    ).addParameter (ascii "_code") (makeParamBytes 0x3000 (cells (ascii "code")) 4 false)

def values (last : ℕ) : List Value :=
  [.scalar (.address (List.replicate 20 0xab)), .scalar (.int (-2)),
    .fixedArray [.uint 1, .uint 0xffffffff, .uint last], .scalar (.bool true), .scalar (.bytesN (ascii "code"))]

theorem sentInFull (last : ℕ) : SentInFull (values last) where
  noFalse := by simp [values, Value.NoFalse, Value.scalars]
  counted := by
    change 4 + 32 * 7 < 2 ^ 31
    norm_num

end SetLimits

/-- The standard call data of several arguments, which tells the last element of an array apart. -/
theorem setLimits_standard :
    StandardWords paddedHash SetLimits.function (SetLimits.values 256)
        (SetLimits.contract.generateCallData paddedHash (ascii "setLimits") (SetLimits.params 256) []) ∧
      SetLimits.contract.generateCallData paddedHash (ascii "setLimits") (SetLimits.params 256) [] ≠
        SetLimits.contract.generateCallData paddedHash (ascii "setLimits") (SetLimits.params 257) [] :=
  have holds := @generateCallData_static paddedHash SetLimits.contract (ascii "setLimits") SetLimits.function (by decide)
    (SetLimits.params 256) (SetLimits.values 256) [] (by decide) (by decide)
  ⟨holds.1.mpr (SetLimits.sentInFull 256),
    holds.2 (SetLimits.params 257) (SetLimits.values 257) [] (by decide) (by decide) (SetLimits.sentInFull 256)
      (SetLimits.sentInFull 257) (by decide)⟩

end Iotex
