import Iotex.Model.ContractAbi
import Iotex.Proofs.Dictionaries
import Iotex.Soundness.StaticCalls

/-! # Values by name

The arguments of a call are laid out by position and supplied by name. Every list of static arguments
has a dictionary that encodes it when inputs of one name are given one value; inputs without a name,
which the getter of a nested mapping has, cannot be given different ones.
-/

namespace Iotex

open Spec

namespace Spec

/-- The values of the type of a static input. -/
def Value.HasStaticType (input : InputOutputAbi) : Value → Prop
  | .scalar value => value.HasType input.type input.sizeBytes
  | .fixedArray items =>
    input.type = .arrayStatic ∧ items.length = input.arraySize.toNat ∧ items ≠ [] ∧
      ∀ item ∈ items, item.HasType input.arrayType input.arrayTypeSizeBytes
  | _ => False

/-- The integers that a parameter value has members for. -/
def Scalar.InSixtyFourBits : Scalar → Prop
  | uint value => value < 2 ^ 64
  | int value => -2 ^ 63 ≤ value ∧ value < 2 ^ 63
  | _ => True

/-- An address of an array; the encoder reads the array only. -/
def arrayAddress : UInt64 := 0x1000

/-- The parameter that a caller makes of an elementary value. -/
def Scalar.param : Scalar → ParameterValue
  | uint value => makeParamUint (UInt64.ofNat value)
  | int value => makeParamInt (toUint64 value)
  | bool value => { value := .boolean value, size := 1, type := .bool }
  | address bytes => { value := .bytes arrayAddress (cells bytes), size := 20, type := .address }
  | bytesN data => makeParamBytes arrayAddress (cells data) data.length false

/-- The parameter that a caller makes of a static value. -/
def Value.param : Value → ParameterValue
  | .scalar value => value.param
  | value => { value := .elements arrayAddress (value.scalars.map Scalar.param),
               size := Int32.ofNat value.scalars.length, type := .arrayStatic }

end Spec

/-! ## The parameter of a value -/

theorem scalarOf?_param {type : EthereumTypeName} {sizeBytes : UInt32} {scalar : Scalar}
    (typed : scalar.HasType type sizeBytes) (fits : scalar.InSixtyFourBits) :
    scalarOf? type sizeBytes scalar.param = some scalar := by
  cases scalar with
  | uint value =>
    cases type <;> simp only [Scalar.HasType] at typed
    change value < 2 ^ 64 at fits
    have bits : (UInt64.ofNat value).toNat = value := by
      rw [UInt64.toNat_ofNat']
      omega
    have clamp : (8 : Int32).toNatClampNeg = 8 := rfl
    have whole : leNat ((leBytes 8 value).take 8) = value := by
      rw [leBytes_take 8 8 value (le_refl 8), leNat_leBytes]
      exact Nat.mod_eq_of_lt (fits.trans_eq (by norm_num))
    simp only [Scalar.param, makeParamUint, ValueUnion.integer, scalarOf?, clamp, bits, whole, leBytes_length, le_refl]
    rw [if_pos ⟨trivial, by decide, trivial, typed⟩]
  | int value =>
    cases type <;> simp only [Scalar.HasType] at typed
    obtain ⟨low, high⟩ : -2 ^ 63 ≤ value ∧ value < 2 ^ 63 := fits
    have whole : twosComplement ((leBytes 8 (toUint64 value).toNat).take 8) = value := by
      rw [leBytes_take 8 8 _ (le_refl 8), twosComplement, leBytes_length, leNat_leBytes, toUint64, UInt64.toNat_ofNat',
        Int.bmod_def]
      norm_num
      omega
    have clamp : (8 : Int32).toNatClampNeg = 8 := rfl
    simp only [Scalar.param, makeParamInt, ValueUnion.integer, scalarOf?, clamp, whole, leBytes_length, le_refl]
    rw [if_pos ⟨trivial, by decide, trivial, typed⟩]
  | bool value =>
    cases type <;> simp only [Scalar.HasType] at typed
    cases value <;> rfl
  | address bytes =>
    cases type <;> simp only [Scalar.HasType] at typed
    simp only [Scalar.param, scalarOf?, firstBytes?_cells typed.ge, Option.map_some]
    rw [← typed, List.take_length]
  | bytesN data =>
    cases type <;> simp only [Scalar.HasType] at typed
    have size : (Int32.ofNat data.length).toInt = sizeBytes.toNat := by
      rw [Int32.toInt_ofNat_of_lt (by omega)]
      omega
    simp only [Scalar.param, makeParamBytes, scalarOf?, size, firstBytes?_cells typed.1.ge, Option.map_some]
    rw [if_pos ⟨trivial, typed.2.1, typed.2.2⟩, ← typed.1, List.take_length]

/-- The type that a parameter carries as an element of an array. -/
theorem param_type {type : EthereumTypeName} {sizeBytes : UInt32} {scalar : Scalar}
    (typed : scalar.HasType type sizeBytes) : scalar.param.type = type := by
  cases scalar <;> cases type <;> simp only [Scalar.HasType] at typed <;> rfl

/-- The parameter of a static value denotes it. -/
theorem valueOf?_param {input : InputOutputAbi} {value : Value} (typed : value.HasStaticType input)
    (fits : ∀ scalar ∈ value.scalars, scalar.InSixtyFourBits) (counted : value.scalars.length < 2 ^ 31) :
    valueOf? input value.param = some value := by
  cases value with
  | scalar value =>
    have known : value.HasType input.type input.sizeBytes := typed
    have read := scalarOf?_param known (fits value (List.mem_singleton_self _))
    rw [valueOf?.eq_def]
    cases type : input.type <;> rw [type] at known read <;> cases value <;>
      simp_all [Scalar.HasType, Value.param]
  | fixedArray items =>
    obtain ⟨type, length, nonempty, each⟩ := typed
    change items.length < 2 ^ 31 at counted
    have positive : 0 < items.length := List.length_pos_iff.mpr nonempty
    have size : (Int32.ofNat items.length).toInt = items.length := Int32.toInt_ofNat_of_lt (by omega)
    have static : input.arrayType.isDynamic = false := by
      obtain ⟨first, rest, rfl⟩ := List.exists_cons_of_ne_nil nonempty
      have typed := each first List.mem_cons_self
      cases first <;> cases kind : input.arrayType <;> rw [kind] at typed <;> simp only [Scalar.HasType] at typed <;>
        rfl
    have elements : elementsOf? input.arrayType (scalarOf? input.arrayType input.arrayTypeSizeBytes)
        (Value.fixedArray items).param = items := by
      have clamp : (Int32.ofNat items.length).toNatClampNeg = items.length :=
        Int32.toNatClampNeg_ofNat_of_lt (by omega)
      simp only [elementsOf?, Value.param, Value.scalars, size, List.length_map]
      rw [if_pos (by omega), clamp, List.take_of_length_le (by simp), mapM_eq_some, List.forall₂_map_left_iff,
        List.forall₂_same]
      intro item member
      rw [if_pos (param_type (each item member)), scalarOf?_param (each item member) (fits item member)]
    rw [valueOf?.eq_def, type]
    simp only [static, Bool.false_eq_true, ↓reduceIte, elements, Option.map_some]
    rw [if_pos (by rw [← length]; exact size)]
  | _ => simp [Value.HasStaticType] at typed

theorem Spec.Value.HasStaticType.static {input : InputOutputAbi} {value : Value} (typed : value.HasStaticType input) :
    value.part.isByOffset = false := by
  cases value with
  | scalar value => rfl
  | fixedArray items => rfl
  | _ => simp [Value.HasStaticType] at typed

/-! ## Argument lists -/

/-- Inputs of one name are given one value. -/
def OneValuePerName (inputs : List InputOutputAbi) (values : List Value) : Prop :=
  ∀ first ∈ inputs.zip values, ∀ second ∈ inputs.zip values, first.1.name = second.1.name → first.2 = second.2

/-- A value under the name of each input, in order. -/
def namedParams (inputs : List InputOutputAbi) (values : List Value) : List (Bytes × ParameterValue) :=
  (inputs.zip values).map fun argument => (argument.1.name, argument.2.param)

/-- The first value that was added under the name of an input is its own. -/
theorem firstAdded_namedParams {inputs : List InputOutputAbi} {values : List Value}
    (consistent : OneValuePerName inputs values) {input : InputOutputAbi} {value : Value}
    (member : (input, value) ∈ inputs.zip values) :
    firstAdded (namedParams inputs values) input.name = some value.param := by
  have present : (firstAdded (namedParams inputs values) input.name).isSome = true :=
    firstAdded_isSome.mpr ⟨_, List.mem_map_of_mem member⟩
  obtain ⟨param, found⟩ := Option.isSome_iff_exists.mp present
  rw [found]
  rw [firstAdded, Option.map_eq_some_iff] at found
  obtain ⟨⟨name, _⟩, found, rfl⟩ := found
  have same : name = input.name := by simpa using List.find?_some found
  obtain ⟨⟨other, otherValue⟩, inside, named⟩ := List.mem_map.mp (List.mem_of_find?_eq_some found)
  obtain ⟨rfl, rfl⟩ := Prod.mk.inj named
  rw [consistent _ inside _ member same]

/-- The dictionary of the named parameters denotes the argument list. -/
theorem valuesOf?_namedParams {inputs : List InputOutputAbi} {values : List Value}
    (typed : List.Forall₂ (fun input value => value.HasStaticType input) inputs values)
    (fits : ∀ value ∈ values, ∀ scalar ∈ value.scalars, scalar.InSixtyFourBits)
    (counted : ∀ value ∈ values, value.scalars.length < 2 ^ 31) (consistent : OneValuePerName inputs values) :
    valuesOf? (.ofAdded (namedParams inputs values)) inputs = some values := by
  rw [valuesOf?, mapM_eq_some, List.forall₂_iff_zip]
  refine ⟨typed.length_eq, ?_⟩
  intro input value member
  have inside := (List.of_mem_zip member).2
  rw [ParameterValuesDictionary.getParameter?_ofAdded, firstAdded_namedParams consistent member, Option.bind_some]
  exact valueOf?_param ((List.forall₂_iff_zip.mp typed).2 member) (fits value inside) (counted value inside)

/-- Every list of static arguments is encoded after some calls of `AddParameter`, when inputs of one
name are given one value: integers of up to 64 bits, no `false`, and call data that an `int` counts. -/
theorem generateCallData_reachesArguments (keccak_256 : Keccak) {contract : Contract} {functionName : Bytes}
    {function : FunctionAbi} (only : contract.functions.filter (fun f => f.name == functionName) = [function])
    {values : List Value}
    (typed : List.Forall₂ (fun input value => value.HasStaticType input) function.inputs values)
    (fits : ∀ value ∈ values, ∀ scalar ∈ value.scalars, scalar.InSixtyFourBits)
    (sendable : SentInFull values) (consistent : OneValuePerName function.inputs values) (out : Cells) :
    ∃ added, StandardWords keccak_256 function values
      (contract.generateCallData keccak_256 functionName (.ofAdded added) out) := by
  have static : ∀ value ∈ values, value.part.isByOffset = false := by
    intro value member
    obtain ⟨input, known⟩ := exists_of_forall₂ typed.flip member
    exact Value.HasStaticType.static known
  have counted : ∀ value ∈ values, value.scalars.length < 2 ^ 31 := by
    intro value member
    have total := sendable.counted
    have part : value.scalars.length ≤ (values.flatMap Value.scalars).length := by
      rw [List.length_flatMap]
      exact List.single_le_sum (by simp) _ (List.mem_map_of_mem member)
    omega
  have denotes := valuesOf?_namedParams typed fits counted consistent
  exact ⟨_, (standardWords_iff keccak_256 only out denotes static).mpr sendable⟩

/-! ## Inputs without a name -/

/-- Two equal inputs are encoded alike, whatever is in the dictionary. -/
theorem encodeInputs_twice {params : ParameterValuesDictionary} {input : InputOutputAbi}
    {encoded : List Contract.EncodedInput}
    (encodes : Contract.encodeInputs params [input, input] = .ok (some encoded)) : ∃ one, encoded = [one, one] := by
  rcases encodeInputs_cons.mp encodes with ⟨-, none⟩ | ⟨param, bytes, data, others, supplied, first, -, behind, same⟩
  · cases none
  rcases encodeInputs_cons.mp behind with ⟨missing, -⟩ | ⟨again, count, text, last, found, second, -, stop, rfl⟩
  · rw [supplied] at missing
    cases missing
  · obtain rfl : param = again := Option.some.inj (supplied.symm.trans found)
    obtain ⟨rfl, rfl⟩ := Prod.mk.inj (Except.ok.inj (first.symm.trans second))
    obtain rfl := Except.ok.inj stop
    exact ⟨_, Option.some.inj same⟩

/-- Behind the selector, the call data of a function of two equal inputs repeats itself. -/
theorem generateCallData_twice {keccak_256 : Keccak} {contract : Contract} {functionName : Bytes}
    {function : FunctionAbi} {input : InputOutputAbi} {signature : Bytes} {params : ParameterValuesDictionary}
    {out text : Cells} (only : contract.functions = [function]) (named : function.name = functionName)
    (twice : function.inputs = [input, input]) (printed : function.getSignature = .ok signature)
    (result : contract.generateCallData keccak_256 functionName params out = .ok (.success, text)) :
    ∃ half, text = cells (hex (selector keccak_256 signature)) ++ (half ++ half) := by
  rw [Contract.generateCallData, only] at result
  rcases (callDataLoop_cons named [] [] out).mp result with ⟨_, -, -, -, failed, -⟩ | ⟨call, encoded, -, ended⟩
  · cases failed
  obtain ⟨again, encoded, found, encodes, rfl⟩ := callOf_some_iff.mp encoded
  obtain rfl := Except.ok.inj (printed.symm.trans found)
  rw [twice] at encodes
  obtain ⟨one, rfl⟩ := encodeInputs_twice encodes
  have moved : [one, one].flatMap Contract.EncodedInput.inPlace ++ Contract.moveTails [one, one] =
      one.data ++ one.data := by
    cases dynamic : one.isDynamic <;> simp [Contract.EncodedInput.inPlace, Contract.moveTails, dynamic]
  obtain ⟨-, rfl⟩ := Prod.mk.inj (Except.ok.inj ended)
  exact ⟨hexText one.data, by rw [List.nil_append, moved, hexText_append, hexText_append, hexText_cells]⟩

namespace Allowance

/-- The getter of a mapping from owners to a mapping from spenders. -/
def data : Json :=
  let input : Json := .obj [(ascii "name", .str []), (ascii "type", .str (ascii "address"))]
  .obj [(ascii "constant", .bool true), (ascii "name", .str (ascii "allowance")), (ascii "inputs", .arr [input, input]),
    (ascii "outputs", .arr []), (ascii "payable", .bool false), (ascii "stateMutability", .str (ascii "view")),
    (ascii "type", .str (ascii "function"))]

def input : InputOutputAbi :=
  { type := .address, sizeBytes := 0, arrayType := .unknown, arraySize := 0 }

def memory : FunctionMemory where
  constant := false
  payable := false
  inputs _ := { input with type := .unknown }
  outputs _ := { input with type := .unknown }

def function : FunctionAbi where
  constant := true
  inputs := [input, input]
  name := ascii "allowance"
  stateMutability := ascii "view"
  payable := false

/-- The address of one account as its own spender. -/
def ownValues : List Value :=
  [.scalar (.address (List.replicate 20 1)), .scalar (.address (List.replicate 20 1))]

/-- Two different addresses. -/
def values : List Value :=
  [.scalar (.address (List.replicate 20 1)), .scalar (.address (List.replicate 20 2))]

theorem typed : List.Forall₂ (fun input value => value.HasStaticType input) function.inputs values :=
  .cons rfl (.cons rfl .nil)

theorem ownTyped : List.Forall₂ (fun input value => value.HasStaticType input) function.inputs ownValues :=
  .cons rfl (.cons rfl .nil)

end Allowance

theorem own_allowance_reached :
    OneValuePerName Allowance.function.inputs Allowance.ownValues ∧
      ∃ added, StandardWords paddedHash Allowance.function Allowance.ownValues
        (Contract.generateCallData paddedHash ⟨[Allowance.function]⟩ (ascii "allowance") (.ofAdded added) []) := by
  have consistent : OneValuePerName Allowance.function.inputs Allowance.ownValues := by
    simp [OneValuePerName, Allowance.function, Allowance.ownValues]
  refine ⟨consistent, generateCallData_reachesArguments paddedHash rfl Allowance.ownTyped ?_ ?_ consistent []⟩
  · simp [Allowance.ownValues, Value.scalars, Scalar.InSixtyFourBits]
  · exact ⟨by simp [Allowance.ownValues, Value.NoFalse, Value.scalars], by decide⟩

open Allowance in
/-- Whatever is added, the two addresses of the getter are encoded alike. -/
theorem allowance_not_reached :
    parseFunction memory data = .ok (.success, function) ∧
      List.Forall₂ (fun input value => value.HasStaticType input) function.inputs values ∧
      ∀ keccak_256 params out, ¬StandardWords keccak_256 function values
        (Contract.generateCallData keccak_256 ⟨[function]⟩ (ascii "allowance") params out) := by
  refine ⟨by decide, typed, ?_⟩
  rintro keccak_256 params out ⟨signature, printed, result⟩
  obtain ⟨half, text⟩ := generateCallData_twice rfl rfl rfl printed result
  have spread : cells (hex (words (values.flatMap Value.scalars))) =
      cells (hex (List.replicate 12 0 ++ List.replicate 20 1)) ++
        cells (hex (List.replicate 12 0 ++ List.replicate 20 2)) := rfl
  rw [hex, List.flatMap_append, ← hex, ← hex, cells_append, spread] at text
  have halves := List.append_cancel_left text
  have size (bytes : Bytes) : (cells (hex bytes)).length = 2 * bytes.length := by
    rw [cells_length, unhex?_length (unhex?_hex bytes)]
  have length := congrArg List.length halves
  have middle : (cells (hex (List.replicate 12 0 ++ List.replicate 20 1))).length = half.length := by
    simp only [size, List.length_append, List.length_replicate] at length ⊢
    omega
  obtain ⟨first, second⟩ := List.append_inj halves middle
  have addresses := hex_inj (cells_inj (first.trans second.symm))
  exact absurd addresses (by decide)

end Iotex
