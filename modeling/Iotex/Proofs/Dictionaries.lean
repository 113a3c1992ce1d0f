import Iotex.Model.Contract

/-! # What a dictionary returns

The lookups of a dictionary in terms of the values that were added to it. An added value does not
replace one of the same name, so a lookup returns the first value of its name.
-/

namespace Iotex

/-- The first value of a name in a list of named values. -/
def firstAdded (added : List (Bytes × ParameterValue)) (name : Bytes) : Option ParameterValue :=
  (added.find? fun entry => entry.1 == name).map Prod.snd

/-- The last value of a name in a list of named values. -/
def lastAdded (added : List (Bytes × ParameterValue)) (name : Bytes) : Option ParameterValue :=
  firstAdded added.reverse name

theorem firstAdded_append (added more : List (Bytes × ParameterValue)) (name : Bytes) :
    firstAdded (added ++ more) name = (firstAdded added name).or (firstAdded more name) := by
  rw [firstAdded, List.find?_append, Option.map_or]
  rfl

theorem firstAdded_singleton (name other : Bytes) (value : ParameterValue) :
    firstAdded [(name, value)] other = if other = name then some value else none := by
  by_cases same : other = name
  · simp [firstAdded, same]
  · simp [firstAdded, same, Ne.symm same]

theorem firstAdded_isSome {added : List (Bytes × ParameterValue)} {name : Bytes} :
    (firstAdded added name).isSome = true ↔ ∃ value, (name, value) ∈ added := by
  rw [firstAdded, Option.isSome_map, List.find?_isSome]
  constructor
  · rintro ⟨⟨other, value⟩, member, same⟩
    obtain rfl : other = name := by simpa using same
    exact ⟨value, member⟩
  · rintro ⟨value, member⟩
    exact ⟨_, member, by simp⟩

namespace ParameterValuesDictionary

/-- The dictionary behind a sequence of `AddParameter` calls. -/
def ofAdded (added : List (Bytes × ParameterValue)) : ParameterValuesDictionary :=
  added.foldl (fun params entry => params.addParameter entry.1 entry.2) .empty

theorem getParameter?_empty (name : Bytes) : empty.getParameter? name = none := rfl

/-- One more value is found unless its name had one. -/
theorem getParameter?_addParameter_or (params : ParameterValuesDictionary) (name other : Bytes)
    (value : ParameterValue) :
    (params.addParameter name value).getParameter? other =
      (params.getParameter? other).or (firstAdded [(name, value)] other) := by
  rw [getParameter?_addParameter, firstAdded_singleton]
  split_ifs with same
  · rw [same]
    cases params.getParameter? name <;> rfl
  · rw [Option.or_none]

/-- A lookup returns the first value that was added under the name. -/
theorem getParameter?_ofAdded (added : List (Bytes × ParameterValue)) (name : Bytes) :
    (ofAdded added).getParameter? name = firstAdded added name := by
  induction added using List.reverseRecOn with
  | nil => rfl
  | append_singleton added entry ih =>
    rw [ofAdded, List.foldl_append, List.foldl_cons, List.foldl_nil, ← ofAdded, getParameter?_addParameter_or, ih,
      firstAdded_append]

end ParameterValuesDictionary

namespace Contract

/-- The inputs that the loop over the functions looks up. -/
def inputsOf (contract : Contract) (functionName : Bytes) : List InputOutputAbi :=
  (contract.functions.filter fun function => function.name == functionName).flatMap FunctionAbi.inputs

theorem encodeInputs_congr {params others : ParameterValuesDictionary} {inputs : List InputOutputAbi}
    (same : ∀ input ∈ inputs, params.getParameter? input.name = others.getParameter? input.name) :
    encodeInputs params inputs = encodeInputs others inputs := by
  induction inputs with
  | nil => rfl
  | cons input rest ih =>
    rw [encodeInputs, encodeInputs, same input List.mem_cons_self,
      ih fun other member => same other (List.mem_cons_of_mem _ member)]

/-- Nothing else of a dictionary than the values of the inputs enters the call data. -/
theorem generateCallData_congr (keccak_256 : Keccak) (contract : Contract) (functionName : Bytes)
    {params others : ParameterValuesDictionary} (out : Cells)
    (same : ∀ input ∈ contract.inputsOf functionName,
      params.getParameter? input.name = others.getParameter? input.name) :
    contract.generateCallData keccak_256 functionName params out =
      contract.generateCallData keccak_256 functionName others out := by
  rw [generateCallData, generateCallData]
  have each : ∀ function ∈ contract.functions, function.name = functionName → ∀ input ∈ function.inputs,
      params.getParameter? input.name = others.getParameter? input.name := by
    intro function member named input inside
    apply same
    exact List.mem_flatMap.mpr ⟨function, List.mem_filter.mpr ⟨member, beq_iff_eq.mpr named⟩, inside⟩
  generalize ([] : Cells) = contractData
  generalize contract.functions = functions at each ⊢
  induction functions generalizing contractData out with
  | nil => rfl
  | cons function rest ih =>
    have others := fun data text => ih text data fun other member => each other (List.mem_cons_of_mem _ member)
    rw [callDataLoop, callDataLoop]
    by_cases named : function.name = functionName
    · simp only [named, ↓reduceIte, encodeInputs_congr (each function List.mem_cons_self named), others]
    · simp only [named, ↓reduceIte, others]

end Contract

end Iotex
