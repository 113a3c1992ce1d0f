import Iotex.Lib.Runs
import Iotex.Proofs.Dictionaries
import Iotex.Spec.Values

/-! # Reusing a dictionary

One dictionary over any sequence of calls that add values and calls that generate call data from it. An
added value never replaces another one, and `AddParameter` does not say so: the call data is up to date
exactly when the values of its inputs were never changed.
-/

namespace Iotex

open Spec Runs

/-- A call that changes a dictionary or reads it. -/
inductive DictionaryCall where
  | addParameter (name : Bytes) (value : ParameterValue)
  | generateCallData (contract : Contract) (functionName : Bytes) (out : Cells)

namespace DictionaryCall

/-- What a call makes of the dictionary. -/
def step (params : ParameterValuesDictionary) : DictionaryCall → ParameterValuesDictionary
  | addParameter name value => params.addParameter name value
  | generateCallData _ _ _ => params

/-- The value that a call adds. -/
def added? : DictionaryCall → Option (Bytes × ParameterValue)
  | addParameter name value => some (name, value)
  | generateCallData _ _ _ => none

end DictionaryCall

/-- The dictionary behind a sequence of calls. -/
def dictionaryAfter (calls : List DictionaryCall) : ParameterValuesDictionary :=
  calls.foldl DictionaryCall.step .empty

/-- The values that were added, in order. -/
def addedBy (calls : List DictionaryCall) : List (Bytes × ParameterValue) := calls.filterMap DictionaryCall.added?

/-- A call for call data finds for each input the value most recently added under its name, and returns
what it returns on every dictionary of the most recent values. -/
def UsesLatest (keccak_256 : Keccak) (prior : List DictionaryCall) : DictionaryCall → Prop
  | .addParameter _ _ => True
  | .generateCallData contract functionName out =>
    (∀ input ∈ contract.inputsOf functionName,
      (dictionaryAfter prior).getParameter? input.name = lastAdded (addedBy prior) input.name) ∧
    ∀ latest : ParameterValuesDictionary, (∀ name, latest.getParameter? name = lastAdded (addedBy prior) name) →
      contract.generateCallData keccak_256 functionName (dictionaryAfter prior) out =
        contract.generateCallData keccak_256 functionName latest out

/-- For no input of the called function was another value added after the first one. -/
def NeverReplaced (prior : List DictionaryCall) : DictionaryCall → Prop
  | .addParameter _ _ => True
  | .generateCallData contract functionName _ =>
    ∀ input ∈ contract.inputsOf functionName,
      lastAdded (addedBy prior) input.name = firstAdded (addedBy prior) input.name

/-- A dictionary returns the first value that was added under a name. -/
theorem getParameter?_dictionaryAfter (calls : List DictionaryCall) (name : Bytes) :
    (dictionaryAfter calls).getParameter? name = firstAdded (addedBy calls) name := by
  refine @foldl_invariant _ _ calls DictionaryCall.step .empty
    (fun prior params => ∀ name, params.getParameter? name = firstAdded (addedBy prior) name) ?_ ?_ name
  · exact ParameterValuesDictionary.getParameter?_empty
  · intro prior params call before name
    rw [addedBy, List.filterMap_append, ← addedBy, firstAdded_append, ← before]
    cases call with
    | addParameter added value => exact params.getParameter?_addParameter_or added name value
    | generateCallData contract functionName out => exact (Option.or_none).symm

/-- A call for call data is up to date exactly when no value of its inputs was replaced. -/
theorem usesLatest_iff (keccak_256 : Keccak) (prior : List DictionaryCall) (call : DictionaryCall) :
    UsesLatest keccak_256 prior call ↔ NeverReplaced prior call := by
  cases call with
  | addParameter name value => exact Iff.rfl
  | generateCallData contract functionName out =>
    constructor
    · rintro ⟨finds, -⟩ input member
      rw [← finds input member, getParameter?_dictionaryAfter]
    · intro never
      have finds : ∀ input ∈ contract.inputsOf functionName,
          (dictionaryAfter prior).getParameter? input.name = lastAdded (addedBy prior) input.name := by
        intro input member
        rw [getParameter?_dictionaryAfter, never input member]
      refine ⟨finds, ?_⟩
      intro latest same
      apply Contract.generateCallData_congr
      intro input member
      rw [finds input member, same]

/-- Every call data of a run is up to date exactly when no value of its inputs was replaced before, and
behind every run `ContainsParameter` holds exactly for the names that were added. -/
theorem dictionary_usesLatest_iff (keccak_256 : Keccak) (calls : List DictionaryCall) :
    (AtEach (UsesLatest keccak_256) calls ↔ AtEach NeverReplaced calls) ∧
      ∀ name, (dictionaryAfter calls).containsParameter name = true ↔ ∃ value, (name, value) ∈ addedBy calls := by
  constructor
  · apply atEach_congr
    intro prior call _ _
    exact usesLatest_iff keccak_256 prior call
  · intro name
    rw [ParameterValuesDictionary.containsParameter_eq, getParameter?_dictionaryAfter, firstAdded_isSome]

namespace NextTransfer

/-- A function of one amount. -/
def function : FunctionAbi where
  constant := false
  inputs := [{ name := ascii "amount", type := .uint, sizeBytes := 32, arrayType := .unknown, arraySize := 0 }]
  name := ascii "send"
  payable := false

def contract : Contract := ⟨[function]⟩

def generate : DictionaryCall := .generateCallData contract (ascii "send") []

/-- An amount, its transfer, and another amount. -/
def prior : List DictionaryCall :=
  [.addParameter (ascii "amount") (makeParamUint 1), generate, .addParameter (ascii "amount") (makeParamUint 2)]

end NextTransfer

open NextTransfer in
/-- The second transfer sends the first amount again. -/
theorem nextTransfer_sends_first_amount :
    contract.generateCallData paddedHash (ascii "send") (dictionaryAfter prior) [] =
        .ok (.success, cells (hex (ascii "send" ++ beBytes 32 1))) ∧
      ¬AtEach (UsesLatest paddedHash) (prior ++ [generate]) := by
  refine ⟨by decide, ?_⟩
  intro each
  obtain ⟨-, last⟩ := atEach_concat.mp each
  have never := (usesLatest_iff paddedHash prior generate).mp last _ List.mem_cons_self
  have first : firstAdded (addedBy prior) (ascii "amount") = some (makeParamUint 1) := rfl
  have second : lastAdded (addedBy prior) (ascii "amount") = some (makeParamUint 2) := rfl
  change lastAdded (addedBy prior) (ascii "amount") = firstAdded (addedBy prior) (ascii "amount") at never
  rw [first, second, Option.some.injEq] at never
  simp only [makeParamUint, ParameterValue.mk.injEq] at never
  exact absurd (ValueUnion.plain.inj never.1) (by decide)

end Iotex
