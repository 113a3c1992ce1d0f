import Iotex.Proofs.CallData

/-! # Calls with a dynamic argument

The encoder generates an offset head for each dynamic argument and never moves it to the output.
Whatever the other arguments are, the call data of such a call is therefore not the standard one.
-/

namespace Iotex

open Spec

/-- The contents of `out` that a call of the function with the given arguments must lead to. -/
def StandardCall (keccak_256 : Keccak) (function : FunctionAbi) (values : List Value)
    (result : Exec (ResultCode × Cells)) : Prop :=
  ∃ signature, function.getSignature = .ok signature ∧
    result = .ok (.success, cells (hex (selector keccak_256 signature ++ encodeArguments values)))

/-- In the standard encoding the head of a dynamic argument holds the distance from the first head to
the argument's tail. -/
theorem encodeArguments_offset (before after : List Value) {value : Value} {body : Bytes}
    (dynamic : value.part = .byOffset body) :
    ∃ offset,
      ((encodeArguments (before ++ value :: after)).drop (HeadTail.headsSize 32 (before.map Value.part))).take 32 =
          beBytes 32 offset ∧
        (encodeArguments (before ++ value :: after)).drop offset = body ++ HeadTail.tails (after.map Value.part) := by
  rw [encodeArguments, List.map_append, List.map_cons, dynamic]
  exact ⟨_, HeadTail.layout_head (beBytes_length 32) _ _ _, HeadTail.layout_drop_offset (beBytes_length 32) _ _ _⟩

/-- A call with a dynamic argument never produces the standard heads and tails. -/
theorem generateCallData_dynamic_not_standard (keccak_256 : Keccak) {contract : Contract} {functionName : Bytes}
    {function : FunctionAbi} {params : ParameterValuesDictionary} {values : List Value} (out : Cells)
    (only : contract.functions.filter (fun f => f.name == functionName) = [function])
    (typed : valuesOf? params function.inputs = some values) (short : ∀ value ∈ values, value.Short)
    (dynamic : ∃ value ∈ values, value.part.isByOffset = true) :
    ¬StandardCall keccak_256 function values (contract.generateCallData keccak_256 functionName params out) := by
  rintro ⟨signature, printed, standard⟩
  have produced := generateCallData_values keccak_256 out only typed short
  rw [standard] at produced
  split_ifs at produced with counted
  · obtain ⟨other, printedOther, same⟩ := produced
    obtain rfl : signature = other := by
      rw [printed] at printedOther
      exact Except.ok.inj printedOther
    have texts := hex_inj (cells_inj (Prod.mk.inj (Except.ok.inj same)).2)
    have lengths := congrArg List.length (List.append_cancel_left texts)
    have missing := sentArguments_length values
    have some := List.countP_pos_iff.mpr dynamic
    omega
  · obtain ⟨fault, stopped⟩ := produced
    cases stopped

/-! ## A string argument -/

namespace SetText

/-- `setText(string _text)`, as the ABI parser leaves it. -/
def function : FunctionAbi where
  constant := false
  inputs := [{ name := ascii "_text", type := .string, sizeBytes := 0, arrayType := .unknown, arraySize := 0 }]
  name := ascii "setText"
  payable := false

def contract : Contract := ⟨[function]⟩

def params : ParameterValuesDictionary :=
  ParameterValuesDictionary.empty.addParameter (ascii "_text") (makeParamString 0x1000 ⟨ascii "hello", by decide⟩)

end SetText

/-- The string's length and characters follow the selector at once. -/
theorem setText_without_head :
    SetText.contract.generateCallData paddedHash (ascii "setText") SetText.params [] =
        .ok (.success, cells (hex (ascii "setT" ++ beBytes 32 5 ++ padRight 32 (ascii "hello")))) ∧
      ¬StandardCall paddedHash SetText.function [.data (ascii "hello")]
        (SetText.contract.generateCallData paddedHash (ascii "setText") SetText.params []) := by
  have produced : SetText.contract.generateCallData paddedHash (ascii "setText") SetText.params [] =
      .ok (.success, cells (hex (ascii "setT" ++ beBytes 32 5 ++ padRight 32 (ascii "hello")))) := by decide
  refine ⟨produced, ?_⟩
  rintro ⟨signature, printed, standard⟩
  have signed : SetText.function.getSignature = .ok (ascii "setText(string)") := by decide
  obtain rfl : ascii "setText(string)" = signature := Except.ok.inj (signed.symm.trans printed)
  rw [produced] at standard
  exact absurd standard (by decide)

theorem setText_not_standard :
    ¬StandardCall paddedHash SetText.function [.data (ascii "hello")]
      (SetText.contract.generateCallData paddedHash (ascii "setText") SetText.params []) :=
  generateCallData_dynamic_not_standard _ _ (by decide) (by decide) (by simp [Value.Short, ascii]) (by decide)

end Iotex
