import Iotex.Proofs.Calls

/-! # Reporting of encoding errors

The output is overwritten with the selector before any argument is looked at, and most encoding
failures are not reported at all. A call reports errors as it should exactly when there is nothing
to report, its behavior is defined and the bytes of its values are written.
-/

namespace Iotex

open Spec

section
variable {keccak_256 : Keccak} {params : ParameterValuesDictionary}

end

namespace SetNumber

/-- `setNumber(uint256 _number)`, as the ABI parser leaves it. -/
def function : FunctionAbi where
  constant := false
  inputs :=
    [{ name := ascii "_number", type := .uint, sizeBytes := 32, arrayType := .unknown,
       arrayTypeSizeBytes := 32, arraySize := 0 }]
  name := ascii "setNumber"
  payable := false

def contract : Contract := ⟨[function]⟩

def params : ParameterValuesDictionary :=
  ParameterValuesDictionary.empty.addParameter (ascii "_number")
    { value := .bytes 0x1000 (cells (List.replicate 32 1)), type := .uint, size := 32, isBigInt := true }

end SetNumber

end Iotex
