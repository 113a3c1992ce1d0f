import Iotex.Proofs.Calls

/-! # Looking a function up by name

The search loop does not stop at a match and all matches share one output. A name that no function
has is reported as a success with the previous output, and overloads are encoded one behind the
other, so the output is one call exactly when one function matches and can be called, or the loop
comes to a match with an input that has no value.
-/

namespace Iotex

open Spec

variable {keccak_256 : Keccak} {params : ParameterValuesDictionary}

end Iotex
