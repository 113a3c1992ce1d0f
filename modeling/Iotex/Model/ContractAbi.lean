import Iotex.Model.Abi
import Iotex.Model.Account

/-! # Parsing a contract's ABI

From the JSON text of a contract to the list of its functions. The objects that the loops declare
come with their previous contents, one for each position.
-/

namespace Iotex

/-- The previous contents of a function object and of the objects for its inputs and outputs. -/
structure FunctionMemory where
  constant : Bool
  payable : Bool
  inputs : ℕ → InputOutputAbi
  outputs : ℕ → InputOutputAbi

/-- A loop over inputs or outputs, on the vector so far. -/
def parseInputsOutputs (memory : ℕ → InputOutputAbi) :
    ℕ → List Json → List InputOutputAbi → Exec (ResultCode × List InputOutputAbi)
  | _, [], out => .ok (.success, out)
  | position, data :: rest, out => do
    let (ret, input) ← parseInputOutput data (memory position).construct
    if ret ≠ .success then return (.errorJsonParse, out)
    parseInputsOutputs memory (position + 1) rest (out ++ [input])

/-- `parseFunction` into a new object; the results for four of the members are overwritten. -/
def parseFunction (memory : FunctionMemory) (data : Json) : Exec (ResultCode × FunctionAbi) := do
  let (_, constant) := setBoolFromJsonObject (getObjectItem data (ascii "constant")) memory.constant
  let (_, name) := setStringFromJsonObject (getObjectItem data (ascii "name")) [] 0
  let out : FunctionAbi := { constant := constant, name := name, payable := memory.payable }
  match getObjectItem data (ascii "inputs") with
  | some (.arr inputs) => do
    let (ret, inputs) ← parseInputsOutputs memory.inputs 0 inputs []
    let out := { out with inputs := inputs }
    if ret ≠ .success then return (ret, out)
    match getObjectItem data (ascii "outputs") with
    | some (.arr outputs) => do
      let (ret, outputs) ← parseInputsOutputs memory.outputs 0 outputs []
      let out := { out with outputs := outputs }
      if ret ≠ .success then return (ret, out)
      let (_, payable) := setBoolFromJsonObject (getObjectItem data (ascii "payable")) out.payable
      let (_, stateMutability) :=
        setStringFromJsonObject (getObjectItem data (ascii "stateMutability")) out.stateMutability 0
      return (.success, { out with payable := payable, stateMutability := stateMutability })
    | _ => return (.errorJsonParse, out)
  | _ => return (.errorJsonParse, out)

/-- The loop over the elements of the ABI, on the vector so far. -/
def parseElements (memory : ℕ → FunctionMemory) :
    ℕ → List Json → List FunctionAbi → Exec (ResultCode × List FunctionAbi)
  | _, [], out => .ok (.success, out)
  | position, element :: rest, out => do
    let (ret, type) := setStringFromJsonObject (getObjectItem element (ascii "type")) [] 0
    if ret ≠ .success then return (.errorJsonParse, out)
    if type = ascii "function" then do
      let (ret, function) ← parseFunction (memory position) element
      if ret ≠ .success then return (.errorJsonParse, out)
      parseElements memory (position + 1) rest (out ++ [function])
    else parseElements memory (position + 1) rest out

/-- `parseContract`: the result and the vector afterwards. -/
def parseContract (cJSON_Parse : CJsonParse) (memory : ℕ → FunctionMemory) (contractAbi : Bytes)
    (out : List FunctionAbi) : Exec (ResultCode × List FunctionAbi) :=
  match cJSON_Parse (cString contractAbi) with
  | none => .ok (.errorJsonParse, out)
  | some data =>
    match data with
    | .arr elements => parseElements memory 0 elements out
    | _ => .ok (.errorJsonParse, out)

end Iotex
