import Iotex.Lib.Hex
import Iotex.Lib.Wire
import Iotex.Model.Encoder

/-! # Action cores on the wire

The message that an action core is, independently of how it is encoded: its decoder, which follows
the wire format (the last occurrence of a field counts, occurrences of a submessage are merged,
unknown fields are skipped), and its canonical serialization, in which a field that holds its
default is absent. The numbers of the fields that the schema keeps in comments are the node's.
-/

namespace Iotex

namespace Spec

structure TransferMessage where
  amount : Bytes := []
  recipient : Bytes := []
  payload : Bytes := []
deriving DecidableEq

structure ExecutionMessage where
  amount : Bytes := []
  contract : Bytes := []
  data : Bytes := []
deriving DecidableEq

inductive ActionMessage where
  | transfer (message : TransferMessage)
  | execution (message : ExecutionMessage)
deriving DecidableEq

structure ActionCore where
  version : ℕ := 0
  nonce : ℕ := 0
  gasLimit : ℕ := 0
  gasPrice : Bytes := []
  chainID : ℕ := 0
  action : Option ActionMessage := none
deriving DecidableEq

/-! ## Decoding -/

def TransferMessage.absorb (message : TransferMessage) (field : Wire.Field) : TransferMessage :=
  match field with
  | ⟨1, .delimited text⟩ => { message with amount := text }
  | ⟨2, .delimited text⟩ => { message with recipient := text }
  | ⟨3, .delimited bytes⟩ => { message with payload := bytes }
  | _ => message

def ExecutionMessage.absorb (message : ExecutionMessage) (field : Wire.Field) : ExecutionMessage :=
  match field with
  | ⟨1, .delimited text⟩ => { message with amount := text }
  | ⟨2, .delimited text⟩ => { message with contract := text }
  | ⟨3, .delimited bytes⟩ => { message with data := bytes }
  | _ => message

namespace ActionCore

/-- The transfer that the oneof holds, or an empty one. -/
def transferSoFar (core : ActionCore) : TransferMessage :=
  match core.action with
  | some (.transfer message) => message
  | _ => {}

/-- The execution that the oneof holds, or an empty one. -/
def executionSoFar (core : ActionCore) : ExecutionMessage :=
  match core.action with
  | some (.execution message) => message
  | _ => {}

def absorb (core : ActionCore) (field : Wire.Field) : Option ActionCore :=
  match field with
  | ⟨1, .varint value⟩ => some { core with version := value % 2 ^ 32 }
  | ⟨2, .varint value⟩ => some { core with nonce := value }
  | ⟨3, .varint value⟩ => some { core with gasLimit := value }
  | ⟨4, .delimited text⟩ => some { core with gasPrice := text }
  | ⟨5, .varint value⟩ => some { core with chainID := value % 2 ^ 32 }
  | ⟨10, .delimited body⟩ => do
    let fields ← Wire.readFields body
    some { core with action := some (.transfer (fields.foldl TransferMessage.absorb core.transferSoFar)) }
  | ⟨12, .delimited body⟩ => do
    let fields ← Wire.readFields body
    some { core with action := some (.execution (fields.foldl ExecutionMessage.absorb core.executionSoFar)) }
  | _ => some core

/-- The core that a byte string is a complete message of. -/
def decode? (bytes : Bytes) : Option ActionCore := do
  let fields ← Wire.readFields bytes
  fields.foldlM absorb {}

end ActionCore

/-! ## Serialization -/

/-- An integer field, absent when it is zero. -/
def numberField (number value : ℕ) : List Wire.Field := if value = 0 then [] else [⟨number, .varint value⟩]

/-- A string or bytes field, absent when it is empty. -/
def textField (number : ℕ) (text : Bytes) : List Wire.Field := if text = [] then [] else [⟨number, .delimited text⟩]

namespace ActionMessage

/-- The field number in the oneof. -/
def number : ActionMessage → ℕ
  | transfer _ => 10
  | execution _ => 12

def fields : ActionMessage → List Wire.Field
  | transfer message => textField 1 message.amount ++ textField 2 message.recipient ++ textField 3 message.payload
  | execution message => textField 1 message.amount ++ textField 2 message.contract ++ textField 3 message.data

/-- The fields of the schema, empty or not. -/
def allFields : ActionMessage → List Wire.Field
  | transfer message => [⟨1, .delimited message.amount⟩, ⟨2, .delimited message.recipient⟩]
  | execution message =>
    [⟨1, .delimited message.amount⟩, ⟨2, .delimited message.contract⟩, ⟨3, .delimited message.data⟩]

end ActionMessage

namespace ActionCore

/-- The integer fields in front of the gas price. -/
def numberFields (core : ActionCore) : List Wire.Field :=
  numberField 1 core.version ++ numberField 2 core.nonce ++ numberField 3 core.gasLimit

def fields (core : ActionCore) : List Wire.Field :=
  core.numberFields ++ textField 4 core.gasPrice ++ numberField 5 core.chainID ++
    core.action.toList.map fun action => ⟨action.number, .delimited (Wire.writeFields action.fields)⟩

/-- The canonical serialization. -/
def canonical (core : ActionCore) : Bytes := Wire.writeFields core.fields

/-- The fields in front of the action, with the gas price empty or not. -/
def headFields (core : ActionCore) : List Wire.Field := core.numberFields ++ [⟨4, .delimited core.gasPrice⟩]

/-- The fields of the schema, strings and bytes empty or not. -/
def allFields (core : ActionCore) : List Wire.Field :=
  core.headFields ++
    core.action.toList.map fun action => ⟨action.number, .delimited (Wire.writeFields action.allFields)⟩

/-- The size of the message when no string or bytes field is left out. -/
def size (core : ActionCore) : ℕ := (Wire.writeFields core.allFields).length

end ActionCore

end Spec

/-! ## The cores of the API -/

/-- The message of a transfer by the schema, which has neither chain ID nor payload. -/
def ActionCoreTransfer.message (transfer : ActionCoreTransfer) : Spec.ActionCore where
  version := transfer.version.toNat
  nonce := transfer.nonce.toNat
  gasLimit := transfer.gasLimit.toNat
  gasPrice := transfer.gasPrice.text
  action := some (.transfer { amount := transfer.transfer.amount.text, recipient := transfer.transfer.recipient.text })

/-- The message of an execution with the given data bytes. -/
def ActionCoreExecution.message (execution : ActionCoreExecution) (data : Bytes) : Spec.ActionCore where
  version := execution.version.toNat
  nonce := execution.nonce.toNat
  gasLimit := execution.gasLimit.toNat
  gasPrice := execution.gasPrice.text
  action := some (.execution {
    amount := execution.execution.amount.text, contract := execution.execution.contract.text, data := data })

end Iotex
