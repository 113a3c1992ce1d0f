import Iotex.Model.Nanopb
import Iotex.Model.Signer

/-! # Encoding of action cores

The action cores of the API, and the part of `Encoder` that serializes them as protocol-buffer
messages into an array of a given size. A core's character arrays are NUL-terminated.
-/

namespace Iotex

open Nanopb

structure Transfer where
  amount : CharArray 31
  recipient : CharArray 42
  payload : IotexString

structure Execution where
  amount : CharArray 31
  contract : CharArray 42
  data : IotexString

structure ActionCoreTransfer where
  version : UInt32
  nonce : UInt64
  gasLimit : UInt64
  gasPrice : CharArray 31
  chainId : UInt32
  transfer : Transfer

structure ActionCoreExecution where
  version : UInt32
  nonce : UInt64
  gasLimit : UInt64
  gasPrice : CharArray 31
  execution : Execution

/-! ## Messages of the generated code -/

namespace Pb

inductive Action where
  | transfer (amount recipient : EncodeFunction)
  | execution (amount contract data : EncodeFunction)

structure ActionCore where
  version : UInt32
  nonce : UInt64
  gasLimit : UInt64
  gasPrice : EncodeFunction
  action : Action

namespace Action

/-- `which_action`. -/
def whichAction : Action → ℕ
  | transfer .. => 10
  | execution .. => 12

/-- `Transfer_FIELDLIST`, on the union's contents when it is a transfer. -/
def transferFields : Action → List PbField
  | transfer amount recipient => [.callback .string 1 (some amount), .callback .string 2 (some recipient)]
  | execution .. => []

/-- `Execution_FIELDLIST`, on the union's contents when it is an execution. -/
def executionFields : Action → List PbField
  | execution amount contract data =>
    [.callback .string 1 (some amount), .callback .string 2 (some contract), .callback .bytes 3 (some data)]
  | transfer .. => []

end Action

/-- `ActionCore_FIELDLIST`. -/
def ActionCore.fields (core : ActionCore) : List PbField :=
  [.singular 1 core.version.toUInt64,
    .singular 2 core.nonce,
    .singular 3 core.gasLimit,
    .callback .string 4 (some core.gasPrice),
    .oneof core.action.whichAction 10 core.action.transferFields,
    .oneof core.action.whichAction 12 core.action.executionFields]

end Pb

/-! ## The encoder -/

namespace Encoder

/-- `encode_string` with a string argument. -/
def encodeString (str : Bytes) : EncodeFunction := fun ltype tag stream =>
  andThen (pbEncodeTagForField stream ltype tag) fun stream => pbEncodeString stream str (cString str).length

/-- `encode_bytes` with an argument that is not null. -/
def encodeBytes (bytes : Bytes) (size : ℕ) : EncodeFunction := fun ltype tag stream =>
  andThen (pbEncodeTagForField stream ltype tag) fun stream => pbEncodeString stream bytes size

/-- An array of the given size after `str2hex` has written to its start. -/
def overwrite (array written : Bytes) : Exec Bytes :=
  if written.length ≤ array.length then .ok (written ++ array.drop written.length) else .error .outOfBounds

/-- The array, zeroed and then written by the stream, and the number of bytes written. -/
def encodeCore (core : Pb.ActionCore) (maxOutSize : ℕ) : Bytes × ℤ :=
  let stream := (pbEncode core.fields (pbOstreamFromBuffer maxOutSize)).2
  let written := stream.buffer.getD []
  (written ++ List.replicate (maxOutSize - written.length) 0, toInt32 stream.bytesWritten)

/-- The message that `protobuf_encodeTransfer` fills in. -/
def transferCore (transfer : ActionCoreTransfer) : Pb.ActionCore where
  version := transfer.version
  gasLimit := transfer.gasLimit
  nonce := transfer.nonce
  gasPrice := encodeString transfer.gasPrice.text
  action := .transfer (encodeString transfer.transfer.amount.text) (encodeString transfer.transfer.recipient.text)

def protobufEncodeTransfer (transfer : ActionCoreTransfer) (maxOutSize : ℕ) : Bytes × ℤ :=
  encodeCore (transferCore transfer) maxOutSize

/-- The array that the data string is converted into, one byte longer than the data. -/
def executionData (execution : Execution) : Exec Bytes :=
  let size := execution.data.text.length / 2
  overwrite (List.replicate (size + 1) 0) (Signer.str2hex execution.data.text size).2

/-- The message that `protobuf_encodeExecution` fills in. -/
def executionCore (execution : ActionCoreExecution) (data : Bytes) : Pb.ActionCore where
  version := execution.version
  gasLimit := execution.gasLimit
  nonce := execution.nonce
  gasPrice := encodeString execution.gasPrice.text
  action := .execution (encodeString execution.execution.amount.text)
    (encodeString execution.execution.contract.text) (encodeBytes data (execution.execution.data.text.length / 2))

def protobufEncodeExecution (execution : ActionCoreExecution) (maxOutSize : ℕ) : Exec (Bytes × ℤ) := do
  let data ← executionData execution.execution
  return encodeCore (executionCore execution data) maxOutSize

/-- The bytes that the count in an encoder's result covers. -/
def countedBytes (result : Bytes × ℤ) : Exec Bytes := readFirst result.1 (toSizeT result.2)

end Encoder

end Iotex
