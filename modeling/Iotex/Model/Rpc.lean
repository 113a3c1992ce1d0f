import Iotex.Model.Abi
import Iotex.Model.Encoder

/-! # Requests of the wallets API

The two requests that send an action: base64 text of the binary arguments and a body that is put
together by successive `sprintf` calls. The arrays have the sizes the sources give them; those that
depend on the data string are parameters, so that they can also be taken as large enough.
-/

namespace Iotex

/-! ## Base64 -/

namespace Base64Library

def bintodigit : Bytes := ascii "ABCDEFGHIJKLMNOPQRSTUVWXYZabcdefghijklmnopqrstuvwxyz0123456789+/"

def get0 (a : UInt8) : UInt8 := bintodigit.getD (a >>> 2).toNat 0

def get1 (a b : UInt8) : UInt8 := bintodigit.getD ((a &&& 3) <<< 4 ||| b >>> 4).toNat 0

def get2 (b c : UInt8) : UInt8 := bintodigit.getD ((b &&& 15) <<< 2 ||| c >>> 6).toNat 0

def get3 (c : UInt8) : UInt8 := bintodigit.getD (c &&& 0x3f).toNat 0

/-- The text that `bintob64` writes, without the NUL behind it. -/
def bintob64 : Bytes → Bytes
  | a :: b :: c :: rest => get0 a :: get1 a b :: get2 b c :: get3 c :: bintob64 rest
  | [a, b] => [get0 a, get1 a b, get2 b 0, 61]
  | [a] => [get0 a, get1 a 0, 61, 61]
  | [] => []

end Base64Library

/-- `base64_encode` into an array of the given size. -/
def Encoder.base64Encode (capacity : ℕ) (data : Bytes) : Exec Bytes :=
  if (Base64Library.bintob64 data).length < capacity then .ok (Base64Library.bintob64 data) else .error .outOfBounds

/-! ## Requests -/

structure RpcCallData where
  url : Bytes
  body : Bytes
deriving DecidableEq, Repr

namespace Rpc

/-- `sprintf(body + strlen(body), …)` in an array of the given size. -/
def sprintf (capacity : ℕ) (body text : Bytes) : Exec Bytes :=
  if body.length + text.length < capacity then .ok (body ++ text) else .error .outOfBounds

/-- The pieces of the body that a transfer is printed in. -/
def transferPieces (transfer : ActionCoreTransfer) (base64PublicKey base64Signature : Bytes) : List Bytes :=
  [ascii "\x7b\"action\": \x7b\"core\": ",
    ascii "\x7b\"version\": ",
    formatD transfer.version,
    ascii ",\"nonce\": \"",
    decimal transfer.nonce.toNat,
    ascii "\",\"gasLimit\": \"",
    decimal transfer.gasLimit.toNat,
    ascii "\",\"gasPrice\": \"",
    transfer.gasPrice.text,
    ascii "\"",
    ascii ",\"chainID\": ",
    formatD transfer.chainId,
    ascii ",\"transfer\":",
    ascii "\x7b\"amount\": \"",
    transfer.transfer.amount.text,
    ascii "\"",
    ascii ",\"recipient\": \"",
    transfer.transfer.recipient.text,
    ascii "\",\"payload\": \"",
    ascii "\"\x7d\x7d",
    ascii ",\"senderPubKey\": \"",
    base64PublicKey,
    ascii "\"",
    ascii ",\"signature\": \"",
    base64Signature,
    ascii "\",\"encoding\": \"IOTEX_PROTOBUF\"\x7d\x7d"]

def sendTokenTransfer (host : Bytes) (transfer : ActionCoreTransfer) (senderPubKey signature : Vector UInt8 65) :
    Exec RpcCallData := do
  let base64Signature ← Encoder.base64Encode (65 * 2) signature.toList
  let base64PublicKey ← Encoder.base64Encode (65 * 2) senderPubKey.toList
  let body ← (transferPieces transfer base64PublicKey base64Signature).foldlM (sprintf 1024) []
  return { url := host ++ ascii "SendAction", body := body }

/-- The sizes of the arrays that an execution's data passes through. -/
structure ExecutionArrays where
  data : ℕ
  base64Data : ℕ
  body : ℕ

/-- The sizes that the sources declare. -/
def ExecutionArrays.declared (execution : Execution) : ExecutionArrays where
  data := execution.data.text.length / 2
  base64Data := execution.data.text.length / 2 * 2
  body := 1024 + execution.data.text.length / 2 * 2

/-- The pieces of the body that an execution is printed in. -/
def executionPieces (execution : ActionCoreExecution) (base64Data base64PublicKey base64Signature : Bytes) :
    List Bytes :=
  [ascii "\x7b\"action\": \x7b\"core\": ",
    ascii "\x7b\"version\": ",
    formatD execution.version,
    ascii ",\"nonce\": \"",
    decimal execution.nonce.toNat,
    ascii "\",\"gasLimit\": \"",
    decimal execution.gasLimit.toNat,
    ascii "\",\"gasPrice\": \"",
    execution.gasPrice.text,
    ascii "\"",
    ascii ",\"execution\":",
    ascii "\x7b\"amount\": \"",
    execution.execution.amount.text,
    ascii "\"",
    ascii ",\"contract\": \"",
    execution.execution.contract.text,
    ascii "\",\"data\": \"",
    base64Data,
    ascii "\"\x7d\x7d",
    ascii ",\"senderPubKey\": \"",
    base64PublicKey,
    ascii "\"",
    ascii ",\"signature\": \"",
    base64Signature,
    ascii "\",\"encoding\": \"IOTEX_PROTOBUF\"\x7d\x7d"]

def sendExecution (arrays : ExecutionArrays) (host : Bytes) (execution : ActionCoreExecution)
    (senderPubKey signature : Vector UInt8 65) : Exec RpcCallData := do
  let size := execution.execution.data.text.length / 2
  let base64Signature ← Encoder.base64Encode (65 * 2) signature.toList
  let base64PublicKey ← Encoder.base64Encode (65 * 2) senderPubKey.toList
  let data ← Encoder.overwrite (List.replicate arrays.data 0) (Signer.str2hex execution.execution.data.text size).2
  let data ← readFirst data size
  let base64Data ← Encoder.base64Encode arrays.base64Data data
  let body ← (executionPieces execution base64Data base64PublicKey base64Signature).foldlM (sprintf arrays.body) []
  return { url := host ++ ascii "SendAction", body := body }

end Rpc

end Iotex
