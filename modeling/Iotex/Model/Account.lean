import Iotex.Model.JsonHelper
import Iotex.Model.Rpc

/-! # Signing and sending actions

`Account` on top of the wallets API. The signature primitive, the HTTP back end and the JSON parser
are parameters; a call that sends an action returns the requests that were posted together with its
result. Arrays that are declared without an initializer come with their previous contents.
-/

namespace Iotex

/-- `IHTTP::post` of a URL and a body: a result and the response. -/
abbrev HttpPost := Bytes → Bytes → ResultCode × Bytes

/-- `cJSON_Parse` of a C string. -/
abbrev CJsonParse := Bytes → Option Json

/-- What a call that sends an action leaves behind. -/
structure Sent where
  ret : ResultCode
  hash : Bytes
  posts : List RpcCallData
deriving DecidableEq

/-! ## The response to a sent action -/

/-- An array that was cleared. -/
def cleared (size : ℕ) : Cells := cells (List.replicate size 0)

structure SendExecutionResponse where
  hash : Cells
deriving DecidableEq

/-- A new object, which has no initializer. -/
def SendExecutionResponse.declared : SendExecutionResponse := ⟨uninitialized 65⟩

def SendExecutionResponse.fromJson (cJSON_Parse : CJsonParse) (response : SendExecutionResponse) (jsonString : Bytes) :
    Exec (ResultCode × SendExecutionResponse) :=
  match cJSON_Parse (cString jsonString) with
  | none => .ok (.errorJsonParse, response)
  | some data => do
    let (ret, hash) ← setCStringFromJsonObject (getObjectItem data (ascii "actionHash")) (cleared 65) 64
    return (ret, { response with hash := hash })

/-! ## The wallets API -/

namespace Wallets

/-- The common part of the calls that send an action. -/
def sendAction (post : HttpPost) (cJSON_Parse : CJsonParse) (callData : RpcCallData) (hash : Bytes) : Exec Sent := do
  let (ret, rspBody) := post (cString callData.url) (cString callData.body)
  if ret ≠ .success then return { ret := ret, hash := hash, posts := [callData] }
  let (ret, response) ← SendExecutionResponse.fromJson cJSON_Parse .declared rspBody
  if ret ≠ .success then return { ret := ret, hash := hash, posts := [callData] }
  let responseHash ← readString response.hash
  let hash ← Encoder.overwrite hash (Signer.str2hex responseHash 32).2
  return { ret := ret, hash := hash, posts := [callData] }

def sendTokenTransfer (post : HttpPost) (cJSON_Parse : CJsonParse) (host : Bytes)
    (senderPubKey signature : Vector UInt8 65) (transfer : ActionCoreTransfer) (hash : Bytes) : Exec Sent := do
  let callData ← Rpc.sendTokenTransfer host transfer senderPubKey signature
  sendAction post cJSON_Parse callData hash

def sendExecution (post : HttpPost) (cJSON_Parse : CJsonParse) (host : Bytes) (senderPubKey signature : Vector UInt8 65)
    (execution : ActionCoreExecution) (hash : Bytes) : Exec Sent := do
  let callData ← Rpc.sendExecution (.declared execution.execution) host execution senderPubKey signature
  sendAction post cJSON_Parse callData hash

end Wallets

/-! ## The account -/

structure Account where
  publicKey : Vector UInt8 65
  privateKey : Vector UInt8 32

/-- `strcpy` into a character array. -/
def strcpy (size : ℕ) (text : Bytes) : Exec (CharArray size) :=
  if fits : (cString text).length < size then .ok ⟨cString text, cString_noNul text, fits⟩ else .error .outOfBounds

namespace Account

/-- The bytes that `signTokenTransferAction` hashes. -/
def hashedTransfer (transfer : ActionCoreTransfer) : Exec Bytes :=
  Encoder.countedBytes (Encoder.protobufEncodeTransfer transfer 1024)

def signTokenTransferAction (keccak_256 : Keccak) (ecdsa_sign_digest : EcdsaSignDigest) (account : Account)
    (transfer : ActionCoreTransfer) (signature : Vector UInt8 65) : Exec (Vector UInt8 65) := do
  let encodedCore ← hashedTransfer transfer
  let hash := Signer.getHash keccak_256 encodedCore
  return (Signer.signHash ecdsa_sign_digest hash account.privateKey signature).2

/-- The bytes that `signExecutionAction` hashes. -/
def hashedExecution (execution : ActionCoreExecution) : Exec Bytes := do
  let encodedCore ← Encoder.protobufEncodeExecution execution 1024
  Encoder.countedBytes encodedCore

/-- `signExecutionAction`: the signature and the hash, which the caller may ask for. -/
def signExecutionAction (keccak_256 : Keccak) (ecdsa_sign_digest : EcdsaSignDigest) (account : Account)
    (execution : ActionCoreExecution) (signature : Vector UInt8 65) : Exec (Vector UInt8 65 × Vector UInt8 32) := do
  let encodedCore ← hashedExecution execution
  let hash := Signer.getHash keccak_256 encodedCore
  return ((Signer.signHash ecdsa_sign_digest hash account.privateKey signature).2, hash)

/-- The core that `sendTokenTransferAction` fills in. -/
def transferCore (nonce gasLimit : UInt64) (gasPrice amount recipient : Bytes) : Exec ActionCoreTransfer := do
  let gasPrice ← strcpy 31 gasPrice
  let amount ← strcpy 31 amount
  let recipient ← strcpy 42 recipient
  return {
    version := 1
    gasLimit := gasLimit
    nonce := nonce
    gasPrice := gasPrice
    chainId := 0
    transfer := { amount := amount, payload := .empty, recipient := recipient }
  }

def sendTokenTransferAction (keccak_256 : Keccak) (ecdsa_sign_digest : EcdsaSignDigest) (post : HttpPost)
    (cJSON_Parse : CJsonParse) (host : Bytes) (account : Account) (nonce gasLimit : UInt64)
    (gasPrice amount recipient : Bytes) (hash : Bytes) (signature : Vector UInt8 65) : Exec Sent := do
  let core ← transferCore nonce gasLimit gasPrice amount recipient
  let signature ← signTokenTransferAction keccak_256 ecdsa_sign_digest account core signature
  Wallets.sendTokenTransfer post cJSON_Parse host account.publicKey signature core hash

/-- The core that `sendExecutionAction` fills in. -/
def executionCore (nonce gasLimit : UInt64) (gasPrice amount contract : Bytes) (data : IotexString) :
    Exec ActionCoreExecution := do
  let gasPrice ← strcpy 31 gasPrice
  let amount ← strcpy 31 amount
  let contract ← strcpy 42 contract
  return {
    version := 1
    gasLimit := gasLimit
    nonce := nonce
    gasPrice := gasPrice
    execution := { amount := amount, contract := contract, data := data }
  }

def sendExecutionAction (keccak_256 : Keccak) (ecdsa_sign_digest : EcdsaSignDigest) (post : HttpPost)
    (cJSON_Parse : CJsonParse) (host : Bytes) (account : Account) (nonce gasLimit : UInt64)
    (gasPrice amount contract : Bytes) (data : IotexString) (hash : Bytes) (signature : Vector UInt8 65) :
    Exec Sent := do
  let core ← executionCore nonce gasLimit gasPrice amount contract data
  let (signature, _) ← signExecutionAction keccak_256 ecdsa_sign_digest account core signature
  Wallets.sendExecution post cJSON_Parse host account.publicKey signature core hash

end Account

end Iotex
