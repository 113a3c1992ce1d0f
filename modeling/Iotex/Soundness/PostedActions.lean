import Iotex.Soundness.ActionHashes
import Iotex.Spec.Values

/-! # What a node can check of a posted action

A request carries the core of an action, the public key of its sender and a signature. The node has no
more than that: it serialises the core that it has read and checks the signature against the hash of
the serialization. For the calls of the account the two ends fit together: the core in the request is
the one that the caller has asked for, and the signature beside it is that of the hash of its
serialization under the key of the account.
-/

namespace Iotex

open Spec

/-- A signed action, as the body of a request carries it. -/
structure SealedAction where
  core : ActionCore
  senderPubKey : Bytes
  signature : Bytes

/-- The signed action in the body of a request. -/
def sealedAction? (body : Bytes) : Option SealedAction := do
  let request ← Json.parse body
  let action ← request.get? (ascii "action")
  let core ← action.get? (ascii "core")
  let senderPubKey ← action.get? (ascii "senderPubKey")
  let signature ← action.get? (ascii "signature")
  let core ← coreOf? core
  let senderPubKey ← bytesOf? senderPubKey
  let signature ← bytesOf? signature
  some ⟨core, senderPubKey, signature⟩

/-- A core as the account signs it: the signature is that of the hash of the canonical serialization. -/
def signedBy (keccak_256 : Keccak) (ecdsa_sign_digest : EcdsaSignDigest) (account : Account)
    (signature : Vector UInt8 65) (core : ActionCore) : SealedAction where
  core := core
  senderPubKey := account.publicKey.toList
  signature := (ecdsa_sign_digest account.privateKey (keccak_256 core.canonical) signature).2.toList

/-- A call that returns, whatever the node replies, after one request with the signed action. -/
def PostsSealed (host : Bytes) (sealed : SealedAction) (result : Exec Sent) : Prop :=
  ∃ sent callData, result = .ok sent ∧ sent.posts = [callData] ∧ callData.url = host ++ ascii "SendAction" ∧
    sealedAction? callData.body = some sealed

/-- An argument that a JSON string can hold as it is, with the room that an array of the size has. -/
structure Argument (size : ℕ) (text : Bytes) : Prop where
  plain : Json.PlainText text
  present : text ≠ []
  fits : text.length < size

theorem Argument.noNul {size : ℕ} {text : Bytes} (argument : Argument size text) : (0 : UInt8) ∉ text := by
  intro member
  exact absurd (argument.plain 0 member) (by decide)

/-- The array holds the argument. -/
theorem Argument.strcpy_eq {size : ℕ} {text : Bytes} (argument : Argument size text) :
    ∃ array : CharArray size, strcpy size text = .ok array ∧ array.text = text := by
  have whole := cString_of_noNul argument.noNul
  have room : (cString text).length < size := by
    rw [whole]
    exact argument.fits
  exact ⟨_, dif_pos room, whole⟩

theorem signHash_snd (ecdsa_sign_digest : EcdsaSignDigest) (digest privateKey : Vector UInt8 32)
    (signature : Vector UInt8 65) :
    (Signer.signHash ecdsa_sign_digest digest privateKey signature).2 =
      (ecdsa_sign_digest privateKey digest signature).2 := by
  simp only [Signer.signHash]
  split_ifs <;> rfl

theorem sealedAction?_request {body : Bytes} {core : Json} {senderPubKey signature : Bytes}
    (parsed : Json.parse body = some (requestOf core (Base64.encode senderPubKey) (Base64.encode signature))) :
    sealedAction? body = (coreOf? core).map fun core => ⟨core, senderPubKey, signature⟩ := by
  have key : bytesOf? (.str (Base64.encode senderPubKey)) = some senderPubKey := Base64.decode?_encode senderPubKey
  have signed : bytesOf? (.str (Base64.encode signature)) = some signature := Base64.decode?_encode signature
  have members : sealedAction? body = (coreOf? core).bind fun core =>
      (bytesOf? (.str (Base64.encode senderPubKey))).bind fun senderPubKey =>
        (bytesOf? (.str (Base64.encode signature))).bind fun signature => some ⟨core, senderPubKey, signature⟩ := by
    rw [sealedAction?, parsed]
    rfl
  rw [members, key, signed]
  cases coreOf? core <;> rfl

/-- The reply of the node never leads outside the array of the hash. -/
theorem sendAction_returns (post : HttpPost) (cJSON_Parse : CJsonParse) (callData : RpcCallData)
    (hash : Vector UInt8 32) :
    ∃ sent, Wallets.sendAction post cJSON_Parse callData hash.toList = .ok sent ∧ sent.posts = [callData] := by
  rcases replied : post.reply callData with ⟨ret, rspBody⟩
  rw [sendAction_eq post cJSON_Parse replied]
  split_ifs with failed
  · exact ⟨_, rfl, rfl⟩
  · cases actionHashText? cJSON_Parse rspBody with
    | none => exact ⟨_, rfl, rfl⟩
    | some text =>
      by_cases fits : text.length ≤ 64
      · have written := Signer.str2hex_length text 32
        have inside : (Signer.str2hex text 32).2.length ≤ hash.toList.length := by
          rw [Vector.length_toList]
          omega
        simp only [fits, if_true]
        rw [Encoder.overwrite, if_pos inside]
        exact ⟨_, rfl, rfl⟩
      · simp only [fits, if_false]
        exact ⟨_, rfl, rfl⟩

/-- The request of a transfer without a chain carries the core, the key and the signature. -/
theorem sendTokenTransfer_carries (host : Bytes) {transfer : ActionCoreTransfer}
    (senderPubKey signature : Vector UInt8 65) (small : transfer.version.toNat < 2 ^ 31) (unchained : transfer.chainId = 0)
    (gasPrice : Json.PlainText transfer.gasPrice.text) (amount : Json.PlainText transfer.transfer.amount.text)
    (recipient : Json.PlainText transfer.transfer.recipient.text) :
    ∃ callData, Rpc.sendTokenTransfer host transfer senderPubKey signature = .ok callData ∧
      callData.url = host ++ ascii "SendAction" ∧
      sealedAction? callData.body = some ⟨transfer.message, senderPubKey.toList, signature.toList⟩ := by
  have chain : Json.Reads (formatD transfer.chainId) (.num 0 0) := by
    rw [unchained]
    exact Json.Reads.decimal 0
  have body := reads_transferBody transfer small chain gasPrice amount recipient (plain_base64 senderPubKey.toList)
    (plain_base64 signature.toList)
  refine ⟨_, sendTokenTransfer_eq host transfer senderPubKey signature, rfl, ?_⟩
  dsimp only [transferCallData]
  rw [sealedAction?_request (Json.parse_of_reads body), coreOf?_transfer transfer (.num 0 0) nofun]
  rfl

/-- The request of an execution does, where the arrays have room for its data. -/
theorem sendExecution_carries {arrays : Rpc.ExecutionArrays} (host : Bytes) {execution : ActionCoreExecution}
    (senderPubKey signature : Vector UInt8 65) (enough : arrays.LargeEnough execution.execution)
    (small : execution.version.toNat < 2 ^ 31) (gasPrice : Json.PlainText execution.gasPrice.text)
    (amount : Json.PlainText execution.execution.amount.text)
    (contract : Json.PlainText execution.execution.contract.text) :
    ∃ callData, Rpc.sendExecution arrays host execution senderPubKey signature = .ok callData ∧
      callData.url = host ++ ascii "SendAction" ∧
      sealedAction? callData.body =
        some ⟨execution.message execution.execution.bytes, senderPubKey.toList, signature.toList⟩ := by
  have body := reads_executionBody execution small gasPrice amount contract (plain_base64 execution.execution.bytes)
    (plain_base64 senderPubKey.toList) (plain_base64 signature.toList)
  refine ⟨_, sendExecution_eq host execution senderPubKey signature enough, rfl, ?_⟩
  dsimp only [executionCallData]
  rw [sealedAction?_request (Json.parse_of_reads body), coreOf?_execution, Option.map_some]

/-! ## The cores that the caller asks for -/

/-- The core of a transfer as the caller asks for it. -/
def askedTransfer (nonce gasLimit : UInt64) (gasPrice amount recipient : Bytes) : ActionCore where
  version := 1
  nonce := nonce.toNat
  gasLimit := gasLimit.toNat
  gasPrice := gasPrice
  action := some (.transfer { amount := amount, recipient := recipient })

/-- The core of an execution as the caller asks for it. -/
def askedExecution (nonce gasLimit : UInt64) (gasPrice amount contract data : Bytes) : ActionCore where
  version := 1
  nonce := nonce.toNat
  gasLimit := gasLimit.toNat
  gasPrice := gasPrice
  action := some (.execution { amount := amount, contract := contract, data := data })

private theorem textField_present {text : Bytes} (present : text ≠ []) (number : ℕ) :
    textField number text = [⟨number, .delimited text⟩] := if_neg present

/-- With nothing empty the canonical serialization has all fields. -/
theorem canonical_of_present {core : ActionCore} {action : ActionMessage} (holds : core.action = some action)
    (unchained : core.chainID = 0) (price : core.gasPrice ≠ []) (body : action.fields = action.allFields) :
    core.canonical = Wire.writeFields core.allFields := by
  have chainless : numberField 5 0 = [] := if_pos rfl
  rw [ActionCore.canonical, ActionCore.fields, ActionCore.allFields, ActionCore.headFields, holds, unchained,
    textField_present price, chainless, List.append_nil, Option.toList_some, List.map_singleton, List.map_singleton, body]

theorem transferFields_present {amount recipient : Bytes} (value : amount ≠ []) (target : recipient ≠ []) :
    (ActionMessage.transfer { amount := amount, recipient := recipient }).fields =
      (ActionMessage.transfer { amount := amount, recipient := recipient }).allFields := by
  rw [ActionMessage.fields, textField_present value, textField_present target]
  rfl

theorem executionFields_present {amount contract data : Bytes} (value : amount ≠ []) (target : contract ≠ [])
    (called : data ≠ []) :
    (ActionMessage.execution ⟨amount, contract, data⟩).fields =
      (ActionMessage.execution ⟨amount, contract, data⟩).allFields := by
  rw [ActionMessage.fields, textField_present value, textField_present target, textField_present called]
  rfl

/-! ## The calls of the account -/

section

variable (keccak_256 : Keccak) (ecdsa_sign_digest : EcdsaSignDigest) (post : HttpPost) (cJSON_Parse : CJsonParse)
  (host : Bytes) (account : Account) (nonce gasLimit : UInt64) {gasPrice amount : Bytes}
  (hash : Vector UInt8 32) (signature : Vector UInt8 65)

/-- A transfer is posted with the signature of the core that the caller has asked for. -/
theorem sendTokenTransferAction_sealed {recipient : Bytes} (price : Argument 31 gasPrice) (value : Argument 31 amount)
    (target : Argument 42 recipient) :
    PostsSealed host
      (signedBy keccak_256 ecdsa_sign_digest account signature (askedTransfer nonce gasLimit gasPrice amount recipient))
      (Account.sendTokenTransferAction keccak_256 ecdsa_sign_digest post cJSON_Parse host account nonce gasLimit
        gasPrice amount recipient hash.toList signature) := by
  obtain ⟨priceArray, price_copied, rfl⟩ := price.strcpy_eq
  obtain ⟨valueArray, value_copied, rfl⟩ := value.strcpy_eq
  obtain ⟨targetArray, target_copied, rfl⟩ := target.strcpy_eq
  let core : ActionCoreTransfer := {
    version := 1, gasLimit := gasLimit, nonce := nonce, gasPrice := priceArray, chainId := 0
    transfer := { amount := valueArray, payload := .empty, recipient := targetArray } }
  have filled : Account.transferCore nonce gasLimit priceArray.text valueArray.text targetArray.text = .ok core := by
    rw [Account.transferCore, price_copied, ok_bind, value_copied, ok_bind, target_copied, ok_bind, pure_eq_ok]
  have canonical : core.message.canonical = Wire.writeFields core.message.allFields :=
    canonical_of_present rfl rfl price.present (transferFields_present value.present target.present)
  have signed : Account.signTokenTransferAction keccak_256 ecdsa_sign_digest account core signature =
      .ok (Signer.signHash ecdsa_sign_digest (keccak_256 core.message.canonical) account.privateKey signature).2 := by
    rw [Account.signTokenTransferAction, (hashedTransfer_eq core).2, ok_bind, canonical]
    rfl
  have small : core.version.toNat < 2 ^ 31 := show (1 : UInt32).toNat < 2 ^ 31 by decide
  obtain ⟨callData, requested, url, carries⟩ := sendTokenTransfer_carries host account.publicKey
    (Signer.signHash ecdsa_sign_digest (keccak_256 core.message.canonical) account.privateKey signature).2
    small rfl price.plain value.plain target.plain
  obtain ⟨sent, returned, posts⟩ := sendAction_returns post cJSON_Parse callData hash
  refine ⟨sent, callData, ?_, posts, url, ?_⟩
  · rw [Account.sendTokenTransferAction, filled, ok_bind, signed, ok_bind, Wallets.sendTokenTransfer, requested,
      ok_bind, returned]
  · rw [carries, signedBy, signHash_snd]
    rfl

/-- So is an execution whose arrays have room for its data. -/
theorem sendExecutionAction_sealed {contract called : Bytes} {data : IotexString} (price : Argument 31 gasPrice)
    (value : Argument 31 amount) (target : Argument 42 contract) (digits : unhex? data.text = some called)
    (count : called.length = 3 ∨ 5 ≤ called.length)
    (fits : (askedExecution nonce gasLimit gasPrice amount contract called).size ≤ 1024) :
    PostsSealed host
      (signedBy keccak_256 ecdsa_sign_digest account signature
        (askedExecution nonce gasLimit gasPrice amount contract called))
      (Account.sendExecutionAction keccak_256 ecdsa_sign_digest post cJSON_Parse host account nonce gasLimit
        gasPrice amount contract data hash.toList signature) := by
  obtain ⟨priceArray, price_copied, rfl⟩ := price.strcpy_eq
  obtain ⟨valueArray, value_copied, rfl⟩ := value.strcpy_eq
  obtain ⟨targetArray, target_copied, rfl⟩ := target.strcpy_eq
  let core : ActionCoreExecution := {
    version := 1, gasLimit := gasLimit, nonce := nonce, gasPrice := priceArray
    execution := { amount := valueArray, contract := targetArray, data := data } }
  have filled :
      Account.executionCore nonce gasLimit priceArray.text valueArray.text targetArray.text data = .ok core := by
    rw [Account.executionCore, price_copied, ok_bind, value_copied, ok_bind, target_copied, ok_bind, pure_eq_ok]
  have bytes : core.execution.bytes = called := Execution.bytes_of_hex digits
  have some : called ≠ [] := List.ne_nil_of_length_pos (by omega)
  have canonical : (core.message called).canonical = Wire.writeFields (core.message called).allFields :=
    canonical_of_present rfl rfl price.present (executionFields_present value.present target.present some)
  have length := unhex?_length digits
  have enough : (Rpc.ExecutionArrays.declared core.execution).LargeEnough core.execution := by
    have half : core.execution.data.text.length / 2 = called.length := by
      change data.text.length / 2 = called.length
      omega
    refine ⟨?_, ?_, ?_⟩
    · change (data.text.length + 1) / 2 ≤ data.text.length / 2
      omega
    · rw [half]
      change _ < core.execution.data.text.length / 2 * 2
      rw [half, blocks]
      omega
    · rw [half]
      change _ ≤ 1024 + core.execution.data.text.length / 2 * 2
      rw [half, blocks]
      omega
  have hashed : Account.hashedExecution core = .ok (core.message called).canonical := by
    rw [hashedExecution_eq, bytes, if_pos (show (core.message called).size ≤ 1024 from fits), canonical]
  have small : core.version.toNat < 2 ^ 31 := show (1 : UInt32).toNat < 2 ^ 31 by decide
  obtain ⟨callData, requested, url, carries⟩ := sendExecution_carries host account.publicKey
    (Signer.signHash ecdsa_sign_digest (keccak_256 (core.message called).canonical) account.privateKey signature).2
    enough small price.plain value.plain target.plain
  obtain ⟨sent, returned, posts⟩ := sendAction_returns post cJSON_Parse callData hash
  refine ⟨sent, callData, ?_, posts, url, ?_⟩
  · rw [Account.sendExecutionAction, filled, ok_bind, Account.signExecutionAction, hashed, ok_bind, pure_eq_ok, ok_bind]
    have acted := congrArg (fun request => request >>= fun callData =>
      Wallets.sendAction post cJSON_Parse callData hash.toList) requested
    exact acted.trans returned
  · rw [carries, signedBy, signHash_snd, bytes]
    rfl

/-- A call that returns had room for the base64 text of the data. -/
theorem room_of_sendExecutionAction {contract : Bytes} {data : IotexString} {sent : Sent}
    (returned : Account.sendExecutionAction keccak_256 ecdsa_sign_digest post cJSON_Parse host account nonce gasLimit
      gasPrice amount contract data hash.toList signature = .ok sent) :
    4 * blocks 3 (data.text.length / 2) < 2 * (data.text.length / 2) := by
  obtain ⟨core, filled, returned⟩ := bind_eq_ok.mp returned
  obtain ⟨priceArray, -, filled⟩ := bind_eq_ok.mp filled
  obtain ⟨valueArray, -, filled⟩ := bind_eq_ok.mp filled
  obtain ⟨targetArray, -, filled⟩ := bind_eq_ok.mp filled
  obtain rfl := Except.ok.inj filled
  obtain ⟨signed, -, returned⟩ := bind_eq_ok.mp returned
  obtain ⟨callData, requested, -⟩ := bind_eq_ok.mp returned
  exact (room_of_sendExecution requested).2

/-- An execution whose message fits the array that is hashed is posted so exactly when its data are three
bytes, or five or more; for fewer the arrays of the request are too small. -/
theorem sendExecutionAction_sealed_iff {contract called : Bytes} {data : IotexString} (price : Argument 31 gasPrice)
    (value : Argument 31 amount) (target : Argument 42 contract) (digits : unhex? data.text = some called)
    (fits : (askedExecution nonce gasLimit gasPrice amount contract called).size ≤ 1024) :
    PostsSealed host
        (signedBy keccak_256 ecdsa_sign_digest account signature
          (askedExecution nonce gasLimit gasPrice amount contract called))
        (Account.sendExecutionAction keccak_256 ecdsa_sign_digest post cJSON_Parse host account nonce gasLimit
          gasPrice amount contract data hash.toList signature) ↔
      called.length = 3 ∨ 5 ≤ called.length := by
  have length := unhex?_length digits
  refine ⟨?_, fun count => sendExecutionAction_sealed keccak_256 ecdsa_sign_digest post cJSON_Parse host account nonce
    gasLimit hash signature price value target digits count fits⟩
  rintro ⟨sent, -, returned, -⟩
  have room := room_of_sendExecutionAction keccak_256 ecdsa_sign_digest post cJSON_Parse host account nonce gasLimit
    hash signature returned
  rw [blocks] at room
  omega

end

namespace PostedCall

/-- A signature that begins with the hash. -/
def ecdsa_sign_digest : EcdsaSignDigest := fun _ digest signature =>
  (0, Vector.ofFn fun i => digest.toList.getD i signature[i])

def account : Account := ⟨Vector.replicate 65 4, Vector.replicate 32 1⟩

def recipient : Bytes := ascii "io1w9kv3v2zg9gsmmv2fy6hc5ws3hsn7j7c9dcl4q"

theorem price : Argument 31 (ascii "1000000000000") := ⟨by decide, by decide, by decide⟩

theorem target : Argument 42 recipient := ⟨by decide, by decide, by decide⟩

end PostedCall

theorem postedTransfer_sealed :
    PostsSealed (ascii "http://host/")
      (signedBy paddedHash PostedCall.ecdsa_sign_digest PostedCall.account (Vector.replicate 65 0)
        (askedTransfer 10 1000000 (ascii "1000000000000") (ascii "1000000000000") PostedCall.recipient))
      (Account.sendTokenTransferAction paddedHash PostedCall.ecdsa_sign_digest ShortHash.post ShortHash.cJSON_Parse
        (ascii "http://host/") PostedCall.account 10 1000000 (ascii "1000000000000") (ascii "1000000000000")
        PostedCall.recipient (Vector.replicate 32 0).toList (Vector.replicate 65 0)) :=
  sendTokenTransferAction_sealed paddedHash PostedCall.ecdsa_sign_digest ShortHash.post ShortHash.cJSON_Parse
    (ascii "http://host/") PostedCall.account 10 1000000 (Vector.replicate 32 0) (Vector.replicate 65 0)
    PostedCall.price PostedCall.price PostedCall.target

/-- A call of a function without arguments has four bytes, for which there is no room. -/
theorem bareSelector_not_sealed :
    PostsSealed (ascii "http://host/")
        (signedBy paddedHash PostedCall.ecdsa_sign_digest PostedCall.account (Vector.replicate 65 0)
          (askedExecution 10 1000000 (ascii "1000000000000") (ascii "1000000000000") PostedCall.recipient
            [0xa9, 0x05, 0x9c, 0xbb]))
        (Account.sendExecutionAction paddedHash PostedCall.ecdsa_sign_digest ShortHash.post ShortHash.cJSON_Parse
          (ascii "http://host/") PostedCall.account 10 1000000 (ascii "1000000000000") (ascii "1000000000000")
          PostedCall.recipient ⟨ascii "a9059cbb", by decide⟩ (Vector.replicate 32 0).toList (Vector.replicate 65 0)) ↔
      [(0xa9 : UInt8), 0x05, 0x9c, 0xbb].length = 3 ∨ 5 ≤ [(0xa9 : UInt8), 0x05, 0x9c, 0xbb].length :=
  sendExecutionAction_sealed_iff paddedHash PostedCall.ecdsa_sign_digest ShortHash.post ShortHash.cJSON_Parse
    (ascii "http://host/") PostedCall.account 10 1000000 (Vector.replicate 32 0) (Vector.replicate 65 0)
    PostedCall.price PostedCall.price PostedCall.target (by decide) (by decide)

end Iotex
