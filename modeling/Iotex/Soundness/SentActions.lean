import Iotex.Proofs.RequestBodies
import Iotex.Soundness.SignedBytes

/-! # Signed and sent actions

The action core in a request body against the one in the signed bytes. They are the same for every
execution; for a transfer they are the same exactly when its chain ID is zero, because the body
names the chain ID and the signed message has no field for it.
-/

namespace Iotex

open Spec

/-! ## Transfers -/

/-- The body of a request describes the transfer that is signed. -/
def DescribesSigned (transfer : ActionCoreTransfer) (result : Exec RpcCallData) : Prop :=
  ∃ callData hashed core, result = .ok callData ∧ describedCore? callData.body = some core ∧
    Account.hashedTransfer transfer = .ok hashed ∧ ActionCore.decode? hashed = some core

theorem formatD_length (value : UInt32) : (formatD value).length ≤ 11 := by
  have bound := value.toNat_lt
  rw [formatD]
  split_ifs
  · have := decimal_length_le value.toNat (show 1 ≤ 10 by omega) (by omega)
    omega
  · have := decimal_length_le (2 ^ 32 - value.toNat) (show 1 ≤ 10 by omega) (by omega)
    rw [List.length_cons]
    omega

private theorem decimal_length_uint64 (value : UInt64) : (decimal value.toNat).length ≤ 20 :=
  decimal_length_le _ (by omega) (lt_trans value.toNat_lt (by norm_num))

private theorem base64_length (bytes : Vector UInt8 65) : (Base64.encode bytes.toList).length = 88 := by
  rw [Base64.encode_length, Vector.length_toList]
  rfl

set_option maxRecDepth 4000 in
/-- The array of the body has room for every transfer. -/
theorem transferBody_fits (transfer : ActionCoreTransfer) (senderPubKey signature : Vector UInt8 65) :
    (Rpc.transferPieces transfer (Base64.encode senderPubKey.toList)
      (Base64.encode signature.toList)).flatten.length < 1024 := by
  have version := formatD_length transfer.version
  have chainId := formatD_length transfer.chainId
  have nonce := decimal_length_uint64 transfer.nonce
  have gasLimit := decimal_length_uint64 transfer.gasLimit
  have gasPrice := transfer.gasPrice.fits
  have amount := transfer.transfer.amount.fits
  have recipient := transfer.transfer.recipient.fits
  simp [Rpc.transferPieces, ascii, base64_length]
  omega

/-- The request of a transfer. -/
def transferCallData (host : Bytes) (transfer : ActionCoreTransfer) (senderPubKey signature : Vector UInt8 65) :
    RpcCallData where
  url := host ++ ascii "SendAction"
  body := (Rpc.transferPieces transfer (Base64.encode senderPubKey.toList) (Base64.encode signature.toList)).flatten

theorem sendTokenTransfer_eq (host : Bytes) (transfer : ActionCoreTransfer) (senderPubKey signature : Vector UInt8 65) :
    Rpc.sendTokenTransfer host transfer senderPubKey signature =
      .ok (transferCallData host transfer senderPubKey signature) := by
  have fits := transferBody_fits transfer senderPubKey signature
  have room (bytes : Vector UInt8 65) : 4 * blocks 3 bytes.toList.length < 65 * 2 := by
    rw [Vector.length_toList]
    decide
  rw [Rpc.sendTokenTransfer, base64Encode_eq (room signature), ok_bind, base64Encode_eq (room senderPubKey), ok_bind,
    sprintf_pieces (by rw [List.length_nil, Nat.zero_add]; exact fits), ok_bind, List.nil_append, pure_eq_ok,
    transferCallData]

/-- The chain ID that the body names; it is printed as a signed number, so a large one is negative. -/
def namedChain (chainId : UInt32) : Option ℕ := if chainId.toNat < 2 ^ 31 then some chainId.toNat else none

private theorem reads_chainId (chainId : UInt32) :
    ∃ json, Json.Reads (formatD chainId) json ∧ json ≠ .null ∧ uintOf? 32 json = namedChain chainId := by
  have bound := chainId.toNat_lt
  rw [namedChain]
  split_ifs with small
  · rw [formatD_of_lt small]
    exact ⟨_, Json.Reads.decimal chainId.toNat, nofun, uintOf?_num bound⟩
  · rw [formatD, if_neg small]
    exact ⟨_, Json.Reads.negative (2 ^ 32 - chainId.toNat), nofun, uintOf?_negative (by omega)⟩

/-- What the body describes, and what the hashed bytes decode to. -/
private theorem transfer_cores (host : Bytes) {transfer : ActionCoreTransfer} (senderPubKey signature : Vector UInt8 65)
    (small : transfer.version.toNat < 2 ^ 31) (gasPrice : Json.PlainText transfer.gasPrice.text)
    (amount : Json.PlainText transfer.transfer.amount.text)
    (recipient : Json.PlainText transfer.transfer.recipient.text) :
    ∃ callData hashed, Rpc.sendTokenTransfer host transfer senderPubKey signature = .ok callData ∧
      describedCore? callData.body =
        ((namedChain transfer.chainId).map fun value => { transfer.message with chainID := value }) ∧
      Account.hashedTransfer transfer = .ok hashed ∧ ActionCore.decode? hashed = some transfer.message := by
  obtain ⟨json, reads, present, named⟩ := reads_chainId transfer.chainId
  have body := reads_transferBody transfer small reads gasPrice amount recipient (plain_base64 senderPubKey.toList)
    (plain_base64 signature.toList)
  refine ⟨_, _, sendTokenTransfer_eq host transfer senderPubKey signature, ?_, (hashedTransfer_eq transfer).2,
    decode?_transfer transfer⟩
  dsimp only [transferCallData]
  rw [describedCore?_request (Json.parse_of_reads body), coreOf?_transfer transfer json present, named]

/-- A request that describes the signed transfer names the chain zero. -/
private theorem namedChain_of_describesSigned {transfer : ActionCoreTransfer} {callData : RpcCallData} {hashed : Bytes}
    (described : describedCore? callData.body =
      ((namedChain transfer.chainId).map fun value => { transfer.message with chainID := value }))
    (written : Account.hashedTransfer transfer = .ok hashed)
    (decoded : ActionCore.decode? hashed = some transfer.message)
    (agrees : DescribesSigned transfer (.ok callData)) : transfer.chainId = 0 := by
  obtain ⟨other, otherHashed, core, same, describes, hashes, decodes⟩ := agrees
  rw [Except.ok.injEq] at same
  rw [written, Except.ok.injEq] at hashes
  rw [← hashes, decoded, Option.some.injEq] at decodes
  rw [← same, described, Option.map_eq_some_iff] at describes
  obtain ⟨value, present, describes⟩ := describes
  have zero : value = 0 := congrArg ActionCore.chainID (describes.trans decodes.symm)
  rw [namedChain] at present
  split_ifs at present
  exact UInt32.toNat_inj.mp ((Option.some.inj present).trans zero)

/-- The body describes the signed transfer exactly when its chain ID is zero. -/
theorem sendTokenTransfer_describesSigned_iff (host : Bytes) {transfer : ActionCoreTransfer}
    (senderPubKey signature : Vector UInt8 65) (small : transfer.version.toNat < 2 ^ 31)
    (gasPrice : Json.PlainText transfer.gasPrice.text) (amount : Json.PlainText transfer.transfer.amount.text)
    (recipient : Json.PlainText transfer.transfer.recipient.text) :
    DescribesSigned transfer (Rpc.sendTokenTransfer host transfer senderPubKey signature) ↔ transfer.chainId = 0 := by
  obtain ⟨callData, hashed, sent, described, written, decoded⟩ :=
    transfer_cores host senderPubKey signature small gasPrice amount recipient
  rw [sent]
  constructor
  · exact namedChain_of_describesSigned described written decoded
  · intro zero
    refine ⟨callData, hashed, transfer.message, rfl, ?_, written, decoded⟩
    rw [described, zero]
    rfl

namespace ChainTransfer

/-- A transfer of one unit on a given chain. -/
def transfer (chainId : UInt32) : ActionCoreTransfer := { Payment.transfer with chainId := chainId }

end ChainTransfer

theorem transfer_without_chain_describesSigned :
    (ChainTransfer.transfer 0).version.toNat < 2 ^ 31 ∧
      DescribesSigned (ChainTransfer.transfer 0)
        (Rpc.sendTokenTransfer (ascii "http://host/") (ChainTransfer.transfer 0) (Vector.replicate 65 0)
          (Vector.replicate 65 0)) :=
  ⟨by decide, (@sendTokenTransfer_describesSigned_iff (ascii "http://host/") (ChainTransfer.transfer 0)
    (Vector.replicate 65 0) (Vector.replicate 65 0) (by decide) (by decide) (by decide) (by decide)).mpr rfl⟩

/-- On chain one the body names a chain that the signature does not cover. -/
theorem transfer_on_chain_not_signed :
    ∃ callData hashed, Rpc.sendTokenTransfer (ascii "http://host/") (ChainTransfer.transfer 1) (Vector.replicate 65 0)
        (Vector.replicate 65 0) = .ok callData ∧
      describedCore? callData.body = some { (ChainTransfer.transfer 1).message with chainID := 1 } ∧
      Account.hashedTransfer (ChainTransfer.transfer 1) = .ok hashed ∧
      ActionCore.decode? hashed = some (ChainTransfer.transfer 1).message ∧
      ¬DescribesSigned (ChainTransfer.transfer 1) (.ok callData) := by
  obtain ⟨callData, hashed, sent, described, written, decoded⟩ := @transfer_cores (ascii "http://host/")
    (ChainTransfer.transfer 1) (Vector.replicate 65 0) (Vector.replicate 65 0) (by decide) (by decide)
    (by decide) (by decide)
  refine ⟨callData, hashed, sent, described, written, decoded, ?_⟩
  intro agrees
  exact absurd (namedChain_of_describesSigned described written decoded agrees) (by decide)

/-! ## Executions -/

/-- Arrays that have room for the data of an execution, its text and the body. -/
def Rpc.ExecutionArrays.LargeEnough (arrays : Rpc.ExecutionArrays) (execution : Execution) : Prop :=
  (execution.data.text.length + 1) / 2 ≤ arrays.data ∧
    4 * blocks 3 (execution.data.text.length / 2) < arrays.base64Data ∧
    1024 + 4 * blocks 3 (execution.data.text.length / 2) ≤ arrays.body

set_option maxRecDepth 4000 in
/-- The body without the data leaves some of the 1024 characters unused. -/
theorem executionBody_length (execution : ActionCoreExecution) (data : Bytes)
    (senderPubKey signature : Vector UInt8 65) :
    (Rpc.executionPieces execution (Base64.encode data) (Base64.encode senderPubKey.toList)
      (Base64.encode signature.toList)).flatten.length < 1000 + 4 * blocks 3 data.length := by
  have version := formatD_length execution.version
  have nonce := decimal_length_uint64 execution.nonce
  have gasLimit := decimal_length_uint64 execution.gasLimit
  have gasPrice := execution.gasPrice.fits
  have amount := execution.execution.amount.fits
  have contract := execution.execution.contract.fits
  have text := Base64.encode_length data
  simp [Rpc.executionPieces, ascii, base64_length]
  omega

/-- The request of an execution. -/
def executionCallData (host : Bytes) (execution : ActionCoreExecution) (senderPubKey signature : Vector UInt8 65) :
    RpcCallData where
  url := host ++ ascii "SendAction"
  body := (Rpc.executionPieces execution (Base64.encode execution.execution.bytes)
    (Base64.encode senderPubKey.toList) (Base64.encode signature.toList)).flatten

/-- The request is put together when the conversion of the data and its text stay inside. -/
theorem sendExecution_of_inside {arrays : Rpc.ExecutionArrays} (host : Bytes) (execution : ActionCoreExecution)
    (senderPubKey signature : Vector UInt8 65) (data : execution.execution.data.text.length / 2 ≤ arrays.data)
    (inside : (Signer.str2hex execution.execution.data.text (execution.execution.data.text.length / 2)).2.length ≤
      arrays.data)
    (text : 4 * blocks 3 (execution.execution.data.text.length / 2) < arrays.base64Data)
    (body : 1000 + 4 * blocks 3 (execution.execution.data.text.length / 2) ≤ arrays.body) :
    Rpc.sendExecution arrays host execution senderPubKey signature =
      .ok (executionCallData host execution senderPubKey signature) := by
  obtain ⟨array, converted, length, taken⟩ := overwrite_bytes_of_le execution.execution inside
  have count := execution.execution.bytes_length
  have fits := executionBody_length execution execution.execution.bytes senderPubKey signature
  have room (bytes : Vector UInt8 65) : 4 * blocks 3 bytes.toList.length < 65 * 2 := by
    rw [Vector.length_toList]
    decide
  rw [count] at fits
  rw [Rpc.sendExecution, base64Encode_eq (room signature), ok_bind, base64Encode_eq (room senderPubKey), ok_bind,
    converted, ok_bind, readFirst_of_le (by omega), ok_bind, taken data,
    base64Encode_eq (by rw [count]; exact text), ok_bind,
    sprintf_pieces (by rw [List.length_nil, Nat.zero_add]; omega), ok_bind, List.nil_append, pure_eq_ok,
    executionCallData]

theorem sendExecution_eq {arrays : Rpc.ExecutionArrays} (host : Bytes) (execution : ActionCoreExecution)
    (senderPubKey signature : Vector UInt8 65) (enough : arrays.LargeEnough execution.execution) :
    Rpc.sendExecution arrays host execution senderPubKey signature =
      .ok (executionCallData host execution senderPubKey signature) := by
  obtain ⟨data, text, body⟩ := enough
  have written := Signer.str2hex_length execution.execution.data.text (execution.execution.data.text.length / 2)
  exact sendExecution_of_inside host execution senderPubKey signature (by omega) (by omega) text (by omega)

/-- A request that was put together, in arrays of any sizes, had room for the converted data and its text. -/
theorem sendExecution_returned {arrays : Rpc.ExecutionArrays} {host : Bytes} {execution : ActionCoreExecution}
    {senderPubKey signature : Vector UInt8 65} {callData : RpcCallData}
    (sent : Rpc.sendExecution arrays host execution senderPubKey signature = .ok callData) :
    callData = executionCallData host execution senderPubKey signature ∧
      (Signer.str2hex execution.execution.data.text (execution.execution.data.text.length / 2)).2.length ≤ arrays.data ∧
      4 * blocks 3 (execution.execution.data.text.length / 2) < arrays.base64Data := by
  obtain ⟨_, signed, sent⟩ := bind_eq_ok.mp sent
  obtain ⟨_, key, sent⟩ := bind_eq_ok.mp sent
  obtain ⟨array, converted, sent⟩ := bind_eq_ok.mp sent
  obtain ⟨data, read, sent⟩ := bind_eq_ok.mp sent
  obtain ⟨_, encoded, sent⟩ := bind_eq_ok.mp sent
  obtain ⟨body, printed, sent⟩ := bind_eq_ok.mp sent
  obtain rfl := Except.ok.inj sent
  have written : (Signer.str2hex execution.execution.data.text (execution.execution.data.text.length / 2)).2.length ≤
      arrays.data := by
    rw [Encoder.overwrite, List.length_replicate] at converted
    split_ifs at converted with inside
    exact inside
  obtain ⟨other, same, length, taken⟩ := overwrite_bytes_of_le execution.execution written
  obtain rfl := Except.ok.inj (same.symm.trans converted)
  obtain ⟨enough, rfl⟩ := readFirst_eq_ok.mp read
  rw [taken (length ▸ enough)] at encoded
  refine ⟨?_, written, ?_⟩
  · have text := sprintf_printed printed
    rw [List.nil_append] at text
    rw [executionCallData, ← base64Encode_ok encoded, ← base64Encode_ok key, ← base64Encode_ok signed, text]
  · rw [Encoder.base64Encode, Base64Library.bintob64_eq, Base64.encode_length, execution.execution.bytes_length] at encoded
    split_ifs at encoded with room
    exact room

/-- The body describes the execution whose encoding is written. -/
theorem sendExecution_describesEncoded (arrays : Rpc.ExecutionArrays) (host : Bytes) {execution : ActionCoreExecution}
    (senderPubKey signature : Vector UInt8 65) {maxOutSize : ℕ}
    (fits : (execution.message execution.execution.bytes).size ≤ maxOutSize)
    (enough : arrays.LargeEnough execution.execution) (small : execution.version.toNat < 2 ^ 31)
    (gasPrice : Json.PlainText execution.gasPrice.text) (amount : Json.PlainText execution.execution.amount.text)
    (contract : Json.PlainText execution.execution.contract.text) :
    ∃ callData core result written, Rpc.sendExecution arrays host execution senderPubKey signature = .ok callData ∧
      describedCore? callData.body = some core ∧
      Encoder.protobufEncodeExecution execution maxOutSize = .ok result ∧ Encoder.Writes maxOutSize result written ∧
      ActionCore.decode? written = some core ∧ core = execution.message execution.execution.bytes := by
  have body := reads_executionBody execution small gasPrice amount contract (plain_base64 execution.execution.bytes)
    (plain_base64 senderPubKey.toList) (plain_base64 signature.toList)
  obtain ⟨result, encoded, writes⟩ := protobufEncodeExecution_writes_all execution fits
  refine ⟨_, _, result, _, sendExecution_eq host execution senderPubKey signature enough, ?_, encoded, writes,
    (decode?_execution execution (bytes_addressable execution.execution)).1, rfl⟩
  dsimp only [executionCallData]
  rw [describedCore?_request (Json.parse_of_reads body), coreOf?_execution]

namespace OddCall

/-- A call whose data string is neither of even length nor hexadecimal throughout. -/
def execution : ActionCoreExecution :=
  let call := LongCall.execution 48 0
  { call with execution := { call.execution with data := ⟨ascii "0xa9?9c", by decide⟩ } }

def arrays : Rpc.ExecutionArrays where
  data := 8
  base64Data := 8
  body := 1040

end OddCall

theorem oddCall_describesEncoded :
    OddCall.arrays.LargeEnough OddCall.execution.execution ∧
      ∃ callData core result written, Rpc.sendExecution OddCall.arrays (ascii "http://host/") OddCall.execution
          (Vector.replicate 65 0) (Vector.replicate 65 0) = .ok callData ∧
        describedCore? callData.body = some core ∧
        Encoder.protobufEncodeExecution OddCall.execution 1024 = .ok result ∧
        Encoder.Writes 1024 result written ∧ ActionCore.decode? written = some core ∧
        core = OddCall.execution.message OddCall.execution.execution.bytes := by
  have enough : OddCall.arrays.LargeEnough OddCall.execution.execution := by
    refine ⟨?_, ?_, ?_⟩ <;> decide
  exact ⟨enough, sendExecution_describesEncoded OddCall.arrays (ascii "http://host/") (Vector.replicate 65 0)
    (Vector.replicate 65 0) (by decide) enough (by decide) (by decide) (by decide) (by decide)⟩

end Iotex
