import Iotex.Soundness.SentActions

/-! # Sending actions that could not be signed

The calls that sign and send an action drop the result of every signing step and post the request
in any case. They report a failed step exactly when no step can fail: the digest is signed, and for
an execution the data is hexadecimal and the message fits the array of 1024 bytes.
-/

namespace Iotex

open Nanopb Spec

/-- The call returns an error and has posted nothing. -/
def Reported (result : Exec Sent) : Prop := ∃ sent, result = .ok sent ∧ sent.ret ≠ .success ∧ sent.posts = []

section

variable (keccak_256 : Keccak) (ecdsa_sign_digest : EcdsaSignDigest) (account : Account) (signature : Vector UInt8 65)

/-- A step of signing a transfer fails: the encoder or the signature of the digest. -/
def TransferSigningFails (core : ActionCoreTransfer) : Prop :=
  (pbEncode (Encoder.transferCore core).fields (pbOstreamFromBuffer 1024)).1 = false ∨
    ∃ hashed, Account.hashedTransfer core = .ok hashed ∧
      (ecdsa_sign_digest account.privateKey (keccak_256 hashed) signature).1 ≠ 0

/-- The digest of the transfer's message is signed. -/
def TransferSigns (core : ActionCoreTransfer) : Prop :=
  (ecdsa_sign_digest account.privateKey (keccak_256 (Wire.writeFields core.message.allFields)) signature).1 = 0

/-- A step of signing an execution fails: the encoder, the data string or the signature of the digest. -/
def ExecutionSigningFails (core : ActionCoreExecution) : Prop :=
  (∃ data, Encoder.executionData core.execution = .ok data ∧
      (pbEncode (Encoder.executionCore core data).fields (pbOstreamFromBuffer 1024)).1 = false) ∨
    (Signer.str2hex core.execution.data.text (core.execution.data.text.length / 2)).1 ≠ .success ∨
    ∃ hashed, Account.hashedExecution core = .ok hashed ∧
      (ecdsa_sign_digest account.privateKey (keccak_256 hashed) signature).1 ≠ 0

/-- The message fits, the data string is converted, and the digest of the message is signed. -/
def ExecutionSigns (core : ActionCoreExecution) : Prop :=
  (core.message core.execution.bytes).size ≤ 1024 ∧
    (Signer.str2hex core.execution.data.text (core.execution.data.text.length / 2)).1 = .success ∧
    (ecdsa_sign_digest account.privateKey (keccak_256 (Wire.writeFields (core.message core.execution.bytes).allFields))
      signature).1 = 0

theorem transferSigningFails_iff (core : ActionCoreTransfer) :
    TransferSigningFails keccak_256 ecdsa_sign_digest account signature core ↔
      ¬TransferSigns keccak_256 ecdsa_sign_digest account signature core := by
  obtain ⟨fits, hashed⟩ := hashedTransfer_eq core
  obtain ⟨action, bounded, -⟩ := transfer_bounded core
  have cut := cutOff_length bounded core.gasPrice.fits
  rw [TransferSigningFails, TransferSigns, transfer_encoded core (by omega), if_pos fits, hashed]
  simp

theorem executionSigningFails_iff (core : ActionCoreExecution) :
    ExecutionSigningFails keccak_256 ecdsa_sign_digest account signature core ↔
      ¬ExecutionSigns keccak_256 ecdsa_sign_digest account signature core := by
  obtain ⟨array, converted, inside, taken⟩ := executionData_eq core.execution
  obtain ⟨action, bounded, -, -⟩ := execution_bounded core (bytes_addressable core.execution)
  have cut := cutOff_length bounded core.gasPrice.fits
  have hashed := hashedExecution_eq core
  have head : (core.message core.execution.bytes).cutOff.length ≤ 1024 := by omega
  have encoded := execution_encoded core inside taken head
  rw [ExecutionSigningFails, ExecutionSigns, converted, hashed]
  by_cases fits : (core.message core.execution.bytes).size ≤ 1024
  · rw [if_pos fits] at encoded
    simp only [Except.ok.injEq, exists_eq_left', encoded, fits, ↓reduceIte, Bool.true_eq_false, false_or, true_and,
      not_and_or, ne_eq]
  · rw [if_neg fits] at encoded
    simp only [Except.ok.injEq, exists_eq_left', encoded, fits, false_and, not_false_eq_true, true_or]

variable (post : HttpPost) (cJSON_Parse : CJsonParse) (host : Bytes) (hash : Bytes)

/-- Whatever the response is, the request was posted. -/
theorem sendAction_posts {callData : RpcCallData} {sent : Sent}
    (returned : Wallets.sendAction post cJSON_Parse callData hash = .ok sent) : sent.posts = [callData] := by
  rw [Wallets.sendAction] at returned
  generalize post (cString callData.url) (cString callData.body) = reply at returned
  obtain ⟨ret, rspBody⟩ := reply
  dsimp only at returned
  split_ifs at returned
  · obtain rfl := Except.ok.inj returned
    rfl
  · obtain ⟨⟨parsed, response⟩, -, returned⟩ := bind_eq_ok.mp returned
    dsimp only at returned
    split_ifs at returned
    · obtain rfl := Except.ok.inj returned
      rfl
    · obtain ⟨responseHash, -, returned⟩ := bind_eq_ok.mp returned
      obtain ⟨written, -, same⟩ := bind_eq_ok.mp returned
      obtain rfl := Except.ok.inj same
      rfl

private theorem not_reported_of_posts {result : Exec Sent} (posts : ∀ sent, result = .ok sent → sent.posts ≠ []) :
    ¬Reported result := by
  rintro ⟨sent, returned, -, none⟩
  exact posts sent returned none

variable (nonce gasLimit : UInt64) (gasPrice amount recipient : Bytes) (data : IotexString)

/-- A call that returns has posted a transfer. -/
theorem sendTokenTransferAction_posts : ¬Reported (Account.sendTokenTransferAction keccak_256 ecdsa_sign_digest post
    cJSON_Parse host account nonce gasLimit gasPrice amount recipient hash signature) := by
  apply not_reported_of_posts
  intro sent returned
  rw [Account.sendTokenTransferAction] at returned
  obtain ⟨core, -, returned⟩ := bind_eq_ok.mp returned
  obtain ⟨signed, -, returned⟩ := bind_eq_ok.mp returned
  obtain ⟨callData, -, returned⟩ := bind_eq_ok.mp returned
  rw [sendAction_posts _ _ _ returned]
  simp

/-- A call that returns has posted an execution. -/
theorem sendExecutionAction_posts : ¬Reported (Account.sendExecutionAction keccak_256 ecdsa_sign_digest post
    cJSON_Parse host account nonce gasLimit gasPrice amount recipient data hash signature) := by
  apply not_reported_of_posts
  intro sent returned
  rw [Account.sendExecutionAction] at returned
  obtain ⟨core, -, returned⟩ := bind_eq_ok.mp returned
  obtain ⟨⟨signed, digest⟩, -, returned⟩ := bind_eq_ok.mp returned
  obtain ⟨callData, -, returned⟩ := bind_eq_ok.mp returned
  rw [sendAction_posts _ _ _ returned]
  simp

/-- A failed signing step is reported exactly when no signing step can fail. -/
theorem sendActions_report_iff :
    (((∃ core, Account.transferCore nonce gasLimit gasPrice amount recipient = .ok core ∧
          TransferSigningFails keccak_256 ecdsa_sign_digest account signature core) →
        Reported (Account.sendTokenTransferAction keccak_256 ecdsa_sign_digest post cJSON_Parse host account
          nonce gasLimit gasPrice amount recipient hash signature)) ↔
      ∀ core, Account.transferCore nonce gasLimit gasPrice amount recipient = .ok core →
        TransferSigns keccak_256 ecdsa_sign_digest account signature core) ∧
    (((∃ core, Account.executionCore nonce gasLimit gasPrice amount recipient data = .ok core ∧
          ExecutionSigningFails keccak_256 ecdsa_sign_digest account signature core) →
        Reported (Account.sendExecutionAction keccak_256 ecdsa_sign_digest post cJSON_Parse host account
          nonce gasLimit gasPrice amount recipient data hash signature)) ↔
      ∀ core, Account.executionCore nonce gasLimit gasPrice amount recipient data = .ok core →
        ExecutionSigns keccak_256 ecdsa_sign_digest account signature core) := by
  constructor
  · rw [imp_iff_not (sendTokenTransferAction_posts keccak_256 ecdsa_sign_digest account signature post cJSON_Parse
      host hash nonce gasLimit gasPrice amount recipient)]
    simp only [transferSigningFails_iff, not_exists, not_and, not_not]
  · rw [imp_iff_not (sendExecutionAction_posts keccak_256 ecdsa_sign_digest account signature post cJSON_Parse
      host hash nonce gasLimit gasPrice amount recipient data)]
    simp only [executionSigningFails_iff, not_exists, not_and, not_not]

end

namespace FailedSignature

/-- A signature primitive that fails and leaves the array as it was. -/
def ecdsa_sign_digest : EcdsaSignDigest := fun _ _ signature => (1, signature)

def rspBody : Bytes := ascii "\x7b\"actionHash\": \"ab\"\x7d"

/-- A node that accepts every request. -/
def post : HttpPost := fun _ _ => (.success, rspBody)

def cJSON_Parse : CJsonParse := fun text =>
  if text = rspBody then some (.obj [(ascii "actionHash", .str (ascii "ab"))]) else none

def account : Account := ⟨Vector.replicate 65 0, Vector.replicate 32 0⟩

/-- A payment of one unit with these parts. -/
def call : Exec Sent :=
  Account.sendTokenTransferAction (fun _ => Vector.replicate 32 0) ecdsa_sign_digest post cJSON_Parse
    (ascii "http://host/") account 10 1000000 (ascii "1") (ascii "1")
    (ascii "io1w9kv3v2zg9gsmmv2fy6hc5ws3hsn7j7c9dcl4q") (List.replicate 32 0) (Vector.replicate 65 0)

end FailedSignature

/-- The digest is not signed, and the transfer is posted and the call succeeds. -/
theorem failedSignature_posted :
    TransferSigningFails (fun _ => Vector.replicate 32 0) FailedSignature.ecdsa_sign_digest FailedSignature.account
        (Vector.replicate 65 0) (ChainTransfer.transfer 0) ∧
      Account.transferCore 10 1000000 (ascii "1") (ascii "1") (ascii "io1w9kv3v2zg9gsmmv2fy6hc5ws3hsn7j7c9dcl4q") =
        .ok (ChainTransfer.transfer 0) ∧
      (∃ sent, FailedSignature.call = .ok sent ∧ sent.ret = .success ∧ sent.posts.length = 1) ∧
      ¬Reported FailedSignature.call := by
  have filled : Account.transferCore 10 1000000 (ascii "1") (ascii "1")
      (ascii "io1w9kv3v2zg9gsmmv2fy6hc5ws3hsn7j7c9dcl4q") = .ok (ChainTransfer.transfer 0) := rfl
  refine ⟨(transferSigningFails_iff _ _ _ _ _).mpr (by simp [TransferSigns, FailedSignature.ecdsa_sign_digest]), filled,
    ?_, sendTokenTransferAction_posts _ _ _ _ _ _ _ _ _ _ _ _ _⟩
  have called : ∃ callData, FailedSignature.call = .ok ⟨.success, 0xab :: List.replicate 31 0, [callData]⟩ := by
    rw [FailedSignature.call, Account.sendTokenTransferAction, filled, ok_bind, Account.signTokenTransferAction,
      (hashedTransfer_eq _).2, ok_bind, pure_eq_ok, ok_bind, Wallets.sendTokenTransfer, sendTokenTransfer_eq, ok_bind]
    exact ⟨_, rfl⟩
  obtain ⟨callData, called⟩ := called
  exact ⟨_, called, rfl, rfl⟩

end Iotex
