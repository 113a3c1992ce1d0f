import Iotex.Soundness.PostedActions
import Iotex.Soundness.TokenSelectors

/-! # A token transfer from the contract to the node

The text that the encoder makes of a token transfer is handed to the account as the data of an
execution. What the node reads in the request are the bytes of the call, and the signature beside them
covers them: no step on the way, from the hash of the function's signature to the base64 text, changes
the call.
-/

namespace Iotex

open Spec

/-- The bytes of a token transfer: the selector, the recipient and the amount. -/
def tokenTransfer (recipient : Vector UInt8 20) (tokens : UInt64) : Bytes :=
  [0xa9, 0x05, 0x9c, 0xbb] ++ (List.replicate 12 0 ++ recipient.toList) ++ beBytes 32 tokens.toNat

theorem tokenTransfer_length (recipient : Vector UInt8 20) (tokens : UInt64) :
    (tokenTransfer recipient tokens).length = 68 := by
  simp [tokenTransfer]

/-- The generic encoder makes the digits of the bytes. -/
theorem transfer_text {contract : Contract} (functions : HasTokenFunctions contract)
    {params : ParameterValuesDictionary} {pointer : UInt64} {recipient : Vector UInt8 20} {tokens : UInt64}
    (sentTo : params.getParameter? (ascii "_to") = some (makeParamAddress pointer recipient))
    (amount : params.getParameter? (ascii "_value") = some (makeParamUint tokens)) (out : Cells) :
    contract.generateCallData repositoryKeccak (ascii "transfer") params out =
      .ok (.success, cells (hex (tokenTransfer recipient tokens))) := by
  obtain ⟨bytes, size, writes, encoded⟩ :=
    transfer_agrees functions repositoryKeccak_hasTokenSelectors out sentTo amount
  have written := (writes (uninitialized 68) (le_refl 68)).symm.trans (transfer_writes recipient tokens (le_refl 68))
  rw [Except.ok.injEq] at written
  rw [encoded, cells_inj (List.append_cancel_right written)]
  rfl

/-- An execution with the data of a call fits the array that is hashed. -/
theorem askedExecution_size {gasPrice amount contract called : Bytes} (nonce gasLimit : UInt64)
    (price : Argument 31 gasPrice) (value : Argument 31 amount) (target : Argument 42 contract)
    (short : called.length ≤ 800) :
    (askedExecution nonce gasLimit gasPrice amount contract called).size ≤ 1024 := by
  let core : ActionCoreExecution := {
    version := 1, gasLimit := gasLimit, nonce := nonce, gasPrice := ⟨gasPrice, price.noNul, price.fits⟩
    execution := {
      amount := ⟨amount, value.noNul, value.fits⟩, contract := ⟨contract, target.noNul, target.fits⟩, data := .empty } }
  obtain ⟨action, bounded, -⟩ := execution_bounded core (show called.length < 2 ^ 63 by omega)
  have body := (execution_body_length core called bounded.holds (by omega)).2
  have head := cutOff_length bounded price.fits
  have size := size_eq bounded
  have same : (askedExecution nonce gasLimit gasPrice amount contract called).size = (core.message called).size := rfl
  omega

/-- A token transfer by way of the generic encoder is posted, signed, with the bytes of the call. -/
theorem tokenTransfer_sealed (ecdsa_sign_digest : EcdsaSignDigest) (post : HttpPost) (cJSON_Parse : CJsonParse)
    (host : Bytes) (account : Account) (nonce gasLimit : UInt64) (hash : Vector UInt8 32) (signature : Vector UInt8 65)
    {gasPrice amount address : Bytes} (price : Argument 31 gasPrice) (value : Argument 31 amount)
    (target : Argument 42 address) {contract : Contract} (functions : HasTokenFunctions contract)
    {params : ParameterValuesDictionary} {pointer : UInt64} {recipient : Vector UInt8 20} {tokens : UInt64}
    (sentTo : params.getParameter? (ascii "_to") = some (makeParamAddress pointer recipient))
    (sent : params.getParameter? (ascii "_value") = some (makeParamUint tokens)) (out : Cells) :
    ∃ text : IotexString,
      contract.generateCallData repositoryKeccak (ascii "transfer") params out = .ok (.success, cells text.text) ∧
      PostsSealed host
        (signedBy repositoryKeccak ecdsa_sign_digest account signature
          (askedExecution nonce gasLimit gasPrice amount address (tokenTransfer recipient tokens)))
        (Account.sendExecutionAction repositoryKeccak ecdsa_sign_digest post cJSON_Parse host account nonce gasLimit
          gasPrice amount address text hash.toList signature) := by
  have length := tokenTransfer_length recipient tokens
  have digits := unhex?_hex (tokenTransfer recipient tokens)
  have addressable : (hex (tokenTransfer recipient tokens)).length < 2 ^ 63 := by
    rw [unhex?_length digits, length]
    decide
  refine ⟨⟨_, addressable⟩, transfer_text functions sentTo sent out, ?_⟩
  exact sendExecutionAction_sealed repositoryKeccak ecdsa_sign_digest post cJSON_Parse host account nonce gasLimit hash
    signature price value target digits (.inr (by omega))
    (askedExecution_size nonce gasLimit price value target (by omega))

theorem thousandTokens_sealed :
    ∃ text : IotexString,
      tokenContract.generateCallData repositoryKeccak (ascii "transfer")
          ((ParameterValuesDictionary.empty.addParameter (ascii "_to")
            (makeParamAddress 0x1000 (Vector.replicate 20 0xfd))).addParameter (ascii "_value") (makeParamUint 1000)) [] =
        .ok (.success, cells text.text) ∧
      PostsSealed (ascii "http://host/")
        (signedBy repositoryKeccak PostedCall.ecdsa_sign_digest PostedCall.account (Vector.replicate 65 0)
          (askedExecution 10 1000000 (ascii "1000000000000") (ascii "1000000000000") PostedCall.recipient
            (tokenTransfer (Vector.replicate 20 0xfd) 1000)))
        (Account.sendExecutionAction repositoryKeccak PostedCall.ecdsa_sign_digest ShortHash.post ShortHash.cJSON_Parse
          (ascii "http://host/") PostedCall.account 10 1000000 (ascii "1000000000000") (ascii "1000000000000")
          PostedCall.recipient text (Vector.replicate 32 0).toList (Vector.replicate 65 0)) :=
  tokenTransfer_sealed PostedCall.ecdsa_sign_digest ShortHash.post ShortHash.cJSON_Parse (ascii "http://host/")
    PostedCall.account 10 1000000 (Vector.replicate 32 0) (Vector.replicate 65 0) PostedCall.price PostedCall.price
    PostedCall.target
    ⟨⟨_, rfl, rfl⟩, ⟨_, _, rfl, rfl, rfl, rfl⟩, ⟨_, _, _, rfl, rfl, rfl, rfl, rfl, rfl, rfl⟩⟩ rfl rfl []

end Iotex
