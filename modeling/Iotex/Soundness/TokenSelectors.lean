import Iotex.Proofs.KeccakEvaluation
import Iotex.Soundness.Digests
import Iotex.Soundness.Xrc20Calls

/-! # The selectors of the token calls

The selectors that the hand-written token calls store are the first bytes of what `keccak_256` itself
computes from the three signatures, so with the repository's own hash the calls agree with the generic
encoder.
-/

namespace Iotex

open Spec

/-- The selector of a signature of less than a block, from the numbers of the first lane. -/
theorem selector_eq_firstBytes {signature : Bytes} (short : signature.length < 136) :
    selector repositoryKeccak signature = Evaluation.firstBytes 136 0x01 signature :=
  (Evaluation.firstBytes_eq short (by decide)).symm

theorem repositoryKeccak_hasTokenSelectors : HasTokenSelectors repositoryKeccak where
  totalSupply := by
    rw [selector_eq_firstBytes (by decide)]
    decide +kernel
  balanceOf := by
    rw [selector_eq_firstBytes (by decide)]
    decide +kernel
  transfer := by
    rw [selector_eq_firstBytes (by decide)]
    decide +kernel

/-- With the hash of the repository the hand-written calls agree with the generic encoder, for every
address, amount and contract with the three functions. -/
theorem tokenCalls_agree_hashed {contract : Contract} (functions : HasTokenFunctions contract)
    {params ownerParams transferParams : ParameterValuesDictionary} {ownerPointer recipientPointer : UInt64}
    {address recipient : Vector UInt8 20} {value : UInt64}
    (owner : ownerParams.getParameter? (ascii "_owner") = some (makeParamAddress ownerPointer address))
    (sentTo : transferParams.getParameter? (ascii "_to") = some (makeParamAddress recipientPointer recipient))
    (amount : transferParams.getParameter? (ascii "_value") = some (makeParamUint value)) (out : Cells) :
    CallsAgree 4 Xrc20Contract.generateCallDataForTotalSupply
        (contract.generateCallData repositoryKeccak (ascii "totalSupply") params out) ∧
      CallsAgree 36 (Xrc20Contract.generateCallDataForBalanceOf address)
        (contract.generateCallData repositoryKeccak (ascii "balanceOf") ownerParams out) ∧
      CallsAgree 68 (Xrc20Contract.generateCallDataForTransfer recipient value)
        (contract.generateCallData repositoryKeccak (ascii "transfer") transferParams out) :=
  ⟨totalSupply_agrees functions repositoryKeccak_hasTokenSelectors params out,
    balanceOf_agrees functions repositoryKeccak_hasTokenSelectors out owner,
    transfer_agrees functions repositoryKeccak_hasTokenSelectors out sentTo amount⟩

/-- The contract with the three functions alone. -/
theorem tokenContract_agrees_hashed :
    CallsAgree 4 Xrc20Contract.generateCallDataForTotalSupply
        (tokenContract.generateCallData repositoryKeccak (ascii "totalSupply") .empty []) ∧
      CallsAgree 36 (Xrc20Contract.generateCallDataForBalanceOf (Vector.replicate 20 0xfd))
        (tokenContract.generateCallData repositoryKeccak (ascii "balanceOf")
          (ParameterValuesDictionary.empty.addParameter (ascii "_owner")
            (makeParamAddress 0x1000 (Vector.replicate 20 0xfd))) []) ∧
      CallsAgree 68 (Xrc20Contract.generateCallDataForTransfer (Vector.replicate 20 0xfd) 1000)
        (tokenContract.generateCallData repositoryKeccak (ascii "transfer")
          ((ParameterValuesDictionary.empty.addParameter (ascii "_to")
            (makeParamAddress 0x1000 (Vector.replicate 20 0xfd))).addParameter (ascii "_value") (makeParamUint 1000)) []) :=
  tokenCalls_agree_hashed
    ⟨⟨_, rfl, rfl⟩, ⟨_, _, rfl, rfl, rfl, rfl⟩, ⟨_, _, _, rfl, rfl, rfl, rfl, rfl, rfl, rfl⟩⟩ rfl rfl rfl []

end Iotex
