import Iotex.Model.ActionResponses
import Iotex.Spec.Responses

/-! # What a response says about an action

When an object of the API holds what a response body gives: each of its fields equals the member it
stands for, numbers as numbers and numbers in decimal text as the numbers they denote. A transfer
also has a chain ID, which the body need not give.
-/

namespace Iotex.Spec

open Response

/-- The member is a number equal to the natural one. -/
def NumberIs (json : Option Json) (value : ℕ) : Prop :=
  ∃ mantissa exponent : ℤ, json = some (.num mantissa exponent) ∧
    mantissa * 10 ^ exponent.toNat = value * 10 ^ (-exponent).toNat

/-- The member is one or more decimal digits that denote the number. -/
def DecimalIs (json : Option Json) (value : ℕ) : Prop :=
  ∃ text, charsOf? json = some text ∧ text ≠ [] ∧ text.all isDigit = true ∧ decimalValue text = value

/-- What tells the description of transfers from that of executions: the contents of the core's
member, when a core gives a chain ID, and when it gives none. -/
structure ActionDescription (Chain Part : Type) where
  partOf? : Json → Option Part
  ChainIs : Json → Chain → Prop
  NoChain : Json → Prop

def transferDescription : ActionDescription UInt32 Response.Transfer where
  partOf? transfer := do
    let amount ← charArrayOf? 31 (transfer.get? (ascii "amount"))
    let recipient ← charArrayOf? 42 (transfer.get? (ascii "recipient"))
    let payload ← charsOf? (transfer.get? (ascii "payload"))
    some ⟨memoryOf amount, memoryOf recipient, payload⟩
  ChainIs core chain := ∀ value, core.get? (ascii "chainID") = some value → NumberIs (some value) chain.toNat
  NoChain core := core.get? (ascii "chainID") = none

def executionDescription : ActionDescription Unit Response.Execution where
  partOf? execution := do
    let amount ← charArrayOf? 31 (execution.get? (ascii "amount"))
    let contract ← charArrayOf? 42 (execution.get? (ascii "contract"))
    let data ← charsOf? (execution.get? (ascii "data"))
    some ⟨memoryOf amount, memoryOf contract, data⟩
  ChainIs _ _ := True
  NoChain _ := True

variable {Chain Part : Type}

/-- The object holds what the response gives: every member that it stands for is there, of the
right type and length, and equal to its field. -/
structure Describes (description : ActionDescription Chain Part) (json : ActionJson)
    (info : ActionInfo Chain Part) : Prop where
  senderPublicKey : (charArrayOf? 131 (json.action.get? (ascii "senderPubKey"))).map memoryOf =
    some info.action.senderPublicKey
  signature : (charArrayOf? 131 (json.action.get? (ascii "signature"))).map memoryOf = some info.action.signature
  version : NumberIs (json.core.get? (ascii "version")) info.action.core.version.toNat
  nonce : DecimalIs (json.core.get? (ascii "nonce")) info.action.core.nonce.toNat
  gasLimit : DecimalIs (json.core.get? (ascii "gasLimit")) info.action.core.gasLimit.toNat
  chainId : description.ChainIs json.core info.action.core.chainId
  gasPrice : (charArrayOf? 31 (json.core.get? (ascii "gasPrice"))).map memoryOf = some info.action.core.gasPrice
  part : description.partOf? json.part = some info.action.core.part
  actHash : (charArrayOf? 65 (json.entry.get? (ascii "actHash"))).map memoryOf = some info.actHash
  blkHash : (charArrayOf? 65 (json.entry.get? (ascii "blkHash"))).map memoryOf = some info.blkHash
  timestamp : (charArrayOf? 22 (json.entry.get? (ascii "timestamp"))).map memoryOf = some info.timestamp
  blkHeight : charsOf? (json.entry.get? (ascii "blkHeight")) = some info.blkHeight
  sender : (charArrayOf? 42 (json.entry.get? (ascii "sender"))).map memoryOf = some info.sender
  gasFee : (charArrayOf? 31 (json.entry.get? (ascii "gasFee"))).map memoryOf = some info.gasFee

/-! ## The members in the order in which they are read -/

/-- The members in front of the nonce are there, of the right type and length. -/
def OpeningGiven (json : ActionJson) : Prop :=
  (charArrayOf? 131 (json.action.get? (ascii "senderPubKey"))).isSome ∧
    (charArrayOf? 131 (json.action.get? (ascii "signature"))).isSome ∧
    ∃ mantissa exponent, json.core.get? (ascii "version") = some (.num mantissa exponent)

/-- The values behind the gas limit. -/
structure ClosingValues (Part : Type) where
  gasPrice : CharArray 31
  part : Part
  actHash : CharArray 65
  blkHash : CharArray 65
  timestamp : CharArray 22
  blkHeight : Bytes
  sender : CharArray 42
  gasFee : CharArray 31

/-- The members behind the gas limit. -/
def closingOf? (partOf? : Json → Option Part) (json : ActionJson) : Option (ClosingValues Part) := do
  let gasPrice ← charArrayOf? 31 (json.core.get? (ascii "gasPrice"))
  let part ← partOf? json.part
  let actHash ← charArrayOf? 65 (json.entry.get? (ascii "actHash"))
  let blkHash ← charArrayOf? 65 (json.entry.get? (ascii "blkHash"))
  let timestamp ← charArrayOf? 22 (json.entry.get? (ascii "timestamp"))
  let blkHeight ← charsOf? (json.entry.get? (ascii "blkHeight"))
  let sender ← charArrayOf? 42 (json.entry.get? (ascii "sender"))
  let gasFee ← charArrayOf? 31 (json.entry.get? (ascii "gasFee"))
  some ⟨gasPrice, part, actHash, blkHash, timestamp, blkHeight, sender, gasFee⟩

/-- The object with these values in it. -/
def ClosingValues.store (values : ClosingValues Part) (info : ActionInfo Chain Part) : ActionInfo Chain Part :=
  { info with
    actHash := memoryOf values.actHash
    blkHash := memoryOf values.blkHash
    timestamp := memoryOf values.timestamp
    blkHeight := values.blkHeight
    sender := memoryOf values.sender
    gasFee := memoryOf values.gasFee
    action.core.gasPrice := memoryOf values.gasPrice
    action.core.part := values.part }

/-- The number that starts a text is in the range of `long`. -/
def InLongRange (text : Bytes) : Prop := ∃ value, atol text = .ok value

/-- The entry is read as it should be. Up to the nonce, what is missing is reported; the nonce must
then be made of digits. A missing gas limit is reported; otherwise it must be readable. What is
missing behind it is reported; otherwise the numbers must be exact and no chain ID be given. -/
def Readable (description : ActionDescription Chain Part) (json : ActionJson) : Prop :=
  OpeningGiven json → ∀ nonce, charsOf? (json.core.get? (ascii "nonce")) = some nonce →
    nonce.all isDigit = true ∧ decimalValue nonce < 2 ^ 63 ∧
    ∀ gasLimit, charsOf? (json.core.get? (ascii "gasLimit")) = some gasLimit → InLongRange gasLimit ∧
      ((closingOf? description.partOf? json).isSome →
        (∃ version < 2 ^ 31, NumberIs (json.core.get? (ascii "version")) version) ∧ nonce ≠ [] ∧
          gasLimit ≠ [] ∧ gasLimit.all isDigit = true ∧ description.NoChain json.core)

end Iotex.Spec
