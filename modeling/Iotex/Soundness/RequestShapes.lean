import Iotex.Model.Responses
import Iotex.Soundness.RequestBuffers

/-! # The shape of a request

The bodies of the four requests as documents, with the strings of the caller at their places. The
strings are spliced in as they are: a body is the intended document when none of them has a
character that a string literal must escape, and a quote in one of them adds keys to the request.
-/

namespace Iotex

open Json

/-! ## The intended documents -/

/-- The number that `%d` prints. -/
def printedInt (value : UInt32) : Json := .num (toInt32 value.toNat) 0

def accountRequest (address : Bytes) : Json := .obj [(ascii "address", .str address)]

def lookupRequest (hash : Bytes) (checkPending : Bool) : Json :=
  .obj [(ascii "byHash", .obj [(ascii "actionHash", .str hash), (ascii "checkPending", .bool checkPending)])]

/-- The members that both kinds of action have around their own. -/
def actionRequest (version : UInt32) (nonce gasLimit : UInt64) (gasPrice : Bytes) (action : List (Bytes × Json))
    (senderPubKey signature : Vector UInt8 65) : Json :=
  .obj [(ascii "action", .obj [
    (ascii "core", .obj ([(ascii "version", printedInt version), (ascii "nonce", .str (decimal nonce.toNat)),
      (ascii "gasLimit", .str (decimal gasLimit.toNat)), (ascii "gasPrice", .str gasPrice)] ++ action)),
    (ascii "senderPubKey", .str (Base64.encode senderPubKey.toList)),
    (ascii "signature", .str (Base64.encode signature.toList)),
    (ascii "encoding", .str (ascii "IOTEX_PROTOBUF"))])]

def transferRequest (transfer : ActionCoreTransfer) (senderPubKey signature : Vector UInt8 65) : Json :=
  actionRequest transfer.version transfer.nonce transfer.gasLimit transfer.gasPrice.text
    [(ascii "chainID", printedInt transfer.chainId),
      (ascii "transfer", .obj [(ascii "amount", .str transfer.transfer.amount.text),
        (ascii "recipient", .str transfer.transfer.recipient.text), (ascii "payload", .str [])])]
    senderPubKey signature

def executionRequest (execution : ActionCoreExecution) (senderPubKey signature : Vector UInt8 65) : Json :=
  actionRequest execution.version execution.nonce execution.gasLimit execution.gasPrice.text
    [(ascii "execution", .obj [(ascii "amount", .str execution.execution.amount.text),
      (ascii "contract", .str execution.execution.contract.text),
      (ascii "data", .str (Base64.encode execution.execution.bytes))])]
    senderPubKey signature

/-! ## The bodies -/

theorem reads_formatD (value : UInt32) : Reads (formatD value) (printedInt value) := by
  have bound := value.toNat_lt
  rw [formatD, printedInt]
  split_ifs with small
  · rw [toInt32_of_lt small]
    exact Reads.decimal value.toNat
  · have negative : toInt32 value.toNat = -(2 ^ 32 - value.toNat : ℕ) := by
      rw [toInt32, Int.bmod_def]
      norm_num
      omega
    rw [negative]
    exact Reads.negative (2 ^ 32 - value.toNat)

/-- Text without a character to escape has no NUL. -/
theorem cString_plain {text : Bytes} (plain : PlainText text) : cString text = text := by
  apply cString_of_noNul
  intro member
  exact absurd (plain 0 member) (by decide)

theorem getAccount_parse (host : Bytes) {address : Bytes} (plain : PlainText address) :
    parse (Rpc.getAccount host address).body = some (accountRequest address) := by
  have members := ReadsMembers.last (ascii "address") (by decide) (Reads.str address plain)
  have document := parse_of_reads (Reads.obj members)
  rw [accountRequest]
  convert document using 2
  rw [Rpc.getAccount, cString_plain plain]
  simp only [List.append_assoc, List.cons_append, List.nil_append]
  rfl

theorem getActionByHash_parse (host : Bytes) {hash : Bytes} (checkPending : Bool) (plain : PlainText hash) :
    parse (Rpc.getActionByHash host hash checkPending).body = some (lookupRequest hash checkPending) := by
  have inner := Reads.obj (ReadsMembers.text (ascii "actionHash") (by decide) plain
    (ReadsMembers.last (ascii "checkPending") (by decide) (Reads.bool checkPending).space))
  have document := parse_of_reads (Reads.obj (ReadsMembers.last (ascii "byHash") (by decide) inner.space))
  rw [lookupRequest]
  convert document using 2
  rw [Rpc.getActionByHash, cString_plain plain]
  simp only [List.append_assoc, List.cons_append, List.nil_append]
  rfl

theorem sendTokenTransfer_parse (host : Bytes) (transfer : ActionCoreTransfer)
    (senderPubKey signature : Vector UInt8 65) (gasPrice : PlainText transfer.gasPrice.text)
    (amount : PlainText transfer.transfer.amount.text)
    (recipient : PlainText transfer.transfer.recipient.text) :
    ∃ callData, Rpc.sendTokenTransfer host transfer senderPubKey signature = .ok callData ∧
      parse callData.body = some (transferRequest transfer senderPubKey signature) := by
  have body := reads_transferRequest transfer (reads_formatD transfer.version) (reads_formatD transfer.chainId) gasPrice
    amount recipient (plain_base64 senderPubKey.toList) (plain_base64 signature.toList)
  exact ⟨_, sendTokenTransfer_eq host transfer senderPubKey signature, parse_of_reads body⟩

/-- Without characters to escape the bodies are the intended documents: those of the requests that read,
of a transfer, and of an execution whenever its arrays have room for the data. -/
theorem requests_parse (host : Bytes) :
    (∀ address, PlainText address →
      parse (Rpc.getAccount host address).body = some (accountRequest address) ∧
        parse (Rpc.getBalance host address).body = some (accountRequest address)) ∧
      (∀ hash checkPending, PlainText hash →
        parse (Rpc.getActionByHash host hash checkPending).body = some (lookupRequest hash checkPending)) ∧
      (∀ transfer senderPubKey signature, PlainText transfer.gasPrice.text → PlainText transfer.transfer.amount.text →
        PlainText transfer.transfer.recipient.text →
        ∃ callData, Rpc.sendTokenTransfer host transfer senderPubKey signature = .ok callData ∧
          parse callData.body = some (transferRequest transfer senderPubKey signature)) ∧
      ∀ execution senderPubKey signature callData, PlainText execution.gasPrice.text →
        PlainText execution.execution.amount.text → PlainText execution.execution.contract.text →
        Rpc.sendExecution (.declared execution.execution) host execution senderPubKey signature = .ok callData →
        parse callData.body = some (executionRequest execution senderPubKey signature) := by
  refine ⟨?_, ?_, ?_, ?_⟩
  · intro address plain
    exact ⟨getAccount_parse host plain, getAccount_parse host plain⟩
  · intro hash checkPending plain
    exact getActionByHash_parse host checkPending plain
  · intro transfer senderPubKey signature gasPrice amount recipient
    exact sendTokenTransfer_parse host transfer senderPubKey signature gasPrice amount recipient
  · intro execution senderPubKey signature callData gasPrice amount contract sent
    obtain ⟨rfl, -⟩ := sendExecution_returned sent
    exact parse_of_reads (reads_executionRequest execution (reads_formatD execution.version) gasPrice amount contract
      (plain_base64 execution.execution.bytes) (plain_base64 senderPubKey.toList) (plain_base64 signature.toList))

theorem payment_and_call_parse :
    (∃ callData, Rpc.sendTokenTransfer (ascii "http://host/") Payment.transfer (Vector.replicate 65 0)
        (Vector.replicate 65 0) = .ok callData ∧
      parse callData.body = some (transferRequest Payment.transfer (Vector.replicate 65 0) (Vector.replicate 65 0))) ∧
    ∃ callData, Rpc.sendExecution (.declared (SelectorCall.execution SelectorCall.longer).execution)
        (ascii "http://host/") (SelectorCall.execution SelectorCall.longer) (Vector.replicate 65 0)
        (Vector.replicate 65 0) = .ok callData ∧
      parse callData.body = some (executionRequest (SelectorCall.execution SelectorCall.longer) (Vector.replicate 65 0)
        (Vector.replicate 65 0)) :=
  have sent := @sendExecution_of_declared (ascii "http://host/") (SelectorCall.execution SelectorCall.longer)
    (Vector.replicate 65 0) (Vector.replicate 65 0) (by decide) (by decide)
  ⟨(requests_parse (ascii "http://host/")).2.2.1 Payment.transfer (Vector.replicate 65 0) (Vector.replicate 65 0)
      (by decide) (by decide) (by decide),
    _, sent, (requests_parse (ascii "http://host/")).2.2.2 (SelectorCall.execution SelectorCall.longer)
      (Vector.replicate 65 0) (Vector.replicate 65 0) _ (by decide) (by decide) (by decide) sent⟩

namespace SplicedAddress

/-- An address that ends its own value and adds a key. -/
def quote : Bytes := ascii "io1\",\"amount\":\"5"

def backslash : Bytes := ascii "io1\\t"

def lineFeed : Bytes := ascii "io1\n"

/-- The text under a name in the body of a request, if the body is a document. -/
def textAt (name address : Bytes) : Option Bytes :=
  ((parse (Rpc.getAccount [] address).body).bind (get? name)).bind Spec.textOf?

theorem textAt_intended {address : Bytes}
    (parsed : parse (Rpc.getAccount [] address).body = some (accountRequest address)) (name : Bytes) :
    textAt name address = if name = ascii "address" then some address else none := by
  have whole : (ascii "address").takeWhile (· != 0) = ascii "address" := rfl
  rw [textAt, parsed, accountRequest]
  generalize ascii "address" = key at whole
  split_ifs with same
  · simp only [Option.bind_some, get?, List.find?_cons, whole, same, beq_self_eq_true, Option.map_some, Spec.textOf?]
  · simp only [Option.bind_some, get?, List.find?_cons, whole, beq_false_of_ne (Ne.symm same), List.find?_nil,
      Option.map_none, Option.bind_none]

end SplicedAddress

open SplicedAddress in
/-- A quote adds a key, a backslash changes the value, and a line feed leaves no document at all. -/
theorem splicedAddress_not_intended :
    textAt (ascii "amount") quote = some (ascii "5") ∧ textAt (ascii "address") backslash = some (ascii "io1\t") ∧
      textAt (ascii "address") lineFeed = none ∧
      ∀ address ∈ [quote, backslash, lineFeed],
        parse (Rpc.getAccount [] address).body ≠ some (accountRequest address) := by
  have added : textAt (ascii "amount") quote = some (ascii "5") := by decide +kernel
  have changed : textAt (ascii "address") backslash = some (ascii "io1\t") := by decide +kernel
  have lost : textAt (ascii "address") lineFeed = none := by decide +kernel
  refine ⟨added, changed, lost, ?_⟩
  simp only [List.forall_mem_cons]
  refine ⟨?_, ?_, ?_, by simp⟩
  · intro parsed
    rw [textAt_intended parsed] at added
    exact absurd added (by decide)
  · intro parsed
    rw [textAt_intended parsed] at changed
    exact absurd changed (by decide)
  · intro parsed
    rw [textAt_intended parsed] at lost
    exact absurd lost (by decide)

end Iotex
