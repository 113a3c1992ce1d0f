import Iotex.Soundness.SentActions

/-! # The arrays of a request

Whether the text that a request is put together from stays inside its arrays. The bodies always do.
Twice the size of the data is not always enough for its base64 text and the NUL behind it: the text
of a bare selector already ends outside.
-/

namespace Iotex

open Rpc

section

variable (execution : Execution)

theorem declared_data : (ExecutionArrays.declared execution).data = execution.data.text.length / 2 := rfl

theorem declared_base64Data :
    (ExecutionArrays.declared execution).base64Data = execution.data.text.length / 2 * 2 := rfl

theorem declared_body : (ExecutionArrays.declared execution).body = 1024 + execution.data.text.length / 2 * 2 := rfl

end

/-! ## Bodies -/

/-- After each step of printing pieces into an array the text and its NUL are inside. -/
def StaysBelow (capacity : ℕ) (pieces : List Bytes) : Prop :=
  ∀ steps, ∃ body, (pieces.take steps).foldlM (sprintf capacity) [] = .ok body ∧ body.length < capacity

/-- Both bodies stay below the size of their array at every step, whatever is sent. -/
theorem requestBodies_fit (transfer : ActionCoreTransfer) (execution : ActionCoreExecution)
    (senderPubKey signature : Vector UInt8 65) (data : Bytes)
    (even : execution.execution.data.text.length = 2 * data.length) :
    StaysBelow 1024 (transferPieces transfer (Base64Library.bintob64 senderPubKey.toList)
        (Base64Library.bintob64 signature.toList)) ∧
      (ExecutionArrays.declared execution.execution).body = 1024 + 2 * data.length ∧
      StaysBelow (1024 + 2 * data.length) (executionPieces execution (Base64Library.bintob64 data)
        (Base64Library.bintob64 senderPubKey.toList) (Base64Library.bintob64 signature.toList)) := by
  have transferRoom := transferBody_fits transfer senderPubKey signature
  have executionRoom := executionBody_length execution data senderPubKey signature
  have few : 4 * blocks 3 data.length ≤ 2 * data.length + 4 := by
    rw [blocks]
    omega
  simp only [Base64Library.bintob64_eq]
  refine ⟨?_, ?_, ?_⟩
  · intro steps
    exact ⟨_, sprintf_steps transferRoom steps⟩
  · rw [declared_body, even]
    omega
  · intro steps
    refine ⟨_, sprintf_steps ?_ steps⟩
    omega

theorem payment_and_call_fit :
    StaysBelow 1024 (transferPieces Payment.transfer (Base64Library.bintob64 (Vector.replicate 65 0).toList)
        (Base64Library.bintob64 (Vector.replicate 65 0).toList)) ∧
      (ExecutionArrays.declared (LongCall.execution 48 4).execution).body = 1024 + 2 * 4 ∧
      StaysBelow (1024 + 2 * 4) (executionPieces (LongCall.execution 48 4) (Base64Library.bintob64 [0, 0, 0, 0])
        (Base64Library.bintob64 (Vector.replicate 65 0).toList)
        (Base64Library.bintob64 (Vector.replicate 65 0).toList)) :=
  requestBodies_fit Payment.transfer (LongCall.execution 48 4) (Vector.replicate 65 0) (Vector.replicate 65 0)
    [0, 0, 0, 0] (by decide)

/-! ## Conversions -/

/-- What `bintob64` stores: the text and a NUL. -/
def storedBase64 (data : Bytes) : Bytes := Base64Library.bintob64 data ++ [0]

/-- The text of the signature, of the public key and of the converted data string are stored inside the
arrays that are declared for them. -/
structure ConvertsInside (execution : Execution) (senderPubKey signature : Vector UInt8 65) : Prop where
  signature : (storedBase64 signature.toList).length ≤ 65 * 2
  publicKey : (storedBase64 senderPubKey.toList).length ≤ 65 * 2
  data : ∃ array,
    Encoder.overwrite (List.replicate (ExecutionArrays.declared execution).data 0)
        (Signer.str2hex execution.data.text (ExecutionArrays.declared execution).data).2 = .ok array ∧
      (storedBase64 array).length ≤ (ExecutionArrays.declared execution).base64Data

private theorem storedBase64_length (data : Bytes) : (storedBase64 data).length = 4 * blocks 3 data.length + 1 := by
  rw [storedBase64, Base64Library.bintob64_eq, List.length_append, Base64.encode_length, List.length_singleton]

private theorem key_stored (bytes : Vector UInt8 65) : (storedBase64 bytes.toList).length ≤ 65 * 2 := by
  rw [storedBase64_length, Vector.length_toList]
  decide

/-- Twice the size is enough for the text and its NUL from five bytes on, and for three. -/
theorem doubled_iff (size : ℕ) : 4 * blocks 3 size < 2 * size ↔ size = 3 ∨ 5 ≤ size := by
  rw [blocks]
  omega

/-- The declared arrays are enough where the conversion of the data stays inside, and the text of the
data and its NUL fit. -/
theorem sendExecution_of_declared (host : Bytes) {execution : ActionCoreExecution}
    (senderPubKey signature : Vector UInt8 65)
    (written : (Signer.str2hex execution.execution.data.text (execution.execution.data.text.length / 2)).2.length ≤
      execution.execution.data.text.length / 2)
    (room : 4 * blocks 3 (execution.execution.data.text.length / 2) < 2 * (execution.execution.data.text.length / 2)) :
    sendExecution (ExecutionArrays.declared execution.execution) host execution senderPubKey signature =
      .ok (executionCallData host execution senderPubKey signature) := by
  apply sendExecution_of_inside
  · exact le_refl _
  · exact written
  · rw [declared_base64Data]
    omega
  · rw [declared_body]
    omega

/-- A request that is put together with the declared arrays had room in them. -/
theorem room_of_sendExecution {host : Bytes} {execution : ActionCoreExecution}
    {senderPubKey signature : Vector UInt8 65} {callData : RpcCallData}
    (sent : sendExecution (ExecutionArrays.declared execution.execution) host execution senderPubKey signature =
      .ok callData) :
    (Signer.str2hex execution.execution.data.text (execution.execution.data.text.length / 2)).2.length ≤
        execution.execution.data.text.length / 2 ∧
      4 * blocks 3 (execution.execution.data.text.length / 2) < 2 * (execution.execution.data.text.length / 2) := by
  obtain ⟨-, written, room⟩ := sendExecution_returned sent
  rw [declared_base64Data] at room
  exact ⟨written, by omega⟩

/-- The conversions of `sendExecution` stay inside their arrays, and it returns, exactly on data of three
bytes or of at least five. -/
theorem sendExecution_convertsInside_iff (host : Bytes) (execution : ActionCoreExecution)
    (senderPubKey signature : Vector UInt8 65) (even : execution.execution.data.text.length % 2 = 0) :
    (ConvertsInside execution.execution senderPubKey signature ↔
        execution.execution.data.text.length / 2 = 3 ∨ 5 ≤ execution.execution.data.text.length / 2) ∧
      ((∃ callData, sendExecution (ExecutionArrays.declared execution.execution) host execution senderPubKey
          signature = .ok callData) ↔
        execution.execution.data.text.length / 2 = 3 ∨ 5 ≤ execution.execution.data.text.length / 2) := by
  have written := Signer.str2hex_length execution.execution.data.text (execution.execution.data.text.length / 2)
  rw [← doubled_iff]
  refine ⟨?_, fun ⟨_, sent⟩ => (room_of_sendExecution sent).2,
    fun room => ⟨_, sendExecution_of_declared host senderPubKey signature (by omega) room⟩⟩
  obtain ⟨array, converted, length, -⟩ := overwrite_bytes execution.execution
    (ExecutionArrays.declared execution.execution).data (by rw [declared_data]; omega)
  rw [declared_data] at converted length
  constructor
  · rintro ⟨-, -, other, same, inside⟩
    rw [declared_data] at same
    obtain rfl : array = other := Except.ok.inj (converted.symm.trans same)
    rw [storedBase64_length, length, declared_base64Data] at inside
    omega
  · intro room
    refine ⟨key_stored signature, key_stored senderPubKey, array, converted, ?_⟩
    rw [storedBase64_length, length, declared_base64Data]
    omega

namespace SelectorCall

/-- A call with the given data string. -/
def execution (data : IotexString) : ActionCoreExecution :=
  let call := LongCall.execution 48 0
  { call with execution := { call.execution with data := data } }

/-- A selector without arguments. -/
def selector : IotexString := ⟨ascii "a9059cbb", by decide⟩

/-- A selector and a byte. -/
def longer : IotexString := ⟨ascii "a9059cbb01", by decide⟩

end SelectorCall

theorem longer_convertsInside :
    (ConvertsInside (SelectorCall.execution SelectorCall.longer).execution (Vector.replicate 65 0)
        (Vector.replicate 65 0) ↔ 5 = 3 ∨ 5 ≤ 5) ∧
      ((∃ callData, sendExecution
          (ExecutionArrays.declared (SelectorCall.execution SelectorCall.longer).execution) (ascii "http://host/")
          (SelectorCall.execution SelectorCall.longer) (Vector.replicate 65 0) (Vector.replicate 65 0) = .ok callData) ↔
        5 = 3 ∨ 5 ≤ 5) :=
  sendExecution_convertsInside_iff (ascii "http://host/") (SelectorCall.execution SelectorCall.longer)
    (Vector.replicate 65 0) (Vector.replicate 65 0) (by decide)

/-- The NUL behind the text of a bare selector is stored outside the array. -/
theorem selector_storedOutside :
    sendExecution (ExecutionArrays.declared (SelectorCall.execution SelectorCall.selector).execution)
        (ascii "http://host/") (SelectorCall.execution SelectorCall.selector) (Vector.replicate 65 0)
        (Vector.replicate 65 0) = .error .outOfBounds ∧
      ¬ConvertsInside (SelectorCall.execution SelectorCall.selector).execution (Vector.replicate 65 0)
        (Vector.replicate 65 0) := by
  refine ⟨by decide +kernel, ?_⟩
  rintro ⟨-, -, array, converted, inside⟩
  obtain ⟨other, same, length, -⟩ := overwrite_bytes (SelectorCall.execution SelectorCall.selector).execution 4
    (by decide)
  obtain rfl : other = array := Except.ok.inj (same.symm.trans converted)
  rw [storedBase64_length, length] at inside
  exact absurd inside (by decide)

end Iotex
