import Iotex.Model.Account
import Iotex.Proofs.ActionCores

/-! # The bytes that are signed

What the account hashes for an action core: the message with all its fields if it fits the array of
1024 bytes, and otherwise what stands in front of the action's body. The former decodes to the
message and the latter is no message.
-/

namespace Iotex

open Nanopb Encoder

namespace Spec

/-! ## Decoding -/

/-- The numbers and sizes of a message that can be written. -/
structure ActionCore.Bounded (core : ActionCore) (action : ActionMessage) : Prop where
  version : core.version < 2 ^ 32
  nonce : core.nonce < 2 ^ 64
  gasLimit : core.gasLimit < 2 ^ 64
  gasPrice : core.gasPrice.length < 2 ^ 64
  holds : core.action = some action
  parts : ∀ field ∈ action.allFields, field.WellFormed
  body : (Wire.writeFields action.allFields).length < 2 ^ 64

namespace ActionCore

variable {core : ActionCore} {action : ActionMessage}

private theorem wellFormed_number {number value : ℕ} (positive : 0 < number) (small : number < 2 ^ 29)
    (bound : value < 2 ^ 64) : ∀ field ∈ numberField number value, field.WellFormed := by
  intro field member
  rw [numberField] at member
  split_ifs at member
  · simp at member
  · obtain rfl := List.mem_singleton.mp member
    exact ⟨positive, small, bound⟩

theorem Bounded.wellFormed_numberFields (bounded : core.Bounded action) :
    ∀ field ∈ core.numberFields, field.WellFormed := by
  intro field member
  have version := bounded.version
  rw [numberFields, List.mem_append, List.mem_append] at member
  rcases member with (member | member) | member
  · exact wellFormed_number (by norm_num) (by norm_num) (by omega) field member
  · exact wellFormed_number (by norm_num) (by norm_num) bounded.nonce field member
  · exact wellFormed_number (by norm_num) (by norm_num) bounded.gasLimit field member

theorem Bounded.wellFormed_headFields (bounded : core.Bounded action) :
    ∀ field ∈ core.headFields, field.WellFormed := by
  intro field member
  rw [headFields, List.mem_append, List.mem_singleton] at member
  rcases member with member | rfl
  · exact bounded.wellFormed_numberFields field member
  · exact ⟨by norm_num, by norm_num, bounded.gasPrice⟩

theorem number_small (action : ActionMessage) : 0 < action.number ∧ action.number < 16 := by
  cases action <;> exact ⟨by norm_num [ActionMessage.number], by norm_num [ActionMessage.number]⟩

theorem Bounded.wellFormed_allFields (bounded : core.Bounded action) : ∀ field ∈ core.allFields, field.WellFormed := by
  intro field member
  have number := number_small action
  rw [allFields, bounded.holds, List.mem_append] at member
  rcases member with member | member
  · exact bounded.wellFormed_headFields field member
  · obtain rfl : field = _ := by simpa using member
    exact ⟨number.1, lt_trans number.2 (by norm_num), bounded.body⟩

private theorem absorb_version {value : ℕ} (absent : core.version = 0) (bound : value < 2 ^ 32) :
    (numberField 1 value).foldlM absorb core = some { core with version := value } := by
  rw [numberField]
  split_ifs with zero
  · rw [zero, ← absent]
    rfl
  · exact congrArg (fun version => some { core with version := version }) (Nat.mod_eq_of_lt bound)

private theorem absorb_nonce {value : ℕ} (absent : core.nonce = 0) :
    (numberField 2 value).foldlM absorb core = some { core with nonce := value } := by
  rw [numberField]
  split_ifs with zero
  · rw [zero, ← absent]
    rfl
  · rfl

private theorem absorb_gasLimit {value : ℕ} (absent : core.gasLimit = 0) :
    (numberField 3 value).foldlM absorb core = some { core with gasLimit := value } := by
  rw [numberField]
  split_ifs with zero
  · rw [zero, ← absent]
    rfl
  · rfl

private theorem absorb_headFields (bounded : core.Bounded action) :
    core.headFields.foldlM absorb {} = some
      { version := core.version, nonce := core.nonce, gasLimit := core.gasLimit, gasPrice := core.gasPrice } := by
  rw [headFields, numberFields, List.foldlM_append, List.foldlM_append, List.foldlM_append,
    absorb_version rfl bounded.version]
  simp only [Option.bind_eq_bind, Option.bind_some]
  rw [absorb_nonce rfl]
  simp only [Option.bind_some]
  rw [absorb_gasLimit rfl]
  rfl

/-- The fields of the schema are enough to get the message back. -/
def Complete : ActionMessage → Prop
  | .transfer message => message.payload = []
  | .execution _ => True

/-- The message with all its fields decodes to itself. -/
theorem Bounded.decode?_allFields (bounded : core.Bounded action) (complete : Complete action)
    (unchained : core.chainID = 0) :
    decode? (Wire.writeFields core.allFields) = some core := by
  have parts := Wire.readFields_writeFields bounded.parts
  rw [decode?, Wire.readFields_writeFields bounded.wellFormed_allFields]
  simp only [Option.bind_eq_bind, Option.bind_some]
  rw [allFields, bounded.holds, List.foldlM_append, absorb_headFields bounded]
  simp only [Option.bind_eq_bind, Option.bind_some, Option.toList_some, List.map_cons, List.map_nil, List.foldlM_cons,
    List.foldlM_nil]
  have holds := bounded.holds
  obtain ⟨version, nonce, gasLimit, gasPrice, chainID, held⟩ := core
  obtain rfl : chainID = 0 := unchained
  obtain rfl : held = some action := holds
  cases action with
  | transfer message =>
    obtain ⟨amount, recipient, payload⟩ := message
    obtain rfl : payload = [] := complete
    simp only [ActionMessage.number, absorb, parts]
    rfl
  | execution message =>
    simp only [ActionMessage.number, absorb, parts]
    rfl

/-- Without the body of the action there is no message. -/
theorem Bounded.decode?_cutOff (bounded : core.Bounded action) : decode? core.cutOff = none := by
  have number := number_small action
  have nonempty : 0 < (Wire.writeFields action.allFields).length := by
    have count := Wire.length_le_writeFields action.allFields
    have some : 0 < action.allFields.length := by cases action <;> simp [ActionMessage.allFields]
    omega
  have broken := Wire.readFields_broken bounded.wellFormed_headFields (List.append_ne_nil_of_left_ne_nil
    (Wire.varint_ne_nil (action.number * 8 + 2)) (Wire.varint (Wire.writeFields action.allFields).length))
    (Wire.readField_cut number.1 (by omega) nonempty bounded.body)
  rw [decode?, cutOff, bounded.holds]
  simp only [Option.elim_some, submessageHead, key, broken, Option.bind_eq_bind, Option.bind_none]

end ActionCore

end Spec

/-! ## Sizes -/

private theorem numberField_length (number : ℕ) (small : number < 16) {value : ℕ} (bound : value < 2 ^ 64) :
    (Wire.writeFields (Spec.numberField number value)).length ≤ 11 := by
  rw [Spec.numberField]
  split_ifs
  · simp [Wire.writeFields]
  · have short := Wire.varint_length_le 10 (by omega) (lt_trans bound (by norm_num))
    rw [Wire.writeFields, List.flatMap_singleton, Wire.Field.write, List.length_append, Wire.Payload.write,
      Wire.varint_small (by change number * 8 + 0 < 128; omega), List.length_singleton]
    omega

/-- The fields in front of the action take few bytes. -/
private theorem headFields_length {core : Spec.ActionCore} {action : Spec.ActionMessage} (bounded : core.Bounded action)
    (short : core.gasPrice.length < 31) : (Wire.writeFields core.headFields).length ≤ 65 := by
  have one := numberField_length 1 (by norm_num) (lt_trans bounded.version (by norm_num))
  have two := numberField_length 2 (by norm_num) bounded.nonce
  have three := numberField_length 3 (by norm_num) bounded.gasLimit
  have four := Wire.delimited_length 4 (by norm_num) core.gasPrice
  rw [Wire.varint_small (by omega), List.length_singleton] at four
  simp only [Wire.writeFields] at one two three
  rw [Spec.ActionCore.headFields, Spec.ActionCore.numberFields, Wire.writeFields]
  simp only [List.flatMap_append, List.length_append, List.flatMap_singleton]
  omega

theorem cutOff_length {core : Spec.ActionCore} {action : Spec.ActionMessage} (bounded : core.Bounded action)
    (short : core.gasPrice.length < 31) : core.cutOff.length ≤ 76 := by
  have head := headFields_length bounded short
  have number := Spec.ActionCore.number_small action
  have length := Wire.varint_length_le 10 (by omega) (lt_trans bounded.body (by norm_num))
  rw [Spec.ActionCore.cutOff, bounded.holds, Option.elim_some, submessageHead, key,
    Wire.varint_small (by omega), List.length_append, List.length_append, List.length_singleton]
  omega

theorem size_eq {core : Spec.ActionCore} {action : Spec.ActionMessage} (bounded : core.Bounded action) :
    core.size = core.cutOff.length + (Wire.writeFields action.allFields).length := by
  rw [Spec.ActionCore.size, writeFields_allFields bounded.holds, List.length_append]

/-! ## The messages of the API's cores -/

theorem transfer_bounded (transfer : ActionCoreTransfer) :
    ∃ action, transfer.message.Bounded action ∧ Spec.ActionCore.Complete action := by
  have amount := transfer.transfer.amount.fits
  have recipient := transfer.transfer.recipient.fits
  have gasPrice := transfer.gasPrice.fits
  have body := transfer_body_length transfer rfl
  refine ⟨_, ⟨transfer.version.toNat_lt, transfer.nonce.toNat_lt, transfer.gasLimit.toNat_lt, ?_, rfl, ?_,
    by omega⟩, rfl⟩
  · exact lt_trans gasPrice (by norm_num)
  · intro field member
    simp only [Spec.ActionMessage.allFields, List.mem_cons, List.not_mem_nil, or_false] at member
    rcases member with rfl | rfl
    · exact ⟨by norm_num, by norm_num, lt_trans amount (by norm_num)⟩
    · exact ⟨by norm_num, by norm_num, lt_trans recipient (by norm_num)⟩

theorem execution_bounded (execution : ActionCoreExecution) {data : Bytes} (addressable : data.length < 2 ^ 63) :
    ∃ action, (execution.message data).Bounded action ∧ Spec.ActionCore.Complete action ∧
      data.length ≤ (Wire.writeFields action.allFields).length := by
  have amount := execution.execution.amount.fits
  have contract := execution.execution.contract.fits
  have gasPrice := execution.gasPrice.fits
  have body := execution_body_length execution data rfl addressable
  refine ⟨_, ⟨execution.version.toNat_lt, execution.nonce.toNat_lt, execution.gasLimit.toNat_lt, ?_, rfl, ?_,
    by omega⟩, trivial, body.1⟩
  · exact lt_trans gasPrice (by norm_num)
  · intro field member
    simp only [Spec.ActionMessage.allFields, List.mem_cons, List.not_mem_nil, or_false] at member
    rcases member with rfl | rfl | rfl
    · exact ⟨by norm_num, by norm_num, lt_trans amount (by norm_num)⟩
    · exact ⟨by norm_num, by norm_num, lt_trans contract (by norm_num)⟩
    · exact ⟨by norm_num, by norm_num, lt_trans addressable (by norm_num)⟩

/-- The message of a transfer decodes to itself. -/
theorem decode?_transfer (transfer : ActionCoreTransfer) :
    Spec.ActionCore.decode? (Wire.writeFields transfer.message.allFields) = some transfer.message := by
  obtain ⟨action, bounded, complete⟩ := transfer_bounded transfer
  exact bounded.decode?_allFields complete rfl

/-- The message of an execution decodes to itself, and without the body of the action to nothing. -/
theorem decode?_execution (execution : ActionCoreExecution) {data : Bytes} (addressable : data.length < 2 ^ 63) :
    Spec.ActionCore.decode? (Wire.writeFields (execution.message data).allFields) = some (execution.message data) ∧
      Spec.ActionCore.decode? (execution.message data).cutOff = none := by
  obtain ⟨action, bounded, complete, -⟩ := execution_bounded execution addressable
  exact ⟨bounded.decode?_allFields complete rfl, bounded.decode?_cutOff⟩

/-! ## The arrays of the encoder -/

/-- The contents and the count after an encoding that filled the array up to some length. -/
private theorem encodeCore_eq {core : Pb.ActionCore} {maxOutSize : ℕ} {status : Bool} {written : Bytes}
    (encoded : pbEncode core.fields (pbOstreamFromBuffer maxOutSize) =
      (status, ⟨some written, maxOutSize, written.length⟩)) :
    encodeCore core maxOutSize =
      (written ++ List.replicate (maxOutSize - written.length) 0, toInt32 written.length) := by
  rw [encodeCore, encoded]
  rfl

/-- The array of the given size holds the bytes and then zeros, and the returned count is theirs. -/
def Encoder.Writes (maxOutSize : ℕ) (result : Bytes × ℤ) (written : Bytes) : Prop :=
  written.length ≤ maxOutSize ∧
    result = (written ++ List.replicate (maxOutSize - written.length) 0, toInt32 written.length)

/-- The count covers what was written. -/
theorem countedBytes_of_writes {maxOutSize : ℕ} {result : Bytes × ℤ} {written : Bytes} (int : maxOutSize < 2 ^ 31)
    (writes : Writes maxOutSize result written) : countedBytes result = .ok written := by
  obtain ⟨inside, rfl⟩ := writes
  rw [countedBytes, toInt32_of_lt (by omega), toSizeT_of_lt (by omega),
    readFirst_of_le (by rw [List.length_append]; omega), List.take_left]

/-- A transfer that fits is written with all its fields. -/
theorem protobufEncodeTransfer_writes (transfer : ActionCoreTransfer) {maxOutSize : ℕ}
    (fits : transfer.message.size ≤ maxOutSize) :
    Writes maxOutSize (protobufEncodeTransfer transfer maxOutSize) (Wire.writeFields transfer.message.allFields) := by
  obtain ⟨action, bounded, -⟩ := transfer_bounded transfer
  have size := size_eq bounded
  have head : transfer.message.cutOff.length ≤ maxOutSize := by omega
  have encoded := transfer_encoded transfer head
  rw [if_pos fits] at encoded
  exact ⟨fits, encodeCore_eq encoded⟩

/-- The array of an execution's data. -/
theorem executionData_eq (execution : Execution) :
    ∃ array, executionData execution = .ok array ∧ execution.data.text.length / 2 ≤ array.length ∧
      array.take (execution.data.text.length / 2) = execution.bytes := by
  obtain ⟨array, converted, length, taken⟩ :=
    overwrite_bytes execution (execution.data.text.length / 2 + 1) (by omega)
  exact ⟨array, converted, by omega, taken⟩

theorem bytes_addressable (execution : Execution) : execution.bytes.length < 2 ^ 63 := by
  have addressable := execution.data.addressable
  rw [Execution.bytes_length]
  omega

/-- An execution is written with all its fields if it fits, and cut off otherwise. -/
theorem protobufEncodeExecution_writes (execution : ActionCoreExecution) {maxOutSize : ℕ}
    (room : (execution.message execution.execution.bytes).cutOff.length ≤ maxOutSize) :
    ∃ result, protobufEncodeExecution execution maxOutSize = .ok result ∧ Writes maxOutSize result (
      if (execution.message execution.execution.bytes).size ≤ maxOutSize
      then Wire.writeFields (execution.message execution.execution.bytes).allFields
      else (execution.message execution.execution.bytes).cutOff) := by
  obtain ⟨array, converted, inside, taken⟩ := executionData_eq execution.execution
  have encoded := execution_encoded execution inside taken room
  refine ⟨encodeCore (executionCore execution array) maxOutSize, ?_, ?_⟩
  · rw [protobufEncodeExecution, converted, ok_bind, pure_eq_ok]
  · split_ifs at encoded ⊢ with fits
    · exact ⟨fits, encodeCore_eq encoded⟩
    · exact ⟨room, encodeCore_eq encoded⟩

/-- The bytes of an execution that fits. -/
theorem protobufEncodeExecution_writes_all (execution : ActionCoreExecution) {maxOutSize : ℕ}
    (fits : (execution.message execution.execution.bytes).size ≤ maxOutSize) :
    ∃ result, protobufEncodeExecution execution maxOutSize = .ok result ∧
      Writes maxOutSize result (Wire.writeFields (execution.message execution.execution.bytes).allFields) := by
  obtain ⟨action, bounded, -, -⟩ := execution_bounded execution (bytes_addressable execution.execution)
  have size := size_eq bounded
  have written := protobufEncodeExecution_writes execution (show _ ≤ maxOutSize by omega)
  rwa [if_pos fits] at written

/-! ## What the account hashes -/

/-- A transfer always fits. -/
theorem hashedTransfer_eq (transfer : ActionCoreTransfer) :
    transfer.message.size ≤ 1024 ∧
      Account.hashedTransfer transfer = .ok (Wire.writeFields transfer.message.allFields) := by
  obtain ⟨action, bounded, -⟩ := transfer_bounded transfer
  have cut := cutOff_length bounded transfer.gasPrice.fits
  have body := transfer_body_length transfer bounded.holds
  have size := size_eq bounded
  have fits : transfer.message.size ≤ 1024 := by omega
  exact ⟨fits, countedBytes_of_writes (by norm_num) (protobufEncodeTransfer_writes transfer fits)⟩

/-- An execution is hashed as a whole if it fits, and cut off otherwise. -/
theorem hashedExecution_eq (execution : ActionCoreExecution) :
    Account.hashedExecution execution = .ok (
      if (execution.message execution.execution.bytes).size ≤ 1024
      then Wire.writeFields (execution.message execution.execution.bytes).allFields
      else (execution.message execution.execution.bytes).cutOff) := by
  obtain ⟨action, bounded, -, -⟩ := execution_bounded execution (bytes_addressable execution.execution)
  have cut := cutOff_length bounded execution.gasPrice.fits
  have room : (execution.message execution.execution.bytes).cutOff.length ≤ 1024 := by omega
  obtain ⟨result, encoded, writes⟩ := protobufEncodeExecution_writes execution room
  rw [Account.hashedExecution, encoded, ok_bind]
  exact countedBytes_of_writes (by norm_num) writes

end Iotex
