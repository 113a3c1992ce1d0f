import Mathlib.Algebra.Order.BigOperators.Group.List
import Iotex.Proofs.SignedCores

/-! # What a signature covers

The hash of an execution is taken of the whole message exactly when the message fits the array of
1024 bytes; a transfer always fits. The message is the canonical serialization exactly when no string
or bytes field is empty, because the callback fields are written even when they hold their default.
-/

namespace Iotex

open Encoder Spec

/-! ## Whole actions -/

/-- The byte string that an execution's hash is taken of, whatever the hash function is. -/
def HashesBytes (execution : ActionCoreExecution) (hashed : Bytes) : Prop :=
  ∀ (keccak_256 : Keccak) (ecdsa_sign_digest : EcdsaSignDigest) (account : Account) (signature : Vector UInt8 65),
    ∃ signed, account.signExecutionAction keccak_256 ecdsa_sign_digest execution signature =
      .ok (signed, keccak_256 hashed)

/-- What is hashed decodes to the execution, and it is hashed for no other execution. -/
def SignsWhole (execution : ActionCoreExecution) (data : Bytes) : Prop :=
  ∃ hashed, HashesBytes execution hashed ∧ ActionCore.decode? hashed = some (execution.message data) ∧
    ∀ (other : ActionCoreExecution) (otherData : Bytes), unhex? other.execution.data.text = some otherData →
      HashesBytes other hashed → other.message otherData = execution.message data

/-- A hash function that tells one byte string from all others. -/
private def indicator (bytes : Bytes) : Keccak := fun other =>
  if other = bytes then Vector.replicate 32 0 else Vector.replicate 32 1

private theorem indicator_eq {a b : Bytes} (same : indicator a a = indicator a b) : b = a := by
  by_contra different
  rw [indicator, indicator, if_pos rfl, if_neg different] at same
  exact absurd same (by decide)

theorem hashesBytes_iff {execution : ActionCoreExecution} {hashed : Bytes} :
    HashesBytes execution hashed ↔ Account.hashedExecution execution = .ok hashed := by
  constructor
  · intro hashes
    have written := hashedExecution_eq execution
    obtain ⟨signed, same⟩ := hashes (indicator hashed) (fun _ _ signature => (0, signature))
      ⟨Vector.replicate 65 0, Vector.replicate 32 0⟩ (Vector.replicate 65 0)
    rw [Account.signExecutionAction, written, ok_bind, pure_eq_ok, Except.ok.injEq, Prod.mk.injEq] at same
    rw [written, indicator_eq same.2.symm]
  · intro written keccak_256 ecdsa_sign_digest account signature
    refine ⟨(Signer.signHash ecdsa_sign_digest (keccak_256 hashed) account.privateKey signature).2, ?_⟩
    rw [Account.signExecutionAction, written, ok_bind, pure_eq_ok]
    rfl

/-- The bytes of an execution whose data is a string of digits. -/
private theorem hashedExecution_hex (execution : ActionCoreExecution) {data : Bytes}
    (digits : unhex? execution.execution.data.text = some data) :
    Account.hashedExecution execution = .ok (
      if (execution.message data).size ≤ 1024 then Wire.writeFields (execution.message data).allFields
      else (execution.message data).cutOff) := by
  rw [hashedExecution_eq, Execution.bytes_of_hex digits]

private theorem decode?_hexExecution (execution : ActionCoreExecution) {data : Bytes}
    (digits : unhex? execution.execution.data.text = some data) :
    ActionCore.decode? (Wire.writeFields (execution.message data).allFields) = some (execution.message data) ∧
      ActionCore.decode? (execution.message data).cutOff = none := by
  have addressable := bytes_addressable execution.execution
  rw [Execution.bytes_of_hex digits] at addressable
  exact decode?_execution execution addressable

/-- An execution that fits is signed as a whole. -/
private theorem signsWhole_of_size {execution : ActionCoreExecution} {data : Bytes}
    (digits : unhex? execution.execution.data.text = some data) (fits : (execution.message data).size ≤ 1024) :
    SignsWhole execution data := by
  have hashed := hashedExecution_hex execution digits
  rw [if_pos fits] at hashed
  refine ⟨_, hashesBytes_iff.mpr hashed, (decode?_hexExecution execution digits).1, ?_⟩
  intro other otherData read same
  have written := hashesBytes_iff.mp same
  rw [hashedExecution_hex other read, Except.ok.injEq] at written
  have decoded := (decode?_hexExecution execution digits).1
  have others := decode?_hexExecution other read
  rw [← written] at decoded
  split_ifs at decoded with short
  · rw [others.1, Option.some.injEq] at decoded
    exact decoded
  · rw [others.2] at decoded
    simp at decoded

/-- An execution that does not fit is hashed without its body. -/
private theorem not_signsWhole {execution : ActionCoreExecution} {data : Bytes}
    (digits : unhex? execution.execution.data.text = some data) (long : 1024 < (execution.message data).size) :
    ¬SignsWhole execution data := by
  rintro ⟨hashed, hashes, decoded, -⟩
  have written := hashesBytes_iff.mp hashes
  rw [hashedExecution_hex execution digits, if_neg (by omega), Except.ok.injEq] at written
  rw [← written, (decode?_hexExecution execution digits).2] at decoded
  simp at decoded

/-- The whole execution is signed exactly when its message takes at most 1024 bytes. -/
theorem signsWhole_iff {execution : ActionCoreExecution} {data : Bytes}
    (digits : unhex? execution.execution.data.text = some data) :
    SignsWhole execution data ↔ (execution.message data).size ≤ 1024 := by
  constructor
  · intro whole
    by_contra long
    exact not_signsWhole digits (by omega) whole
  · exact signsWhole_of_size digits

namespace LongCall

/-- The characters of `count` equal bytes. -/
def digits (digit : UInt8) (count : ℕ) : Bytes := List.replicate (2 * count) digit

theorem unhex?_digits {digit : UInt8} (nibble : ℕ) (read : hexVal? digit = some nibble) (count : ℕ) :
    unhex? (digits digit count) = some (List.replicate count (UInt8.ofNat (16 * nibble + nibble))) := by
  induction count with
  | zero => rfl
  | succ count ih =>
    have more : digits digit (count + 1) = digit :: digit :: digits digit count := by
      rw [digits, digits, show 2 * (count + 1) = 2 * count + 1 + 1 by ring, List.replicate_succ, List.replicate_succ]
    rw [more, unhex?, read, ih, List.replicate_succ]
    rfl

theorem digits_addressable (digit : UInt8) (count : UInt32) : (digits digit count.toNat).length < 2 ^ 63 := by
  have bound := count.toNat_lt
  rw [digits, List.length_replicate]
  omega

/-- A call with some data, of one digit throughout. -/
def execution (digit : UInt8) (count : UInt32) : ActionCoreExecution where
  version := 1
  nonce := 10
  gasLimit := 1000000
  gasPrice := ⟨ascii "1", by decide, by decide⟩
  execution := {
    amount := ⟨ascii "0", by decide, by decide⟩
    contract := ⟨ascii "io1w9kv3v2zg9gsmmv2fy6hc5ws3hsn7j7c9dcl4q", by decide, by decide⟩
    data := ⟨digits digit count.toNat, digits_addressable digit count⟩
  }

end LongCall

/-- A short call is signed as a whole. -/
theorem shortCall_signsWhole :
    unhex? (LongCall.execution 49 4).execution.data.text = some [0x11, 0x11, 0x11, 0x11] ∧
      SignsWhole (LongCall.execution 49 4) [0x11, 0x11, 0x11, 0x11] :=
  ⟨by decide, (signsWhole_iff (by decide)).mpr (by decide)⟩

/-- What is hashed of a long call depends on its data only through the size of the message. -/
private theorem cutOff_congr {a b : ActionCore} {x y : ActionMessage} (heads : a.headFields = b.headFields)
    (holdsA : a.action = some x) (holdsB : b.action = some y) (number : x.number = y.number)
    (length : (Wire.writeFields x.allFields).length = (Wire.writeFields y.allFields).length) : a.cutOff = b.cutOff := by
  rw [ActionCore.cutOff, ActionCore.cutOff, heads, holdsA, holdsB, Option.elim_some, Option.elim_some,
    Nanopb.submessageHead, Nanopb.submessageHead, number, length]

/-- More than 1024 bytes of data do not fit. -/
private theorem longCall_size (digit byte : UInt8) (count : UInt32) (long : 1024 < count.toNat) :
    1024 < ((LongCall.execution digit count).message (List.replicate count.toNat byte)).size := by
  have addressable : (List.replicate count.toNat byte).length < 2 ^ 63 := by
    have bound := count.toNat_lt
    rw [List.length_replicate]
    omega
  obtain ⟨action, bounded, -, inside⟩ := execution_bounded (LongCall.execution digit count) addressable
  have total := size_eq bounded
  rw [List.length_replicate] at inside
  omega

/-- Two calls with different data are hashed as the same bytes, which are no message. -/
theorem longCalls_hashed_alike :
    (∃ hashed, HashesBytes (LongCall.execution 48 1100) hashed ∧ HashesBytes (LongCall.execution 49 1100) hashed ∧
      ActionCore.decode? hashed = none) ∧
    ¬SignsWhole (LongCall.execution 48 1100) (List.replicate 1100 0) := by
  have zeros : unhex? (LongCall.digits 48 1100) = some (List.replicate 1100 0) :=
    LongCall.unhex?_digits 0 (by decide) 1100
  have others : unhex? (LongCall.digits 49 1100) = some (List.replicate 1100 17) :=
    LongCall.unhex?_digits 1 (by decide) 1100
  have long : 1024 < ((LongCall.execution 48 1100).message (List.replicate 1100 0)).size :=
    longCall_size 48 0 1100 (by decide)
  have longer : 1024 < ((LongCall.execution 49 1100).message (List.replicate 1100 17)).size :=
    longCall_size 49 17 1100 (by decide)
  have hashed := hashedExecution_hex (LongCall.execution 48 1100) zeros
  have hashedOther := hashedExecution_hex (LongCall.execution 49 1100) others
  rw [if_neg (Nat.not_le.mpr long)] at hashed
  rw [if_neg (Nat.not_le.mpr longer)] at hashedOther
  have broken := (decode?_hexExecution (LongCall.execution 48 1100) zeros).2
  refine ⟨⟨_, hashesBytes_iff.mpr hashed, hashesBytes_iff.mpr ?_, broken⟩,
    not_signsWhole zeros long⟩
  rw [hashedOther]
  refine congrArg Except.ok (cutOff_congr rfl rfl rfl rfl ?_)
  simp only [ActionMessage.allFields, Wire.writeFields, List.flatMap_cons, List.flatMap_nil, Wire.Field.write,
    Wire.Payload.write, Wire.Payload.wireType, List.length_append, List.length_replicate]
  rfl

/-! ## Transfers -/

/-- Two transfers agree in every field that is encoded. -/
structure SameTransfer (a b : ActionCoreTransfer) : Prop where
  version : a.version = b.version
  nonce : a.nonce = b.nonce
  gasLimit : a.gasLimit = b.gasLimit
  gasPrice : a.gasPrice.text = b.gasPrice.text
  amount : a.transfer.amount.text = b.transfer.amount.text
  recipient : a.transfer.recipient.text = b.transfer.recipient.text

private theorem sameTransfer_of_message {a b : ActionCoreTransfer} (same : a.message = b.message) :
    SameTransfer a b := by
  simp only [ActionCoreTransfer.message, ActionCore.mk.injEq, Option.some.injEq, ActionMessage.transfer.injEq,
    TransferMessage.mk.injEq, UInt32.toNat_inj, UInt64.toNat_inj] at same
  obtain ⟨version, nonce, gasLimit, gasPrice, -, amount, recipient, -⟩ := same
  exact ⟨version, nonce, gasLimit, gasPrice, amount, recipient⟩

/-- A transfer always fits the array that is signed and can be decoded from it, and no transfer with other
fields is hashed as the same bytes. -/
theorem protobufEncodeTransfer_lossless (transfer : ActionCoreTransfer) :
    (Nanopb.pbEncode (transferCore transfer).fields (Nanopb.pbOstreamFromBuffer 1024)).1 = true ∧
      (∃ encoded, countedBytes (protobufEncodeTransfer transfer 1024) = .ok encoded ∧
        ActionCore.decode? encoded = some transfer.message) ∧
      ∀ other, Account.hashedTransfer other = Account.hashedTransfer transfer → SameTransfer other transfer := by
  obtain ⟨action, bounded, -⟩ := transfer_bounded transfer
  have size := size_eq bounded
  obtain ⟨fits, hashed⟩ := hashedTransfer_eq transfer
  refine ⟨?_, ⟨_, hashed, decode?_transfer transfer⟩, ?_⟩
  · have encoded := transfer_encoded transfer (show transfer.message.cutOff.length ≤ 1024 by omega)
    rw [if_pos fits] at encoded
    rw [encoded]
  · intro other same
    rw [hashed, (hashedTransfer_eq other).2, Except.ok.injEq] at same
    have decoded := decode?_transfer other
    rw [same, decode?_transfer transfer, Option.some.injEq] at decoded
    exact sameTransfer_of_message decoded.symm

/-! ## Canonical bytes -/

/-- The fields that hold no default are among all fields. -/
private theorem fields_sublist {action : ActionMessage} (complete : ActionCore.Complete action) :
    action.fields.Sublist action.allFields := by
  have text (number : ℕ) (body : Bytes) : (textField number body).Sublist [⟨number, .delimited body⟩] := by
    rw [textField]
    split_ifs
    · exact List.nil_sublist _
    · exact List.Sublist.refl _
  cases action with
  | transfer message =>
    obtain ⟨amount, recipient, payload⟩ := message
    obtain rfl : payload = [] := complete
    exact ((text 1 amount).append (text 2 recipient)).append (List.Sublist.refl [])
  | execution message => exact ((text 1 message.amount).append (text 2 message.contract)).append (text 3 message.data)

private theorem writeFields_length_le {a b : List Wire.Field} (sub : a.Sublist b) :
    (Wire.writeFields a).length ≤ (Wire.writeFields b).length := by
  rw [Wire.writeFields_length, Wire.writeFields_length]
  exact (sub.map _).sum_le_sum (by simp)

private theorem fields_eq {core : ActionCore} {action : ActionMessage} (bounded : core.Bounded action)
    (unchained : core.chainID = 0) :
    core.fields = core.numberFields ++ textField 4 core.gasPrice ++
      [⟨action.number, .delimited (Wire.writeFields action.fields)⟩] := by
  rw [ActionCore.fields, bounded.holds, unchained]
  simp [numberField]

private theorem allFields_eq {core : ActionCore} {action : ActionMessage} (bounded : core.Bounded action) :
    core.allFields = core.numberFields ++ [⟨4, .delimited core.gasPrice⟩] ++
      [⟨action.number, .delimited (Wire.writeFields action.allFields)⟩] := by
  rw [ActionCore.allFields, ActionCore.headFields, bounded.holds]
  rfl

/-- The message with all its fields is canonical exactly when nothing is left out of it. -/
private theorem allFields_canonical {core : ActionCore} {action : ActionMessage} (bounded : core.Bounded action)
    (complete : ActionCore.Complete action) (unchained : core.chainID = 0) :
    Wire.writeFields core.allFields = core.canonical ↔ core.gasPrice ≠ [] ∧ action.fields = action.allFields := by
  have sub := fields_sublist complete
  have fields := fields_eq bounded unchained
  have all := allFields_eq bounded
  constructor
  · intro same
    have wellFormed : ∀ field ∈ core.fields, field.WellFormed := by
      intro field member
      have number := ActionCore.number_small action
      rw [fields, List.mem_append, List.mem_append, List.mem_singleton] at member
      rcases member with (member | member) | rfl
      · exact bounded.wellFormed_numberFields field member
      · rw [textField] at member
        split_ifs at member
        · simp at member
        · obtain rfl := List.mem_singleton.mp member
          exact ⟨by norm_num, by norm_num, bounded.gasPrice⟩
      · exact ⟨number.1, lt_trans number.2 (by norm_num), lt_of_le_of_lt (writeFields_length_le sub) bounded.body⟩
    have lists := Wire.writeFields_inj bounded.wellFormed_allFields wellFormed same
    rw [all, fields, List.append_assoc, List.append_assoc, List.append_cancel_left_eq] at lists
    by_cases empty : core.gasPrice = []
    · have lengths := congrArg List.length lists
      simp [textField, empty] at lengths
    · rw [textField, if_neg empty] at lists
      simp only [List.cons_append, List.nil_append, List.cons.injEq, Wire.Field.mk.injEq, Wire.Payload.delimited.injEq,
        true_and, and_true] at lists
      exact ⟨empty, (Wire.writeFields_inj bounded.parts
        (fun field member => bounded.parts field (sub.subset member)) lists).symm⟩
  · rintro ⟨some, same⟩
    rw [ActionCore.canonical, all, fields, same, textField, if_neg some]

private theorem textField_length (number : ℕ) (text : Bytes) :
    (textField number text).length ≤ 1 ∧ ((textField number text).length = 1 ↔ text ≠ []) := by
  rw [textField]
  split_ifs with empty
  · simp [empty]
  · simp [empty]

private theorem transfer_fields (amount recipient : Bytes) :
    (ActionMessage.transfer { amount := amount, recipient := recipient }).fields =
        (ActionMessage.transfer { amount := amount, recipient := recipient }).allFields ↔
          amount ≠ [] ∧ recipient ≠ [] := by
  constructor
  · intro same
    have lengths := congrArg List.length same
    have one := textField_length 1 amount
    have two := textField_length 2 recipient
    have three : (textField 3 []).length = 0 := rfl
    simp only [ActionMessage.fields, ActionMessage.allFields, List.length_append, List.length_cons, List.length_nil,
      three] at lengths
    exact ⟨one.2.mp (by omega), two.2.mp (by omega)⟩
  · rintro ⟨first, second⟩
    rw [ActionMessage.fields, ActionMessage.allFields, textField, if_neg first, textField, if_neg second]
    rfl

private theorem execution_fields (amount contract data : Bytes) :
    (ActionMessage.execution ⟨amount, contract, data⟩).fields =
      (ActionMessage.execution ⟨amount, contract, data⟩).allFields ↔
      amount ≠ [] ∧ contract ≠ [] ∧ data ≠ [] := by
  constructor
  · intro same
    have lengths := congrArg List.length same
    have one := textField_length 1 amount
    have two := textField_length 2 contract
    have three := textField_length 3 data
    simp only [ActionMessage.fields, ActionMessage.allFields, List.length_append,
      List.length_cons, List.length_nil] at lengths
    exact ⟨one.2.mp (by omega), two.2.mp (by omega), three.2.mp (by omega)⟩
  · rintro ⟨first, second, third⟩
    rw [ActionMessage.fields, ActionMessage.allFields, textField, if_neg first, textField, if_neg second, textField,
      if_neg third]
    rfl

private theorem textField_writeFields (number : ℕ) (small : number < 16) (text : Bytes) :
    (Wire.writeFields (textField number text)).length ≤ (Wire.Field.write ⟨number, .delimited text⟩).length ∧
      (Wire.Field.write ⟨number, .delimited text⟩).length ≤ (Wire.writeFields (textField number text)).length + 2 := by
  rw [textField]
  split_ifs with empty
  · rw [empty, Wire.delimited_length number small, List.length_nil, Wire.varint_small (by norm_num)]
    simp [Wire.writeFields]
  · rw [Wire.writeFields, List.flatMap_singleton]
    omega

/-- Leaving out empty fields makes a message only a few bytes shorter. -/
private theorem canonical_length_near {core : ActionCore} {action : ActionMessage} (bounded : core.Bounded action)
    (complete : ActionCore.Complete action) (unchained : core.chainID = 0) :
    core.canonical.length ≤ core.size + 10 ∧ core.size ≤ core.canonical.length + 18 := by
  have number := ActionCore.number_small action
  have shorter := writeFields_length_le (fields_sublist complete)
  have body : (Wire.writeFields action.allFields).length ≤ (Wire.writeFields action.fields).length + 6 := by
    cases action with
    | transfer message =>
      have one := textField_writeFields 1 (by norm_num) message.amount
      have two := textField_writeFields 2 (by norm_num) message.recipient
      simp only [Wire.writeFields] at one two
      simp only [ActionMessage.fields, ActionMessage.allFields, Wire.writeFields, List.flatMap_append,
        List.flatMap_cons, List.flatMap_nil, List.length_append, List.length_nil]
      omega
    | execution message =>
      have one := textField_writeFields 1 (by norm_num) message.amount
      have two := textField_writeFields 2 (by norm_num) message.contract
      have three := textField_writeFields 3 (by norm_num) message.data
      simp only [Wire.writeFields] at one two three
      simp only [ActionMessage.fields, ActionMessage.allFields, Wire.writeFields, List.flatMap_append,
        List.flatMap_cons, List.flatMap_nil, List.length_append, List.length_nil]
      omega
  have gasPrice := textField_writeFields 4 (by norm_num) core.gasPrice
  have short := Wire.varint_length_le 10 (by norm_num) (lt_trans bounded.body (by norm_num))
  have less := lt_of_le_of_lt shorter bounded.body
  have shortToo := Wire.varint_length_le 10 (by norm_num) (lt_trans less (by norm_num))
  have whole := Wire.delimited_length action.number number.2 (Wire.writeFields action.allFields)
  have reduced := Wire.delimited_length action.number number.2 (Wire.writeFields action.fields)
  rw [ActionCore.size, ActionCore.canonical, fields_eq bounded unchained, allFields_eq bounded]
  simp only [Wire.writeFields] at gasPrice body whole reduced short shortToo shorter
  simp only [Wire.writeFields, List.flatMap_append, List.flatMap_singleton, List.length_append]
  omega

/-- What was written is the canonical serialization exactly when nothing is left out of it. -/
private theorem writes_canonical_iff {core : ActionCore} {action : ActionMessage} (bounded : core.Bounded action)
    (complete : ActionCore.Complete action) (unchained : core.chainID = 0) {maxOutSize : ℕ} {result : Bytes × ℤ}
    (writes : Writes maxOutSize result (Wire.writeFields core.allFields)) :
    Writes maxOutSize result core.canonical ↔ core.gasPrice ≠ [] ∧ action.fields = action.allFields := by
  rw [← allFields_canonical bounded complete unchained]
  constructor
  · rintro ⟨-, same⟩
    have near := canonical_length_near bounded complete unchained
    rw [ActionCore.size] at near
    obtain ⟨arrays, counts⟩ := Prod.mk.inj (writes.2.symm.trans same)
    have lengths := toInt32_inj (by omega) (by omega) counts
    exact (List.append_inj arrays lengths).1
  · intro same
    rwa [← same]

/-- The bytes that are written are the canonical serialization exactly when no string or bytes
field is empty. -/
theorem protobufEncode_canonical_iff (maxOutSize : ℕ) :
    (∀ transfer : ActionCoreTransfer, transfer.message.size ≤ maxOutSize →
      (Writes maxOutSize (protobufEncodeTransfer transfer maxOutSize) transfer.message.canonical ↔
        transfer.gasPrice.text ≠ [] ∧ transfer.transfer.amount.text ≠ [] ∧ transfer.transfer.recipient.text ≠ [])) ∧
    (∀ (execution : ActionCoreExecution) (data : Bytes), unhex? execution.execution.data.text = some data →
      (execution.message data).size ≤ maxOutSize →
      ((∃ result, protobufEncodeExecution execution maxOutSize = .ok result ∧
          Writes maxOutSize result (execution.message data).canonical) ↔
        execution.gasPrice.text ≠ [] ∧ execution.execution.amount.text ≠ [] ∧ execution.execution.contract.text ≠ [] ∧
          data ≠ [])) := by
  constructor
  · intro transfer fits
    obtain ⟨action, bounded, complete⟩ := transfer_bounded transfer
    obtain rfl := Option.some.inj bounded.holds
    rw [writes_canonical_iff bounded complete rfl (protobufEncodeTransfer_writes transfer fits), transfer_fields]
    rfl
  · intro execution data digits fits
    obtain rfl := Execution.bytes_of_hex digits
    obtain ⟨action, bounded, complete, -⟩ := execution_bounded execution (bytes_addressable execution.execution)
    obtain rfl := Option.some.inj bounded.holds
    obtain ⟨result, encoded, writes⟩ := protobufEncodeExecution_writes_all execution fits
    simp only [encoded, Except.ok.injEq, exists_eq_left']
    rw [writes_canonical_iff bounded complete rfl writes, execution_fields]
    rfl

namespace Payment

/-- A payment of one unit. -/
def transfer : ActionCoreTransfer where
  version := 1
  nonce := 10
  gasLimit := 1000000
  gasPrice := ⟨ascii "1", by decide, by decide⟩
  chainId := 0
  transfer := {
    amount := ⟨ascii "1", by decide, by decide⟩
    recipient := ⟨ascii "io1w9kv3v2zg9gsmmv2fy6hc5ws3hsn7j7c9dcl4q", by decide, by decide⟩
    payload := .empty
  }

end Payment

/-- A payment and a call with data are written canonically. -/
theorem payment_call_canonical :
    Writes 1024 (protobufEncodeTransfer Payment.transfer 1024) Payment.transfer.message.canonical ∧
      ∃ result, protobufEncodeExecution (LongCall.execution 49 4) 1024 = .ok result ∧
        Writes 1024 result ((LongCall.execution 49 4).message [0x11, 0x11, 0x11, 0x11]).canonical := by
  obtain ⟨transfers, executions⟩ := protobufEncode_canonical_iff 1024
  constructor
  · exact (transfers Payment.transfer (by decide)).mpr (by decide)
  · exact (executions (LongCall.execution 49 4) [0x11, 0x11, 0x11, 0x11] (by decide) (by decide)).mpr (by decide)

/-- A call without data is written with an empty bytes field at its end. -/
theorem emptyData_not_canonical :
    ¬∃ result, protobufEncodeExecution (LongCall.execution 49 0) 1024 = .ok result ∧
      Writes 1024 result ((LongCall.execution 49 0).message []).canonical := by
  have empty : (LongCall.execution 49 0).execution.bytes = [] := by decide
  have fits : ((LongCall.execution 49 0).message []).size ≤ 1024 := by decide
  obtain ⟨written, encoded, whole⟩ := protobufEncodeExecution_writes_all (LongCall.execution 49 0) (empty.symm ▸ fits)
  rw [empty] at whole
  rintro ⟨result, same, canonical⟩
  obtain rfl := Except.ok.inj (encoded.symm.trans same)
  have counts := (Prod.mk.inj (whole.2.symm.trans canonical.2)).2
  exact absurd counts (by decide)

end Iotex
