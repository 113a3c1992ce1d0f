import Iotex.Lib.JsonRules
import Iotex.Model.Rpc
import Iotex.Spec.ActionJson

/-! # The bodies of requests

The base64 text of the bundled library is the standard one, a sequence of `sprintf` calls with
enough room concatenates its pieces, and the two bodies are JSON texts whose members are the fields
of the action core.
-/

namespace Iotex

open Spec Json

/-! ## Base64 -/

namespace Base64Library

private theorem digit_eq (value : Fin 64) : bintodigit.getD value.val 0 = Base64.sextetChar value.val := by
  revert value
  decide

theorem get0_eq (a : UInt8) : get0 a = Base64.sextetChar (a.toNat / 4) := by
  have bound := a.toNat_lt
  have index : (a >>> 2).toNat = a.toNat / 4 := by
    rw [UInt8.toNat_shiftRight]
    change a.toNat >>> 2 = _
    rw [Nat.shiftRight_eq_div_pow]
  rw [get0, index]
  exact digit_eq ⟨a.toNat / 4, by omega⟩

theorem get1_eq (a b : UInt8) : get1 a b = Base64.sextetChar (a.toNat % 4 * 16 + b.toNat / 16) := by
  have bound := b.toNat_lt
  have index : ((a &&& 3) <<< 4 ||| b >>> 4).toNat = a.toNat % 4 * 16 + b.toNat / 16 := by
    rw [UInt8.toNat_or, UInt8.toNat_shiftLeft, UInt8.toNat_and, UInt8.toNat_shiftRight]
    change (a.toNat &&& (2 ^ 2 - 1)) <<< 4 % 2 ^ 8 ||| b.toNat >>> 4 = _
    rw [Nat.and_two_pow_sub_one_eq_mod, Nat.shiftRight_eq_div_pow,
      Nat.mod_eq_of_lt (by rw [Nat.shiftLeft_eq]; omega), ← Nat.shiftLeft_add_eq_or_of_lt (by omega), Nat.shiftLeft_eq]
  rw [get1, index]
  exact digit_eq ⟨_, by omega⟩

theorem get2_eq (b c : UInt8) : get2 b c = Base64.sextetChar (b.toNat % 16 * 4 + c.toNat / 64) := by
  have bound := c.toNat_lt
  have index : ((b &&& 15) <<< 2 ||| c >>> 6).toNat = b.toNat % 16 * 4 + c.toNat / 64 := by
    rw [UInt8.toNat_or, UInt8.toNat_shiftLeft, UInt8.toNat_and, UInt8.toNat_shiftRight]
    change (b.toNat &&& (2 ^ 4 - 1)) <<< 2 % 2 ^ 8 ||| c.toNat >>> 6 = _
    rw [Nat.and_two_pow_sub_one_eq_mod, Nat.shiftRight_eq_div_pow,
      Nat.mod_eq_of_lt (by rw [Nat.shiftLeft_eq]; omega), ← Nat.shiftLeft_add_eq_or_of_lt (by omega), Nat.shiftLeft_eq]
  rw [get2, index]
  exact digit_eq ⟨_, by omega⟩

theorem get3_eq (c : UInt8) : get3 c = Base64.sextetChar (c.toNat % 64) := by
  have index : (c &&& 0x3f).toNat = c.toNat % 64 := by
    rw [UInt8.toNat_and]
    exact Nat.and_two_pow_sub_one_eq_mod _ 6
  rw [get3, index]
  exact digit_eq ⟨_, by omega⟩

/-- The bundled encoder writes standard base64. -/
theorem bintob64_eq (data : Bytes) : bintob64 data = Base64.encode data := by
  induction data using Base64.encode.induct with
  | case1 => rfl
  | case2 a =>
    rw [bintob64, Base64.encode, get0_eq, get1_eq]
    rfl
  | case3 a b =>
    rw [bintob64, Base64.encode, get0_eq, get1_eq, get2_eq]
    rfl
  | case4 a b c rest ih => rw [bintob64, Base64.encode, get0_eq, get1_eq, get2_eq, get3_eq, ih]

end Base64Library

theorem base64Encode_eq {capacity : ℕ} {data : Bytes} (room : 4 * blocks 3 data.length < capacity) :
    Encoder.base64Encode capacity data = .ok (Base64.encode data) := by
  rw [Encoder.base64Encode, Base64Library.bintob64_eq, Base64.encode_length, if_pos room]

/-- The text that fits an array. -/
theorem base64Encode_ok {capacity : ℕ} {data text : Bytes} (encoded : Encoder.base64Encode capacity data = .ok text) :
    text = Base64.encode data := by
  rw [Encoder.base64Encode, Base64Library.bintob64_eq] at encoded
  split_ifs at encoded
  exact (Except.ok.inj encoded).symm

/-! ## Printing -/

/-- With enough room the pieces are printed one behind the other. -/
theorem sprintf_pieces {pieces : List Bytes} {capacity : ℕ} {body : Bytes}
    (room : body.length + pieces.flatten.length < capacity) :
    pieces.foldlM (Rpc.sprintf capacity) body = .ok (body ++ pieces.flatten) := by
  induction pieces generalizing body with
  | nil => simp
  | cons piece rest ih =>
    rw [List.flatten_cons, List.length_append] at room
    rw [List.foldlM_cons, Rpc.sprintf, if_pos (by omega), ok_bind, ih (by rw [List.length_append]; omega),
      List.flatten_cons, List.append_assoc]

/-- What was printed are the pieces one behind the other. -/
theorem sprintf_printed {pieces : List Bytes} {capacity : ℕ} {body text : Bytes}
    (printed : pieces.foldlM (Rpc.sprintf capacity) body = .ok text) : text = body ++ pieces.flatten := by
  induction pieces generalizing body with
  | nil => simpa using (Except.ok.inj printed).symm
  | cons piece rest ih =>
    rw [List.foldlM_cons] at printed
    obtain ⟨next, first, printed⟩ := bind_eq_ok.mp printed
    rw [Rpc.sprintf] at first
    split_ifs at first
    rw [ih printed, ← Except.ok.inj first, List.flatten_cons, List.append_assoc]

/-- With enough room for all pieces there is enough after each of them. -/
theorem sprintf_steps {pieces : List Bytes} {capacity : ℕ} (room : pieces.flatten.length < capacity) (steps : ℕ) :
    (pieces.take steps).foldlM (Rpc.sprintf capacity) [] = .ok (pieces.take steps).flatten ∧
      (pieces.take steps).flatten.length < capacity := by
  have shorter : (pieces.take steps).flatten.length ≤ pieces.flatten.length :=
    ((List.take_sublist steps pieces).flatten).length_le
  refine ⟨?_, by omega⟩
  rw [sprintf_pieces (by rw [List.length_nil]; omega), List.nil_append]

/-! ## Members -/

theorem plain_base64 (data : Bytes) : PlainText (Base64.encode data) := by
  intro char member
  rcases Base64.mem_encode member with ⟨value, bound, rfl⟩ | rfl
  · have all : ∀ value : Fin 64, isPlain (Base64.sextetChar value.val) = true := by decide
    exact all ⟨value, bound⟩
  · decide

theorem uintOf?_num {bits value : ℕ} (bound : value < 2 ^ bits) : uintOf? bits (.num value 0) = some value := by
  simp [uintOf?, natOf?, bound]

theorem uintOf?_negative {bits value : ℕ} (positive : 0 < value) : uintOf? bits (.num (-value) 0) = none := by
  have below : ¬(0 : ℤ) ≤ -(value : ℤ) := by omega
  simp only [uintOf?, natOf?, below, false_and, ↓reduceIte, Option.filter_none]

theorem uintOf?_decimal {bits value : ℕ} (bound : value < 2 ^ bits) :
    uintOf? bits (.str (decimal value)) = some value := by
  have digits : (decimal value).all isDigit = true := List.all_eq_true.mpr (isDigit_decimal value)
  simp [uintOf?, natOf?, decimal_ne_nil, digits, decimalValue_decimal, bound]

/-! ## The bodies -/

/-- The request around an action core. -/
def requestOf (core : Json) (base64PublicKey base64Signature : Bytes) : Json :=
  .obj [(ascii "action", .obj [(ascii "core", core), (ascii "senderPubKey", .str base64PublicKey),
    (ascii "signature", .str base64Signature), (ascii "encoding", .str (ascii "IOTEX_PROTOBUF"))])]

theorem describedCore?_request {body : Bytes} {core : Json} {base64PublicKey base64Signature : Bytes}
    (parsed : parse body = some (requestOf core base64PublicKey base64Signature)) :
    describedCore? body = coreOf? core := by
  rw [describedCore?, parsed]
  rfl

/-- The members that both kinds of core begin with. -/
def coreMembers (version nonce gasLimit : ℕ) (gasPrice : Bytes) (rest : List (Bytes × Json)) : List (Bytes × Json) :=
  (ascii "version", .num version 0) :: (ascii "nonce", .str (decimal nonce)) ::
    (ascii "gasLimit", .str (decimal gasLimit)) :: (ascii "gasPrice", .str gasPrice) :: rest

/-- The text of the request around an action core. -/
private theorem reads_request {coreText base64PublicKey base64Signature : Bytes} {core : Json}
    (reads : Reads coreText core)
    (plainKey : PlainText base64PublicKey) (plainSignature : PlainText base64Signature) :
    Reads (ascii "\x7b\"action\": \x7b\"core\": " ++ (coreText ++ (ascii ",\"senderPubKey\": \"" ++ (base64PublicKey ++
        (ascii "\"" ++ (ascii ",\"signature\": \"" ++ (base64Signature ++
          ascii "\",\"encoding\": \"IOTEX_PROTOBUF\"\x7d\x7d")))))))
      (requestOf core base64PublicKey base64Signature) := by
  have action := Reads.obj (ReadsMembers.cons (ascii "core") (by decide) reads.space
    (ReadsMembers.text (ascii "senderPubKey") (by decide) plainKey
      (ReadsMembers.text (ascii "signature") (by decide) plainSignature
        (ReadsMembers.lastText (ascii "encoding") (ascii "IOTEX_PROTOBUF") (by decide) (by decide)))))
  have request := Reads.obj (ReadsMembers.last (ascii "action") (by decide) action.space)
  convert request using 1
  · simp only [List.append_assoc, List.cons_append, List.nil_append]
    rfl
  · rfl

/-- The same members around a version of any sign. -/
def coreMembersOf (version : Json) (nonce gasLimit : ℕ) (gasPrice : Bytes) (rest : List (Bytes × Json)) :
    List (Bytes × Json) :=
  (ascii "version", version) :: (ascii "nonce", .str (decimal nonce)) ::
    (ascii "gasLimit", .str (decimal gasLimit)) :: (ascii "gasPrice", .str gasPrice) :: rest

/-- The text of a core up to its gas price, and the other members. -/
private theorem reads_core {versionText : Bytes} {version : Json} (readsVersion : Reads versionText version)
    (nonce gasLimit : ℕ) {gasPrice more : Bytes} {rest : List (Bytes × Json)} (plain : PlainText gasPrice)
    (others : ReadsMembers more rest) :
    Reads (ascii "\x7b\"version\": " ++ (versionText ++ (ascii ",\"nonce\": \"" ++ (decimal nonce ++
        (ascii "\",\"gasLimit\": \"" ++ (decimal gasLimit ++ (ascii "\",\"gasPrice\": \"" ++ (gasPrice ++
          (ascii "\"" ++ (ascii "," ++ more))))))))))
      (.obj (coreMembersOf version nonce gasLimit gasPrice rest)) := by
  have core := Reads.obj (ReadsMembers.cons (ascii "version") (by decide) readsVersion.space
    (ReadsMembers.text (ascii "nonce") (by decide) (plain_digits (isDigit_decimal nonce))
      (ReadsMembers.text (ascii "gasLimit") (by decide) (plain_digits (isDigit_decimal gasLimit))
        (ReadsMembers.text (ascii "gasPrice") (by decide) plain others))))
  convert core using 1
  · simp only [List.append_assoc, List.cons_append, List.nil_append]
    rfl
  · rfl

/-- The body of a transfer, for any text of its version and its chain ID. -/
theorem reads_transferRequest (transfer : ActionCoreTransfer) {base64PublicKey base64Signature : Bytes}
    {version chainID : Json} (readsVersion : Reads (formatD transfer.version) version)
    (reads : Reads (formatD transfer.chainId) chainID)
    (gasPrice : PlainText transfer.gasPrice.text) (amount : PlainText transfer.transfer.amount.text)
    (recipient : PlainText transfer.transfer.recipient.text) (plainKey : PlainText base64PublicKey)
    (plainSignature : PlainText base64Signature) :
    Reads (Rpc.transferPieces transfer base64PublicKey base64Signature).flatten
      (requestOf (.obj (coreMembersOf version transfer.nonce.toNat transfer.gasLimit.toNat
        transfer.gasPrice.text [(ascii "chainID", chainID), (ascii "transfer", .obj [
          (ascii "amount", .str transfer.transfer.amount.text),
          (ascii "recipient", .str transfer.transfer.recipient.text),
          (ascii "payload", .str [])])])) base64PublicKey base64Signature) := by
  have body := Reads.obj (ReadsMembers.text (ascii "amount") (by decide) amount
    (ReadsMembers.text (ascii "recipient") (by decide) recipient
      (ReadsMembers.lastText (ascii "payload") [] (by decide) (by decide))))
  have core := reads_core readsVersion transfer.nonce.toNat transfer.gasLimit.toNat gasPrice
    (ReadsMembers.cons (ascii "chainID") (by decide) reads.space
      (ReadsMembers.last (ascii "transfer") (by decide) body))
  have request := reads_request core plainKey plainSignature
  convert request using 1
  simp only [Rpc.transferPieces, List.flatten_cons, List.flatten_nil, List.append_nil, List.append_assoc,
    List.cons_append, List.nil_append]
  rfl

/-- The body of a transfer whose version prints without a sign. -/
theorem reads_transferBody (transfer : ActionCoreTransfer) {base64PublicKey base64Signature : Bytes} {chainID : Json}
    (small : transfer.version.toNat < 2 ^ 31) (reads : Reads (formatD transfer.chainId) chainID)
    (gasPrice : PlainText transfer.gasPrice.text) (amount : PlainText transfer.transfer.amount.text)
    (recipient : PlainText transfer.transfer.recipient.text) (plainKey : PlainText base64PublicKey)
    (plainSignature : PlainText base64Signature) :
    Reads (Rpc.transferPieces transfer base64PublicKey base64Signature).flatten
      (requestOf (.obj (coreMembers transfer.version.toNat transfer.nonce.toNat transfer.gasLimit.toNat
        transfer.gasPrice.text [(ascii "chainID", chainID), (ascii "transfer", .obj [
          (ascii "amount", .str transfer.transfer.amount.text),
          (ascii "recipient", .str transfer.transfer.recipient.text),
          (ascii "payload", .str [])])])) base64PublicKey base64Signature) := by
  have version := Reads.decimal transfer.version.toNat
  rw [← formatD_of_lt small] at version
  exact reads_transferRequest transfer version reads gasPrice amount recipient plainKey plainSignature

/-- The body of an execution, for any text of its version. -/
theorem reads_executionRequest (execution : ActionCoreExecution) {base64Data base64PublicKey base64Signature : Bytes}
    {version : Json} (readsVersion : Reads (formatD execution.version) version)
    (gasPrice : PlainText execution.gasPrice.text) (amount : PlainText execution.execution.amount.text)
    (contract : PlainText execution.execution.contract.text) (plainData : PlainText base64Data)
    (plainKey : PlainText base64PublicKey) (plainSignature : PlainText base64Signature) :
    Reads (Rpc.executionPieces execution base64Data base64PublicKey base64Signature).flatten
      (requestOf (.obj (coreMembersOf version execution.nonce.toNat execution.gasLimit.toNat
        execution.gasPrice.text [(ascii "execution", .obj [(ascii "amount", .str execution.execution.amount.text),
          (ascii "contract", .str execution.execution.contract.text), (ascii "data", .str base64Data)])]))
        base64PublicKey base64Signature) := by
  have body := Reads.obj (ReadsMembers.text (ascii "amount") (by decide) amount
    (ReadsMembers.text (ascii "contract") (by decide) contract
      (ReadsMembers.lastText (ascii "data") _ (by decide) plainData)))
  have core := reads_core readsVersion execution.nonce.toNat execution.gasLimit.toNat gasPrice
    (ReadsMembers.last (ascii "execution") (by decide) body)
  have request := reads_request core plainKey plainSignature
  convert request using 1
  simp only [Rpc.executionPieces, List.flatten_cons, List.flatten_nil, List.append_nil, List.append_assoc,
    List.cons_append, List.nil_append]
  rfl

/-- The body of an execution whose version prints without a sign. -/
theorem reads_executionBody (execution : ActionCoreExecution) {base64Data base64PublicKey base64Signature : Bytes}
    (small : execution.version.toNat < 2 ^ 31) (gasPrice : PlainText execution.gasPrice.text)
    (amount : PlainText execution.execution.amount.text) (contract : PlainText execution.execution.contract.text)
    (plainData : PlainText base64Data) (plainKey : PlainText base64PublicKey)
    (plainSignature : PlainText base64Signature) :
    Reads (Rpc.executionPieces execution base64Data base64PublicKey base64Signature).flatten
      (requestOf (.obj (coreMembers execution.version.toNat execution.nonce.toNat execution.gasLimit.toNat
        execution.gasPrice.text [(ascii "execution", .obj [(ascii "amount", .str execution.execution.amount.text),
          (ascii "contract", .str execution.execution.contract.text), (ascii "data", .str base64Data)])]))
        base64PublicKey base64Signature) := by
  have version := Reads.decimal execution.version.toNat
  rw [← formatD_of_lt small] at version
  exact reads_executionRequest execution version gasPrice amount contract plainData plainKey plainSignature

/-! ## What the bodies describe -/

/-- The members that both kinds of core begin with are read back. -/
private theorem coreOf?_members {version nonce gasLimit : ℕ} {gasPrice : Bytes} {rest : List (Bytes × Json)}
    (boundVersion : version < 2 ^ 32) (boundNonce : nonce < 2 ^ 64) (boundGasLimit : gasLimit < 2 ^ 64) :
    coreOf? (.obj (coreMembers version nonce gasLimit gasPrice rest)) = (do
      let chainID ← memberOf? (.obj (coreMembers version nonce gasLimit gasPrice rest)) (ascii "chainID") (uintOf? 32) 0
      let action ← actionOf? (.obj (coreMembers version nonce gasLimit gasPrice rest))
      some { version := version, nonce := nonce, gasLimit := gasLimit, gasPrice := gasPrice, chainID := chainID,
             action := action }) := by
  have one : memberOf? (.obj (coreMembers version nonce gasLimit gasPrice rest)) (ascii "version") (uintOf? 32) 0 =
      some version := uintOf?_num boundVersion
  have two : memberOf? (.obj (coreMembers version nonce gasLimit gasPrice rest)) (ascii "nonce") (uintOf? 64) 0 =
      some nonce := uintOf?_decimal boundNonce
  have three : memberOf? (.obj (coreMembers version nonce gasLimit gasPrice rest)) (ascii "gasLimit") (uintOf? 64) 0 =
      some gasLimit := uintOf?_decimal boundGasLimit
  have four : memberOf? (.obj (coreMembers version nonce gasLimit gasPrice rest)) (ascii "gasPrice") textOf? [] =
      some gasPrice := rfl
  rw [coreOf?, one, two, three, four]
  rfl

/-- The core that a transfer's members describe, as far as its chain ID can be read. -/
theorem coreOf?_transfer (transfer : ActionCoreTransfer) (chainID : Json) (present : chainID ≠ .null) :
    coreOf? (.obj (coreMembers transfer.version.toNat transfer.nonce.toNat transfer.gasLimit.toNat
      transfer.gasPrice.text [(ascii "chainID", chainID), (ascii "transfer", .obj [
        (ascii "amount", .str transfer.transfer.amount.text),
        (ascii "recipient", .str transfer.transfer.recipient.text),
        (ascii "payload", .str [])])])) =
      (uintOf? 32 chainID).map fun chainID => { transfer.message with chainID := chainID } := by
  rw [coreOf?_members transfer.version.toNat_lt transfer.nonce.toNat_lt transfer.gasLimit.toNat_lt]
  have read : memberOf? (.obj (coreMembers transfer.version.toNat transfer.nonce.toNat transfer.gasLimit.toNat
      transfer.gasPrice.text [(ascii "chainID", chainID), (ascii "transfer", .obj [
        (ascii "amount", .str transfer.transfer.amount.text),
        (ascii "recipient", .str transfer.transfer.recipient.text),
        (ascii "payload", .str [])])])) (ascii "chainID") (uintOf? 32) 0 = uintOf? 32 chainID := by
    cases chainID with
    | null => exact absurd rfl present
    | _ => rfl
  rw [read]
  cases uintOf? 32 chainID <;> rfl

theorem coreOf?_execution (execution : ActionCoreExecution) (data : Bytes) :
    coreOf? (.obj (coreMembers execution.version.toNat execution.nonce.toNat execution.gasLimit.toNat
      execution.gasPrice.text [(ascii "execution", .obj [(ascii "amount", .str execution.execution.amount.text),
        (ascii "contract", .str execution.execution.contract.text), (ascii "data", .str (Base64.encode data))])])) =
      some (execution.message data) := by
  have read : memberOf? (.obj [(ascii "amount", .str execution.execution.amount.text),
      (ascii "contract", .str execution.execution.contract.text), (ascii "data", .str (Base64.encode data))])
      (ascii "data") bytesOf? [] = some data := Base64.decode?_encode data
  have message : executionOf? (.obj [(ascii "amount", .str execution.execution.amount.text),
      (ascii "contract", .str execution.execution.contract.text), (ascii "data", .str (Base64.encode data))]) =
      some ⟨execution.execution.amount.text, execution.execution.contract.text, data⟩ := by
    rw [executionOf?, read]
    rfl
  have action : actionOf? (.obj (coreMembers execution.version.toNat execution.nonce.toNat execution.gasLimit.toNat
      execution.gasPrice.text [(ascii "execution", .obj [(ascii "amount", .str execution.execution.amount.text),
        (ascii "contract", .str execution.execution.contract.text), (ascii "data", .str (Base64.encode data))])])) =
      some (some (.execution ⟨execution.execution.amount.text, execution.execution.contract.text, data⟩)) :=
    congrArg (Option.map fun message => some (ActionMessage.execution message)) message
  rw [coreOf?_members execution.version.toNat_lt execution.nonce.toNat_lt execution.gasLimit.toNat_lt, action]
  rfl

end Iotex
