import Iotex.Proofs.Extractions
import Iotex.Soundness.HexReading
import Iotex.Soundness.RequestBuffers

/-! # The hash of a sent action

The calls that send an action drop the result of converting the response's hash, so they report a
success for any text that fits the response. The caller's array holds the hash of the response
exactly when the text is made of sixty-four digits and the request could be put together.
-/

namespace Iotex

open Spec

/-- The text that a response body gives as the hash of the action. -/
def actionHashText? (cJSON_Parse : CJsonParse) (rspBody : Bytes) : Option Bytes :=
  (cJSON_Parse (cString rspBody)).bind fun body => charsOf? (body.get? (ascii "actionHash"))

/-- One request is posted. A success leaves the bytes of the sixty-four digits of its response in the
caller's array, and an error leaves the array alone. -/
def TrueHash (post : HttpPost) (cJSON_Parse : CJsonParse) (hash : Vector UInt8 32) (result : Exec Sent) : Prop :=
  ∃ sent callData, result = .ok sent ∧ sent.posts = [callData] ∧
    (sent.ret = .success → ∃ text, actionHashText? cJSON_Parse (post.reply callData).2 = some text ∧
      text.length = 64 ∧ unhex? text = some sent.hash) ∧
    (sent.ret ≠ .success → sent.hash = hash.toList)

/-- The request failed, or the response gives no text that fits, or sixty-four digits. -/
def HashReadable (cJSON_Parse : CJsonParse) (reply : ResultCode × Bytes) : Prop :=
  reply.1 ≠ .success ∨ ∀ text, actionHashText? cJSON_Parse reply.2 = some text → text.length ≤ 64 →
    text.length = 64 ∧ (unhex? text).isSome

/-- The arrays for the data of an execution have room for the bytes that are converted from it and for
their base64 text: there are three bytes or at least five, and no unpaired digit behind them. -/
def DataFits (data : Bytes) : Prop :=
  (data.length / 2 = 3 ∨ 5 ≤ data.length / 2) ∧
    ¬((behindPrefix data).length = 2 * (data.length / 2) + 1 ∧ ∀ c ∈ behindPrefix data, isLetterOrDigit c = true)

section

variable (post : HttpPost) (cJSON_Parse : CJsonParse)

/-! ## The response -/

/-- A text that fits is the C string in the array of the response. -/
theorem sendExecutionResponse_read {rspBody text : Bytes} (given : actionHashText? cJSON_Parse rspBody = some text)
    (fits : text.length ≤ 64) (response : SendExecutionResponse) :
    ∃ left, response.fromJson cJSON_Parse rspBody = .ok (.success, left) ∧ readString left.hash = .ok text := by
  obtain ⟨body, parsed, found⟩ := Option.bind_eq_some_iff.mp given
  have named : getObjectItem body (ascii "actionHash") = body.get? (ascii "actionHash") := rfl
  rw [← named] at found
  rw [SendExecutionResponse.fromJson, parsed]
  dsimp only
  generalize getObjectItem body (ascii "actionHash") = json at found
  obtain ⟨value, rfl, rfl⟩ : ∃ value, json = some (.str value) ∧ cString value = text := by
    cases json with
    | none => simp [charsOf?] at found
    | some value =>
      cases value with
      | str chars => exact ⟨chars, rfl, Option.some.inj found⟩
      | _ => simp [charsOf?] at found
  have short : ¬(0 < 64 ∧ 64 < (cString value).length) := by omega
  have room : ¬(cleared 65).length < (cString value).length := by
    rw [cleared, cells_length, List.length_replicate]
    omega
  obtain ⟨rest, zeros⟩ : ∃ rest, 65 - (cString value).length = rest + 1 := ⟨64 - (cString value).length, by omega⟩
  have ends : (cleared 65).drop (cString value).length = some 0 :: cells (List.replicate rest 0) := by
    rw [cleared, cells, ← List.map_drop, List.drop_replicate, zeros, List.replicate_succ]
    rfl
  rw [setCStringFromJsonObject, if_neg short, if_neg room, ends]
  exact ⟨_, rfl, readString_terminated (cString_noNul value) _⟩

/-- Without such a text the parser fails. -/
theorem sendExecutionResponse_refused {rspBody : Bytes}
    (unfit : ∀ text, actionHashText? cJSON_Parse rspBody = some text → 64 < text.length)
    (response : SendExecutionResponse) :
    ∃ left, response.fromJson cJSON_Parse rspBody = .ok (.errorJsonParse, left) := by
  rw [SendExecutionResponse.fromJson]
  cases parsed : cJSON_Parse (cString rspBody) with
  | none => exact ⟨_, rfl⟩
  | some body =>
    have text (chars : Bytes) (found : charsOf? (getObjectItem body (ascii "actionHash")) = some chars) :
        64 < chars.length := unfit chars (by rw [actionHashText?, parsed]; exact found)
    dsimp only
    generalize getObjectItem body (ascii "actionHash") = json at text
    cases json with
    | none => exact ⟨_, rfl⟩
    | some value =>
      cases value with
      | str chars =>
        have long : 0 < 64 ∧ 64 < (cString chars).length := ⟨by omega, text _ rfl⟩
        rw [setCStringFromJsonObject, if_pos long]
        exact ⟨_, rfl⟩
      | _ => exact ⟨_, rfl⟩

/-! ## The calls -/

/-- The part that the calls share, on a reply to their request: the converted text is written to the
array whether or not its conversion succeeded. -/
theorem sendAction_eq {callData : RpcCallData} {ret : ResultCode} {rspBody : Bytes}
    (replied : post.reply callData = (ret, rspBody)) (hash : Bytes) :
    Wallets.sendAction post cJSON_Parse callData hash =
      if ret ≠ .success then .ok ⟨ret, hash, [callData]⟩
      else
        match actionHashText? cJSON_Parse rspBody with
        | some text =>
          if text.length ≤ 64 then do
            let hash ← Encoder.overwrite hash (Signer.str2hex text 32).2
            return ⟨.success, hash, [callData]⟩
          else .ok ⟨.errorJsonParse, hash, [callData]⟩
        | none => .ok ⟨.errorJsonParse, hash, [callData]⟩ := by
  rw [HttpPost.reply] at replied
  rw [Wallets.sendAction, replied]
  dsimp only
  by_cases posted : ret = .success
  · rw [if_neg (not_not.mpr posted), if_neg (not_not.mpr posted)]
    cases given : actionHashText? cJSON_Parse rspBody with
    | none =>
      have unfit (text : Bytes) (found : actionHashText? cJSON_Parse rspBody = some text) : 64 < text.length := by
        simp [given] at found
      obtain ⟨left, parsed⟩ := sendExecutionResponse_refused cJSON_Parse unfit .declared
      rw [parsed]
      rfl
    | some text =>
      dsimp only
      by_cases fits : text.length ≤ 64
      · obtain ⟨left, parsed, read⟩ := sendExecutionResponse_read cJSON_Parse given fits .declared
        rw [parsed, ok_bind, if_pos fits]
        dsimp only
        rw [if_neg (by simp), read, ok_bind]
      · have unfit (other : Bytes) (found : actionHashText? cJSON_Parse rspBody = some other) : 64 < other.length := by
          obtain rfl := Option.some.inj (given.symm.trans found)
          omega
        obtain ⟨left, parsed⟩ := sendExecutionResponse_refused cJSON_Parse unfit .declared
        rw [parsed, if_neg fits]
        rfl
  · rw [if_pos posted, if_pos posted]
    rfl

/-- The part that the calls share is right about the hash exactly when the reply is readable. -/
theorem sendAction_trueHash_iff (callData : RpcCallData) (hash : Vector UInt8 32) :
    TrueHash post cJSON_Parse hash (Wallets.sendAction post cJSON_Parse callData hash.toList) ↔
      HashReadable cJSON_Parse (post.reply callData) := by
  rcases replied : post.reply callData with ⟨ret, rspBody⟩
  rw [sendAction_eq post cJSON_Parse replied, HashReadable]
  by_cases posted : ret = .success
  · rw [if_neg (by simpa using posted), or_iff_right (by simpa using posted)]
    cases given : actionHashText? cJSON_Parse rspBody with
    | none =>
      apply iff_of_true
      · exact ⟨_, callData, rfl, rfl, fun success => by simp at success, fun _ => rfl⟩
      · simp
    | some text =>
      by_cases fits : text.length ≤ 64
      · simp only [fits, ↓reduceIte, Option.some.injEq, forall_eq', forall_const]
        constructor
        · rintro ⟨sent, posted, returned, once, digits, -⟩
          obtain ⟨written, -, same⟩ := bind_eq_ok.mp returned
          obtain rfl := Except.ok.inj same
          obtain rfl := List.singleton_inj.mp once
          obtain ⟨other, found, length, read⟩ := digits rfl
          rw [replied] at found
          obtain rfl := Option.some.inj (given.symm.trans found)
          exact ⟨length, Option.isSome_iff_exists.mpr ⟨_, read⟩⟩
        · rintro ⟨length, digits⟩
          obtain ⟨digest, read⟩ := Option.isSome_iff_exists.mp digits
          have count := unhex?_length read
          refine ⟨⟨.success, digest, [callData]⟩, callData, ?_, rfl, fun _ => ⟨text, ?_, length, read⟩,
            fun failed => absurd rfl failed⟩
          · have covered : hash.toList.drop digest.length = [] := by
              rw [List.drop_eq_nil_iff, Vector.length_toList]
              omega
            have inside : digest.length ≤ hash.toList.length := by
              rw [Vector.length_toList]
              omega
            rw [Signer.str2hex_hex read (by omega), Encoder.overwrite, if_pos inside, ok_bind, covered,
              List.append_nil, pure_eq_ok]
          · rw [replied]
            exact given
      · apply iff_of_true
        · simp only [fits, ↓reduceIte]
          exact ⟨_, callData, rfl, rfl, fun success => by simp at success, fun _ => rfl⟩
        · simp [fits]
  · apply iff_of_true
    · rw [if_pos posted]
      exact ⟨_, callData, rfl, rfl, fun success => absurd success posted, fun _ => rfl⟩
    · exact .inl posted

/-- The arrays that are declared have room for the data that fits. -/
theorem dataFits_iff (data : Bytes) :
    DataFits data ↔ (Signer.str2hex data (data.length / 2)).2.length ≤ data.length / 2 ∧
      4 * blocks 3 (data.length / 2) < 2 * (data.length / 2) := by
  rw [DataFits, str2hex_inside_iff, doubled_iff, and_comm]

/-- The calls that send an action are right about its hash exactly when the request of an execution can
be put together and the reply to the request is readable. -/
theorem sendActions_trueHash_iff (host : Bytes) (senderPubKey signature : Vector UInt8 65)
    (transfer : ActionCoreTransfer) (execution : ActionCoreExecution) (hash : Vector UInt8 32) :
    (TrueHash post cJSON_Parse hash
        (Wallets.sendTokenTransfer post cJSON_Parse host senderPubKey signature transfer hash.toList) ↔
      HashReadable cJSON_Parse (post.reply (transferCallData host transfer senderPubKey signature))) ∧
    (TrueHash post cJSON_Parse hash
        (Wallets.sendExecution post cJSON_Parse host senderPubKey signature execution hash.toList) ↔
      DataFits execution.execution.data.text ∧
        HashReadable cJSON_Parse (post.reply (executionCallData host execution senderPubKey signature))) := by
  constructor
  · rw [Wallets.sendTokenTransfer, sendTokenTransfer_eq, ok_bind]
    exact sendAction_trueHash_iff post cJSON_Parse _ hash
  · rw [dataFits_iff]
    constructor
    · rintro ⟨sent, posted, returned, rest⟩
      obtain ⟨callData, built, shared⟩ := bind_eq_ok.mp returned
      obtain ⟨rfl, -⟩ := sendExecution_returned built
      exact ⟨room_of_sendExecution built, (sendAction_trueHash_iff post cJSON_Parse _ hash).mp ⟨sent, posted, shared, rest⟩⟩
    · rintro ⟨⟨written, room⟩, readable⟩
      rw [Wallets.sendExecution, sendExecution_of_declared host senderPubKey signature written room, ok_bind]
      exact (sendAction_trueHash_iff post cJSON_Parse _ hash).mpr readable

end

namespace ShortHash

def rspBody : Bytes := ascii "\x7b\"actionHash\": \"ab\"\x7d"

/-- A node that answers with two digits. -/
def post : HttpPost := fun _ _ => (.success, rspBody)

def cJSON_Parse : CJsonParse := fun text =>
  if text = rspBody then some (.obj [(ascii "actionHash", .str (ascii "ab"))]) else none

end ShortHash

/-- Two digits are a success, and only the first byte of the array is written. -/
theorem shortHash_succeeds :
    Wallets.sendTokenTransfer ShortHash.post ShortHash.cJSON_Parse (ascii "http://host/") (Vector.replicate 65 0)
        (Vector.replicate 65 0) (ChainTransfer.transfer 0) (Vector.replicate 32 7).toList =
      .ok ⟨.success, 0xab :: List.replicate 31 7, [transferCallData (ascii "http://host/") (ChainTransfer.transfer 0)
        (Vector.replicate 65 0) (Vector.replicate 65 0)]⟩ ∧
      ¬TrueHash ShortHash.post ShortHash.cJSON_Parse (Vector.replicate 32 7)
        (Wallets.sendTokenTransfer ShortHash.post ShortHash.cJSON_Parse (ascii "http://host/") (Vector.replicate 65 0)
          (Vector.replicate 65 0) (ChainTransfer.transfer 0) (Vector.replicate 32 7).toList) := by
  have given : actionHashText? ShortHash.cJSON_Parse ShortHash.rspBody = some (ascii "ab") := by decide
  have sent := (sendTokenTransfer_eq (ascii "http://host/") (ChainTransfer.transfer 0) (Vector.replicate 65 0)
    (Vector.replicate 65 0))
  have returned : Wallets.sendTokenTransfer ShortHash.post ShortHash.cJSON_Parse (ascii "http://host/")
      (Vector.replicate 65 0) (Vector.replicate 65 0) (ChainTransfer.transfer 0) (Vector.replicate 32 7).toList =
      .ok ⟨.success, 0xab :: List.replicate 31 7, [transferCallData (ascii "http://host/") (ChainTransfer.transfer 0)
        (Vector.replicate 65 0) (Vector.replicate 65 0)]⟩ := by
    rw [Wallets.sendTokenTransfer, sent, ok_bind, sendAction_eq _ _ rfl, if_neg (by simp), given]
    rfl
  refine ⟨returned, ?_⟩
  rw [returned]
  rintro ⟨sent, callData, same, -, digits, -⟩
  obtain rfl := Except.ok.inj same
  obtain ⟨text, found, length, -⟩ := digits rfl
  obtain rfl := Option.some.inj (given.symm.trans found)
  exact absurd length (by decide)

end Iotex
