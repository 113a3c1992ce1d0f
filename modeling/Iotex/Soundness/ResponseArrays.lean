import Iotex.Proofs.ActionResponses

/-! # The arrays of a response

A parser copies text into fixed arrays without a terminator, up to a limit that each call names, on
arrays that it cleared before. Two runs of a parser on one body, from any two previous contents of
the object, are compared: neither writes behind an array, and where they succeed the arrays are
terminated and the same in both, so that nothing is left of the previous contents.
-/

namespace Iotex

open Response Spec

/-- The array of a size was written in full and ends with a NUL. -/
def Terminated (size : ℕ) (array : Cells) : Prop :=
  ∃ text : Bytes, array = cells (text ++ [0]) ∧ text.length + 1 = size

/-- An array that is terminated, and the same in two objects. -/
structure SameArray (size : ℕ) (array other : Cells) : Prop where
  same : array = other
  terminated : Terminated size array

/-- A parser stays inside of the arrays, and its success leaves arrays that the body alone decides. -/
def FillsArrays {Object : Type} (same : Object → Object → Prop) (parse : Object → Exec (ResultCode × Object)) : Prop :=
  ∀ object, parse object ≠ .error .outOfBounds ∧ ∀ left, parse object = .ok (.success, left) →
    ∀ other, ∃ left', parse other = .ok (.success, left') ∧ same left left'

/-! ## The arrays of each object -/

structure AccountMeta.SameArrays (object other : AccountMeta) : Prop where
  address : SameArray 42 object.address other.address
  balance : SameArray 31 object.balance other.balance

/-- All arrays of the response: those of the account and the hash of the block. -/
structure GetAccountResponse.SameArrays (object other : GetAccountResponse) : Prop where
  accountMeta : object.accountMeta.SameArrays other.accountMeta
  hash : SameArray 65 object.blockIdentifier.hash other.blockIdentifier.hash

structure Response.Transfer.SameArrays (object other : Response.Transfer) : Prop where
  amount : SameArray 31 object.amount other.amount
  recipient : SameArray 42 object.recipient other.recipient

structure Response.Execution.SameArrays (object other : Response.Execution) : Prop where
  amount : SameArray 31 object.amount other.amount
  contract : SameArray 42 object.contract other.contract

structure Response.ActionInfo.SameArrays {Chain Part : Type} (samePart : Part → Part → Prop)
    (object other : ActionInfo Chain Part) : Prop where
  actHash : SameArray 65 object.actHash other.actHash
  blkHash : SameArray 65 object.blkHash other.blkHash
  timestamp : SameArray 22 object.timestamp other.timestamp
  sender : SameArray 42 object.sender other.sender
  gasFee : SameArray 31 object.gasFee other.gasFee
  senderPublicKey : SameArray 131 object.action.senderPublicKey other.action.senderPublicKey
  signature : SameArray 131 object.action.signature other.action.signature
  gasPrice : SameArray 31 object.action.core.gasPrice other.action.core.gasPrice
  part : samePart object.action.core.part other.action.core.part

structure SendExecutionResponse.SameArrays (object other : SendExecutionResponse) : Prop where
  hash : SameArray 65 object.hash other.hash

/-! ## Extractions -/

/-- Any fault but a write behind an array. -/
def InsideArrays (fault : Fault) : Prop := fault ≠ .outOfBounds

/-- Parts that do not matter. -/
def Unrelated {Part : Type} (_ _ : Part) : Prop := True

theorem sameArray_cleared (size : ℕ) : SameArray (size + 1) (cleared (size + 1)) (cleared (size + 1)) where
  same := rfl
  terminated := by
    refine ⟨List.replicate size 0, ?_, by simp⟩
    rw [cleared, List.replicate_succ']

/-- Text below the terminator of an array keeps the terminator. -/
theorem Terminated.overwrite {size : ℕ} {array : Cells} (terminated : Terminated size array) {text : Bytes}
    (fits : text.length < size) : Terminated size (cells text ++ array.drop text.length) := by
  obtain ⟨previous, rfl, length⟩ := terminated
  refine ⟨text ++ previous.drop text.length, ?_, ?_⟩
  · rw [cells, cells, cells, ← List.map_drop, List.drop_append_of_le_length (by omega)]
    simp
  · simp only [List.length_append, List.length_drop]
    omega

/-- An extraction with a limit below the array's size. -/
theorem extractCString_keeps (json : Option Json) {maxSize size : ℕ} (positive : 0 < maxSize) (below : maxSize < size) :
    (extractCString json maxSize).Keeps InsideArrays (SameArray size) := by
  rintro array _ ⟨rfl, terminated⟩
  have length : array.length = size := by
    obtain ⟨text, rfl, length⟩ := terminated
    simpa using length
  rw [extractCString, setCStringFromJsonObject.eq_def]
  split
  · rename_i text
    split_ifs with long behind
    · exact .returns ⟨rfl, terminated⟩
    · omega
    · exact .returns ⟨rfl, terminated.overwrite (by omega)⟩
  · exact .returns ⟨rfl, terminated⟩

/-- An extraction that stores a whole value returns the same on every target. -/
theorem keeps_of_pure {Value : Type} {extract : Step Fault ResultCode Value} {returned : Option ResultCode}
    (same : ∀ target, ∃ value, extract target = .ok (returned, value)) : extract.Keeps InsideArrays Unrelated := by
  intro target other _
  obtain ⟨value, left⟩ := same target
  obtain ⟨value', right⟩ := same other
  rw [left, right]
  exact .returns trivial

theorem extractString_keeps (json : Option Json) : (extractString json).Keeps InsideArrays Unrelated := by
  cases json with
  | none => exact keeps_of_pure fun target => ⟨target, rfl⟩
  | some value => cases value <;> exact keeps_of_pure fun target => ⟨_, rfl⟩

theorem extractBool_keeps (json : Option Json) : (extractBool json).Keeps InsideArrays Unrelated := by
  cases json with
  | none => exact keeps_of_pure fun target => ⟨target, rfl⟩
  | some value => cases value <;> exact keeps_of_pure fun target => ⟨_, rfl⟩

theorem extractUint32_keeps (json : Option Json) : (extractUint32 json).Keeps InsideArrays Unrelated := by
  cases json with
  | none => exact keeps_of_pure fun target => ⟨target, rfl⟩
  | some value => cases value <;> exact keeps_of_pure fun target => ⟨_, rfl⟩

/-- `atol` reads the text up to its end. -/
theorem atol_inside {text : Bytes} {fault : Fault} (failed : atol text = .error fault) : InsideArrays fault := by
  unfold atol at failed
  extract_lets body negative digits magnitude value at failed
  split_ifs at failed
  rw [← Except.error.inj failed]
  simp [InsideArrays]

theorem extractNonce_keeps (json : Option Json) : (extractNonce json).Keeps InsideArrays Unrelated := by
  intro target other _
  rw [extractNonce, extractNonce]
  generalize setStringFromJsonObject json [] 0 = read
  dsimp only
  split_ifs with refused
  · exact .returns trivial
  · apply Step.Alike.bind
    · exact fun fault => atol_inside
    · exact fun nonce => .returns trivial

theorem extractGasLimit_keeps (json : Option Json) : (extractGasLimit json).Keeps InsideArrays Unrelated := by
  intro target other _
  rw [extractGasLimit, extractGasLimit]
  generalize setStringFromJsonObject json [] 0 = read
  dsimp only
  split_ifs with refused
  · exact .returns trivial
  · apply Step.Alike.bind
    · exact fun fault => atol_inside
    · exact fun gasLimit => .returns trivial

/-! ## Parsers -/

section

variable {Object : Type} {same : Object → Object → Prop} {parse : Object → Exec (ResultCode × Object)}

/-- A parser that does the same on every two objects. -/
theorem fillsArrays_of_alike (alike : ∀ object other, Step.Alike InsideArrays same (parse object) (parse other)) :
    FillsArrays same parse := by
  intro object
  constructor
  · intro outside
    have both := alike object object
    rw [outside] at both
    cases both with
    | fails may => exact may rfl
  · intro left parsed other
    have both := alike object other
    rw [parsed] at both
    generalize parse other = second at both ⊢
    cases both with
    | returns stays => exact ⟨_, rfl, stays⟩

/-- A parser that refuses the body on every object. -/
theorem fillsArrays_of_refused
    (refused : ∀ object, ∃ ret ≠ ResultCode.success, ∃ left, parse object = .ok (ret, left)) :
    FillsArrays same parse := by
  intro object
  obtain ⟨ret, failed, left, returned⟩ := refused object
  rw [returned]
  simp [failed]

end

/-- The extractions from the account's member. -/
theorem accountSteps_keep (accountMeta : Json) :
    ∀ step ∈ accountSteps accountMeta, step.Keeps InsideArrays AccountMeta.SameArrays := by
  simp only [accountSteps, List.forall_mem_cons]
  refine ⟨?_, ?_, ?_, ?_, ?_, ?_, by simp⟩
  · apply (extractCString_keeps _ (by omega) (by omega)).on (·.address)
    exact fun both part => { both with address := part }
  · apply (extractCString_keeps _ (by omega) (by omega)).on (·.balance)
    exact fun both part => { both with balance := part }
  · exact (extractString_keeps _).on (fun _ => trivial) fun both _ => ⟨both.address, both.balance⟩
  · exact (extractString_keeps _).on (fun _ => trivial) fun both _ => ⟨both.address, both.balance⟩
  · exact (extractString_keeps _).on (fun _ => trivial) fun both _ => ⟨both.address, both.balance⟩
  · exact (extractBool_keeps _).on (fun _ => trivial) fun both _ => ⟨both.address, both.balance⟩

theorem getAccountResponse_fillsArrays (cJSON_Parse : CJsonParse) (body : Bytes) :
    FillsArrays AccountMeta.SameArrays fun object => getAccountResponseFromJson cJSON_Parse object body := by
  cases parsed : cJSON_Parse (cString body) with
  | none =>
    simp only [getAccountResponseFromJson, parsed]
    exact fillsArrays_of_refused fun object => ⟨.errorJsonParse, by decide, _, rfl⟩
  | some data =>
    cases found : getObject data (ascii "accountMeta") with
    | none =>
      simp only [getAccountResponseFromJson, parsed, found]
      exact fillsArrays_of_refused fun object => ⟨.errorJsonParse, by decide, _, rfl⟩
    | some accountMeta =>
      simp only [getAccountResponseFromJson, parsed, found]
      apply fillsArrays_of_alike
      intro object other
      apply Step.run_keeps (accountSteps_keep accountMeta)
      exact ⟨sameArray_cleared 41, sameArray_cleared 30⟩

/-- The member of a core that a parser reads is cleared and filled in like the arrays around it. -/
structure PartKeeps {Part : Type} (parser : ActionParser Part) (same : Part → Part → Prop) : Prop where
  clears : ∀ part other, same (parser.clear part) (parser.clear other)
  steps : ∀ json, ∀ step ∈ parser.steps json, step.Keeps InsideArrays same

theorem transferParser_keeps : PartKeeps transferParser Response.Transfer.SameArrays where
  clears _ _ := ⟨sameArray_cleared 30, sameArray_cleared 41⟩
  steps transfer := by
    simp only [transferParser, List.forall_mem_cons]
    refine ⟨?_, ?_, ?_, by simp⟩
    · apply (extractCString_keeps _ (by omega) (by omega)).on (·.amount)
      exact fun both part => { both with amount := part }
    · apply (extractCString_keeps _ (by omega) (by omega)).on (·.recipient)
      exact fun both part => { both with recipient := part }
    · exact (extractString_keeps _).on (fun _ => trivial) fun both _ => ⟨both.amount, both.recipient⟩

theorem executionParser_keeps : PartKeeps executionParser Response.Execution.SameArrays where
  clears _ _ := ⟨sameArray_cleared 30, sameArray_cleared 41⟩
  steps execution := by
    simp only [executionParser, List.forall_mem_cons]
    refine ⟨?_, ?_, ?_, by simp⟩
    · apply (extractCString_keeps _ (by omega) (by omega)).on (·.amount)
      exact fun both part => { both with amount := part }
    · apply (extractCString_keeps _ (by omega) (by omega)).on (·.contract)
      exact fun both part => { both with contract := part }
    · exact (extractString_keeps _).on (fun _ => trivial) fun both _ => ⟨both.amount, both.contract⟩

section

variable {Chain Part : Type} {parser : ActionParser Part} {same : Part → Part → Prop}

theorem openingSteps_keep (json : ActionJson) :
    ∀ step ∈ (openingSteps json : List (Step Fault ResultCode (ActionInfo Chain Part))),
      step.Keeps InsideArrays (ActionInfo.SameArrays same) := by
  simp only [openingSteps, List.forall_mem_cons]
  refine ⟨?_, ?_, ?_, by simp⟩
  · apply (extractCString_keeps _ (by omega) (by omega)).on (·.senderPublicKey)
    exact fun both part => { both with senderPublicKey := part }
  · apply (extractCString_keeps _ (by omega) (by omega)).on (·.signature)
    exact fun both part => { both with signature := part }
  · exact (extractUint32_keeps _).on (fun _ => trivial) fun both _ => { both with part := both.part }

theorem integerSteps_keep (json : ActionJson) :
    ∀ step ∈ (integerSteps json : List (Step Fault ResultCode (ActionInfo Chain Part))),
      step.Keeps InsideArrays (ActionInfo.SameArrays same) := by
  simp only [integerSteps, List.forall_mem_cons]
  refine ⟨?_, ?_, by simp⟩
  · exact (extractNonce_keeps _).on (fun _ => trivial) fun both _ => { both with part := both.part }
  · exact (extractGasLimit_keeps _).on (fun _ => trivial) fun both _ => { both with part := both.part }

theorem closingSteps_keep (keeps : PartKeeps parser same) (json : ActionJson) :
    ∀ step ∈ (closingSteps parser json : List (Step Fault ResultCode (ActionInfo Chain Part))),
      step.Keeps InsideArrays (ActionInfo.SameArrays same) := by
  simp only [closingSteps, List.forall_mem_cons, List.cons_append, List.forall_mem_append, List.forall_mem_map]
  refine ⟨?_, ?_, ?_, ?_, ?_, ?_, ?_, ?_, by simp⟩
  · apply (extractCString_keeps _ (by omega) (by omega)).on (·.gasPrice)
    exact fun both part => { both with gasPrice := part }
  · intro step member
    apply (keeps.steps json.part step member).on (·.part)
    exact fun both part => { both with part := part }
  · apply (extractCString_keeps _ (by omega) (by omega)).on (·.actHash)
    exact fun both part => { both with actHash := part }
  · apply (extractCString_keeps _ (by omega) (by omega)).on (·.blkHash)
    exact fun both part => { both with blkHash := part }
  · apply (extractCString_keeps _ (by omega) (by omega)).on (·.timestamp)
    exact fun both part => { both with timestamp := part }
  · exact (extractString_keeps _).on (fun _ => trivial) fun both _ => { both with part := both.part }
  · apply (extractCString_keeps _ (by omega) (by omega)).on (·.sender)
    exact fun both part => { both with sender := part }
  · apply (extractCString_keeps _ (by omega) (by omega)).on (·.gasFee)
    exact fun both part => { both with gasFee := part }

/-- Both parsers of an action clear what they fill in. -/
theorem clearActionInfo_sameArrays (keeps : PartKeeps parser same) (object other : ActionInfo Chain Part) :
    (clearActionInfo parser object).SameArrays same (clearActionInfo parser other) where
  actHash := sameArray_cleared 64
  blkHash := sameArray_cleared 64
  timestamp := sameArray_cleared 21
  sender := sameArray_cleared 41
  gasFee := sameArray_cleared 30
  senderPublicKey := sameArray_cleared 130
  signature := sameArray_cleared 130
  gasPrice := sameArray_cleared 30
  part := keeps.clears _ _

theorem actionParser_fillsArrays (keeps : PartKeeps parser same) (cJSON_Parse : CJsonParse) (body : Bytes) :
    FillsArrays (ActionInfo.SameArrays same) fun object : ActionInfo Chain Part =>
      parser.fromJson cJSON_Parse object body := by
  cases parsed : cJSON_Parse (cString body) with
  | none =>
    simp only [ActionParser.fromJson, parsed]
    exact fillsArrays_of_refused fun object => ⟨.errorJsonParse, by decide, _, rfl⟩
  | some data =>
    cases found : actionJson? parser.key data with
    | none =>
      simp only [ActionParser.fromJson, parsed, found]
      exact fillsArrays_of_refused fun object => ⟨.errorJsonParse, by decide, _, rfl⟩
    | some json =>
      simp only [ActionParser.fromJson, parsed, found]
      apply fillsArrays_of_alike
      intro object other
      apply Step.run_keeps
      · simp only [List.forall_mem_append]
        exact ⟨⟨openingSteps_keep json, integerSteps_keep json⟩, closingSteps_keep keeps json⟩
      · exact clearActionInfo_sameArrays keeps object other

end

/-- A sent action's hash is filled in from a cleared array. -/
theorem sendExecutionResponse_fillsArrays (cJSON_Parse : CJsonParse) (body : Bytes) :
    FillsArrays SendExecutionResponse.SameArrays fun object =>
      SendExecutionResponse.fromJson cJSON_Parse object body := by
  cases parsed : cJSON_Parse (cString body) with
  | none =>
    simp only [SendExecutionResponse.fromJson, parsed]
    exact fillsArrays_of_refused fun object => ⟨.errorJsonParse, by decide, _, rfl⟩
  | some data =>
    simp only [SendExecutionResponse.fromJson, parsed]
    apply fillsArrays_of_alike
    intro object other
    have keeps := extractCString_keeps (getObjectItem data (ascii "actionHash")) (show 0 < 64 by omega)
      (show 64 < 65 by omega) _ _ (sameArray_cleared 64)
    rw [extractCString] at keeps
    cases read : setCStringFromJsonObject (getObjectItem data (ascii "actionHash")) (cleared 65) 64 with
    | error fault =>
      rw [read] at keeps
      cases keeps with
      | fails may => exact .fails may
    | ok result =>
      rw [read] at keeps
      cases keeps with
      | returns stays => exact .returns ⟨stays⟩

/-- The parsers stay inside of the arrays of the responses, and a success leaves each of them
terminated and as the body alone decides; the identifier of the block is left as it was. -/
theorem responses_fillArrays (cJSON_Parse : CJsonParse) (body : Bytes) :
    (FillsArrays (fun left left' => left.accountMeta.SameArrays left'.accountMeta)
        fun response : GetAccountResponse => response.fromJson cJSON_Parse body) ∧
      (∀ (response left : GetAccountResponse) (ret : ResultCode),
        response.fromJson cJSON_Parse body = .ok (ret, left) → left.blockIdentifier = response.blockIdentifier) ∧
      (FillsArrays (ActionInfo.SameArrays Response.Transfer.SameArrays)
        fun info : ActionInfoTransfer => transferParser.fromJson cJSON_Parse info body) ∧
      (FillsArrays (ActionInfo.SameArrays Response.Execution.SameArrays)
        fun info : ActionInfoExecution => executionParser.fromJson cJSON_Parse info body) ∧
      FillsArrays SendExecutionResponse.SameArrays
        fun response : SendExecutionResponse => response.fromJson cJSON_Parse body := by
  refine ⟨?_, ?_, ?_, ?_, ?_⟩
  · intro response
    obtain ⟨inside, filled⟩ := getAccountResponse_fillsArrays cJSON_Parse body response.accountMeta
    constructor
    · intro outside
      simp only [GetAccountResponse.fromJson] at outside
      cases parsed : getAccountResponseFromJson cJSON_Parse response.accountMeta body with
      | error fault =>
        rw [parsed, error_bind] at outside
        exact inside (parsed.trans (congrArg Except.error (Except.error.inj outside)))
      | ok result => simp [parsed] at outside
    · intro left returned other
      obtain ⟨⟨ret, accountMeta⟩, parsed, same⟩ := bind_eq_ok.mp returned
      obtain ⟨rfl, rfl⟩ := Prod.mk.inj (Except.ok.inj same)
      obtain ⟨accountMeta', parsed', arrays⟩ := filled accountMeta parsed other.accountMeta
      refine ⟨{ other with accountMeta := accountMeta' }, ?_, arrays⟩
      simp only [GetAccountResponse.fromJson, parsed', ok_bind, pure_eq_ok]
  · intro response left ret parsed
    obtain ⟨⟨ret', accountMeta⟩, -, same⟩ := bind_eq_ok.mp parsed
    obtain ⟨rfl, rfl⟩ := Prod.mk.inj (Except.ok.inj same)
    rfl
  · exact actionParser_fillsArrays transferParser_keeps cJSON_Parse body
  · exact actionParser_fillsArrays executionParser_keeps cJSON_Parse body
  · exact sendExecutionResponse_fillsArrays cJSON_Parse body

namespace AccountReply

def rspBody : Bytes :=
  ascii "\x7b\"accountMeta\":\x7b\"address\":\"io1\",\"balance\":\"5\",\"nonce\":\"0\",\"pendingNonce\":\"1\"," ++
    ascii "\"numActions\":\"7\",\"isContract\":false\x7d\x7d"

/-- The tree of the text: a response with a complete account. -/
def data : Json :=
  .obj [(ascii "accountMeta", .obj [(ascii "address", .str (ascii "io1")), (ascii "balance", .str (ascii "5")),
    (ascii "nonce", .str (ascii "0")), (ascii "pendingNonce", .str (ascii "1")), (ascii "numActions", .str (ascii "7")),
    (ascii "isContract", .bool false)])]

def cJSON_Parse : CJsonParse := fun text => if text = rspBody then some data else none

/-- A response object that was just declared. -/
def declared : GetAccountResponse where
  accountMeta := ⟨uninitialized 42, uninitialized 31, [], [], [], false⟩
  blockIdentifier := ⟨uninitialized 65, []⟩

end AccountReply

/-- A success with a hash of the block that no statement has written to. -/
theorem accountReply_not_filled :
    ¬FillsArrays GetAccountResponse.SameArrays
      fun response : GetAccountResponse => response.fromJson AccountReply.cJSON_Parse AccountReply.rspBody := by
  intro fills
  have tree : AccountReply.cJSON_Parse (cString AccountReply.rspBody) = some AccountReply.data := by
    have whole : cString AccountReply.rspBody = AccountReply.rspBody := by decide +kernel
    rw [AccountReply.cJSON_Parse, whole, if_pos rfl]
  have parsed : ∃ accountMeta, AccountReply.declared.fromJson AccountReply.cJSON_Parse AccountReply.rspBody =
      .ok (.success, { AccountReply.declared with accountMeta := accountMeta }) := by
    rw [GetAccountResponse.fromJson, getAccountResponseFromJson, tree]
    exact ⟨_, rfl⟩
  obtain ⟨accountMeta, parsed⟩ := parsed
  obtain ⟨-, filled⟩ := fills AccountReply.declared
  obtain ⟨left, -, same⟩ := filled _ parsed AccountReply.declared
  obtain ⟨text, array, length⟩ := same.hash.terminated
  have first : some 0 ∈ uninitialized 65 := by
    change uninitialized 65 = _ at array
    rw [array]
    simp [cells]
  simp [uninitialized] at first

end Iotex
