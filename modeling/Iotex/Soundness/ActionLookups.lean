import Iotex.Proofs.ActionResponses

/-! # Looking up actions

What a look-up hands over on success: the action that the response describes, or one that was parsed
in part. A nonce with other characters than digits ends the parser with the success of the
extraction before it; the gas limit may be any text, both go through `long`, the version loses its
fraction and the upper half of its range, and the chain ID of a transfer is never set.
-/

namespace Iotex

open Spec Response

variable {Chain Part : Type}

/-- A success hands over the action that the body describes, and everything else is an error. -/
def FaithfulLookup (description : ActionDescription Chain Part) (cJSON_Parse : CJsonParse) (key body : Bytes)
    (result : Exec (ResultCode × ActionInfo Chain Part)) : Prop :=
  ∃ ret info, result = .ok (ret, info) ∧ (ret = .success → ∃ data json, cJSON_Parse (cString body) = some data ∧
    actionJson? key data = some json ∧ Describes description json info)

/-- The body has no entry for the parser, or one that is read as it should be. -/
def LookupReadable (description : ActionDescription Chain Part) (cJSON_Parse : CJsonParse) (key body : Bytes) : Prop :=
  ∀ data json, cJSON_Parse (cString body) = some data → actionJson? key data = some json → Readable description json

section

variable {parser : ActionParser Part} {description : ActionDescription Chain Part} {json : ActionJson}

/-- The members of an object that was filled in are those of the body, up to the numbers. -/
theorem describes_store_iff {info : ActionInfo Chain Part} {senderPublicKey signature : CharArray 131}
    {version : UInt32} {nonce gasLimit : UInt64} {values : ClosingValues Part}
    (sender : charArrayOf? 131 (json.action.get? (ascii "senderPubKey")) = some senderPublicKey)
    (signed : charArrayOf? 131 (json.action.get? (ascii "signature")) = some signature)
    (closing : closingOf? description.partOf? json = some values) :
    Describes description json (values.store
        (openedActionInfo parser info (memoryOf senderPublicKey) (memoryOf signature) version nonce gasLimit)) ↔
      NumberIs (json.core.get? (ascii "version")) version.toNat ∧
        DecimalIs (json.core.get? (ascii "nonce")) nonce.toNat ∧
        DecimalIs (json.core.get? (ascii "gasLimit")) gasLimit.toNat ∧
        description.ChainIs json.core info.action.core.chainId := by
  simp only [closingOf?, Option.bind_eq_bind, Option.bind_eq_some_iff, Option.some.injEq] at closing
  obtain ⟨gasPrice, price, part, given, actHash, acted, blkHash, block, timestamp, time, blkHeight, height, from',
    address, gasFee, fee, rfl⟩ := closing
  constructor
  · intro described
    exact ⟨described.version, described.nonce, described.gasLimit, described.chainId⟩
  · rintro ⟨number, first, second, chain⟩
    constructor
    · rw [sender]
      rfl
    · rw [signed]
      rfl
    · exact number
    · exact first
    · exact second
    · exact chain
    · rw [price]
      rfl
    · exact given
    · rw [acted]
      rfl
    · rw [block]
      rfl
    · rw [time]
      rfl
    · exact height
    · rw [address]
      rfl
    · rw [fee]
      rfl

/-- The run from the gas limit on. -/
private theorem gasLimit_sound_iff {property : ActionInfo Chain Part → Prop} (limit : Option Json)
    {get : ActionInfo Chain Part → UInt64} {set : ActionInfo Chain Part → UInt64 → ActionInfo Chain Part}
    {rest : List (Step Fault ResultCode (ActionInfo Chain Part))} {info : ActionInfo Chain Part} :
    Step.Sound .success property (Step.run .success ((extractGasLimit limit).on get set :: rest) info) ↔
      ∀ gasLimit, charsOf? limit = some gasLimit → ∃ value, atol gasLimit = .ok value ∧
        Step.Sound .success property (Step.run .success rest (set info (toUint64 value))) := by
  cases given : charsOf? limit with
  | none =>
    rw [Step.run_cons_some _ (Step.on_ok _ (extractIntegers_missing given).2)]
    simp
  | some gasLimit =>
    simp only [Option.some.injEq, forall_eq']
    have converted := fun target => @extractGasLimit_given _ target _ given
    cases value : atol gasLimit with
    | error fault =>
      simp only [value, error_bind] at converted
      rw [Step.run_cons_error _ (Step.on_error _ (converted _))]
      simp
    | ok value' =>
      simp only [value, ok_bind] at converted
      rw [Step.run_cons_none _ (Step.on_ok _ (converted _))]
      simp

/-- The run from the nonce on. -/
theorem integerSteps_sound_iff {property : ActionInfo Chain Part → Prop}
    {rest : List (Step Fault ResultCode (ActionInfo Chain Part))} {info : ActionInfo Chain Part}
    (decimals : ∀ info', property info' → ∃ value, DecimalIs (json.core.get? (ascii "nonce")) value) :
    Step.Sound .success property (Step.run .success (integerSteps json ++ rest) info) ↔
      ∀ nonce, charsOf? (json.core.get? (ascii "nonce")) = some nonce →
        nonce.all isDigit = true ∧ decimalValue nonce < 2 ^ 63 ∧
        ∀ gasLimit, charsOf? (json.core.get? (ascii "gasLimit")) = some gasLimit →
          ∃ value, atol gasLimit = .ok value ∧ Step.Sound .success property (Step.run .success rest
            { info with
              action.core.nonce := toUint64 (decimalValue nonce)
              action.core.gasLimit := toUint64 value }) := by
  rw [integerSteps, getObjectItem, getObjectItem, List.cons_append, List.cons_append, List.nil_append]
  cases first : charsOf? (json.core.get? (ascii "nonce")) with
  | none =>
    rw [Step.run_cons_some _ (Step.on_ok _ (extractIntegers_missing first).1)]
    simp
  | some nonce =>
    simp only [Option.some.injEq, forall_eq']
    by_cases digits : nonce.all isDigit = true
    · have read := fun target => @extractNonce_digits _ target _ first digits
      by_cases bound : decimalValue nonce < 2 ^ 63
      · simp only [if_pos bound] at read
        rw [Step.run_cons_none _ (Step.on_ok _ (read _))]
        simp only [digits, bound, true_and]
        rw [gasLimit_sound_iff]
      · simp only [if_neg bound] at read
        rw [Step.run_cons_error _ (Step.on_error _ (read _))]
        exact iff_of_false Step.sound_error fun holds => bound holds.2.1
    · rw [Step.run_cons_some _ (Step.on_ok _ (extractNonce_other first digits))]
      simp only [Step.sound_ok, forall_const, digits, Bool.false_eq_true, false_and, iff_false]
      intro holds
      obtain ⟨value, text, given, -, all, -⟩ := decimals _ holds
      rw [first, Option.some.injEq] at given
      exact digits (given ▸ all)

/-- The run up to the nonce. -/
theorem openingSteps_sound_iff {property : ActionInfo Chain Part → Prop}
    {rest : List (Step Fault ResultCode (ActionInfo Chain Part))} {info : ActionInfo Chain Part} :
    Step.Sound .success property (Step.run .success (openingSteps json ++ rest) (clearActionInfo parser info)) ↔
      ∀ senderPublicKey, charArrayOf? 131 (json.action.get? (ascii "senderPubKey")) = some senderPublicKey →
      ∀ signature, charArrayOf? 131 (json.action.get? (ascii "signature")) = some signature →
      ∀ mantissa exponent, json.core.get? (ascii "version") = some (.num mantissa exponent) →
        Step.Sound .success property (Step.run .success rest
          { clearActionInfo parser info with
            action.senderPublicKey := memoryOf senderPublicKey
            action.signature := memoryOf signature
            action.core.version := UInt32.ofNat (valueint mantissa exponent % 2 ^ 32).toNat }) := by
  apply Iff.trans
  · apply Step.sound_cons_iff
    exact Step.Reads.on _ (extractCString_reads 130 (by omega) rfl)
  refine forall₂_congr fun senderPublicKey _ => ?_
  apply Iff.trans
  · apply Step.sound_cons_iff
    exact Step.Reads.on _ (extractCString_reads 130 (by omega) rfl)
  refine forall₂_congr fun signature _ => ?_
  apply Iff.trans
  · apply Step.sound_cons_iff
    exact Step.Reads.on _ extractUint32_reads
  rw [getObjectItem]
  constructor
  · intro all mantissa exponent given
    exact all (valueint mantissa exponent) (by rw [given])
  · intro all number given
    split at given
    · rename_i mantissa exponent same
      rw [← Option.some.inj given]
      exact all mantissa exponent same
    · simp at given

/-- The decimal text of a number in the range of `long` denotes what is stored. -/
theorem decimalIs_stored_iff {member : Option Json} {text : Bytes} {value : ℤ} (given : charsOf? member = some text)
    (converted : atol text = .ok value) :
    DecimalIs member (toUint64 value).toNat ↔ text ≠ [] ∧ text.all isDigit = true := by
  constructor
  · rintro ⟨other, same, some, digits, -⟩
    obtain rfl := Option.some.inj (given.symm.trans same)
    exact ⟨some, digits⟩
  · rintro ⟨some, digits⟩
    rw [atol_digits (charsOf?_noNul given) digits] at converted
    split_ifs at converted with bound
    obtain rfl := Except.ok.inj converted
    exact ⟨text, given, some, digits, (toUint64_of_lt bound).symm⟩

/-- The run behind the gas limit, on what was read in front of it. -/
theorem closingSteps_sound_iff (reads : ParserReads parser description.partOf?) (info : ActionInfo Chain Part)
    {senderPublicKey signature : CharArray 131} {mantissa exponent : ℤ} {nonce gasLimit : Bytes} {value : ℤ}
    (sender : charArrayOf? 131 (json.action.get? (ascii "senderPubKey")) = some senderPublicKey)
    (signed : charArrayOf? 131 (json.action.get? (ascii "signature")) = some signature)
    (version : json.core.get? (ascii "version") = some (.num mantissa exponent))
    (first : charsOf? (json.core.get? (ascii "nonce")) = some nonce) (digits : nonce.all isDigit = true)
    (bound : decimalValue nonce < 2 ^ 63) (second : charsOf? (json.core.get? (ascii "gasLimit")) = some gasLimit)
    (converted : atol gasLimit = .ok value) :
    Step.Sound .success (Describes description json) (Step.run .success (closingSteps parser json)
        (openedActionInfo parser info (memoryOf senderPublicKey) (memoryOf signature)
          (UInt32.ofNat (valueint mantissa exponent % 2 ^ 32).toNat) (toUint64 (decimalValue nonce))
          (toUint64 value))) ↔
      ((closingOf? description.partOf? json).isSome →
        (∃ version < 2 ^ 31, NumberIs (json.core.get? (ascii "version")) version) ∧ nonce ≠ [] ∧
          gasLimit ≠ [] ∧ gasLimit.all isDigit = true ∧ description.ChainIs json.core info.action.core.chainId) := by
  have number : atol nonce = .ok (decimalValue nonce : ℤ) := by
    rw [atol_digits (charsOf?_noNul first) digits, if_pos bound]
  have delivers := closingSteps_deliver reads json info (memoryOf senderPublicKey) (memoryOf signature)
    (UInt32.ofNat (valueint mantissa exponent % 2 ^ 32).toNat) (toUint64 (decimalValue nonce)) (toUint64 value)
  rw [delivers.sound_iff]
  cases closing : closingOf? description.partOf? json with
  | none => simp
  | some values =>
    simp only [Option.map_some, Option.some.injEq, forall_eq', Option.isSome_some, forall_const,
      describes_store_iff sender signed closing, decimalIs_stored_iff first number,
      decimalIs_stored_iff second converted, digits, and_true, and_assoc]
    rw [version, version_exact_iff]

/-- The whole run on a cleared object. -/
theorem actionSteps_sound_iff (reads : ParserReads parser description.partOf?) (info : ActionInfo Chain Part) :
    Step.Sound .success (Describes description json) (Step.run .success
        (openingSteps json ++ integerSteps json ++ closingSteps parser json) (clearActionInfo parser info)) ↔
      (OpeningGiven json → ∀ nonce, charsOf? (json.core.get? (ascii "nonce")) = some nonce →
        nonce.all isDigit = true ∧ decimalValue nonce < 2 ^ 63 ∧
        ∀ gasLimit, charsOf? (json.core.get? (ascii "gasLimit")) = some gasLimit → InLongRange gasLimit ∧
          ((closingOf? description.partOf? json).isSome →
            (∃ version < 2 ^ 31, NumberIs (json.core.get? (ascii "version")) version) ∧ nonce ≠ [] ∧
              gasLimit ≠ [] ∧ gasLimit.all isDigit = true ∧
              description.ChainIs json.core info.action.core.chainId)) := by
  rw [List.append_assoc, openingSteps_sound_iff]
  have decimals : ∀ info' : ActionInfo Chain Part, Describes description json info' →
      ∃ value, DecimalIs (json.core.get? (ascii "nonce")) value := fun _ described => ⟨_, described.nonce⟩
  simp only [integerSteps_sound_iff decimals]
  constructor
  · rintro all ⟨sender, signed, mantissa, exponent, version⟩ nonce first
    obtain ⟨senderPublicKey, sender⟩ := Option.isSome_iff_exists.mp sender
    obtain ⟨signature, signed⟩ := Option.isSome_iff_exists.mp signed
    obtain ⟨digits, bound, others⟩ := all _ sender _ signed _ _ version nonce first
    refine ⟨digits, bound, ?_⟩
    intro gasLimit second
    obtain ⟨value, converted, sound⟩ := others gasLimit second
    exact ⟨⟨value, converted⟩,
      (closingSteps_sound_iff reads info sender signed version first digits bound second converted).mp sound⟩
  · intro all senderPublicKey sender signature signed mantissa exponent version nonce first
    obtain ⟨digits, bound, others⟩ := all ⟨Option.isSome_iff_exists.mpr ⟨_, sender⟩,
      Option.isSome_iff_exists.mpr ⟨_, signed⟩, mantissa, exponent, version⟩ nonce first
    refine ⟨digits, bound, ?_⟩
    intro gasLimit second
    obtain ⟨⟨value, converted⟩, exact⟩ := others gasLimit second
    exact ⟨value, converted,
      (closingSteps_sound_iff reads info sender signed version first digits bound second converted).mpr exact⟩

/-- With an entry in the body, a faithful look-up describes this entry. -/
theorem faithfulLookup_iff {cJSON_Parse : CJsonParse} {key body : Bytes} {data : Json}
    (parsed : cJSON_Parse (cString body) = some data) (found : actionJson? key data = some json)
    {result : Exec (ResultCode × ActionInfo Chain Part)} :
    FaithfulLookup description cJSON_Parse key body result ↔
      Step.Sound .success (Describes description json) result := by
  rw [FaithfulLookup, Step.Sound]
  simp [parsed, found]

/-- An object that holds the given chain ID. -/
def objectOnChain [Inhabited Part] (chain : Chain) : ActionInfo Chain Part where
  action := { core := ⟨0, 0, 0, [], chain, default⟩, senderPublicKey := [], signature := [] }
  actHash := []
  blkHash := []
  timestamp := []
  sender := []
  gasFee := []

/-- Whatever the object held before: the parser of one kind of action on a body. -/
theorem fromJson_faithful_iff [Inhabited Chain] [Inhabited Part] (reads : ParserReads parser description.partOf?)
    (chains : ∀ core, (∀ chain, description.ChainIs core chain) ↔ description.NoChain core)
    (cJSON_Parse : CJsonParse) (body : Bytes) :
    (∀ info, FaithfulLookup description cJSON_Parse parser.key body (parser.fromJson cJSON_Parse info body)) ↔
      LookupReadable description cJSON_Parse parser.key body := by
  rw [LookupReadable]
  cases parsed : cJSON_Parse (cString body) with
  | none =>
    apply iff_of_true
    · intro info
      rw [ActionParser.fromJson, parsed]
      exact ⟨_, _, rfl, fun success => by simp at success⟩
    · simp
  | some data =>
    cases found : actionJson? parser.key data with
    | none =>
      apply iff_of_true
      · intro info
        simp only [ActionParser.fromJson, parsed, found]
        exact ⟨_, _, rfl, fun success => by simp at success⟩
      · intro other json same
        obtain rfl := Option.some.inj same
        simp [found]
    | some json =>
      have only : (∀ other entry, some data = some other → actionJson? parser.key other = some entry →
          Readable description entry) ↔ Readable description json := by
        constructor
        · exact fun all => all data json rfl found
        · intro readable other entry same exists'
          obtain rfl := Option.some.inj same
          obtain rfl := Option.some.inj (found.symm.trans exists')
          exact readable
      rw [only, Readable]
      simp only [ActionParser.fromJson, parsed, found, faithfulLookup_iff parsed found, actionSteps_sound_iff reads,
        ← chains]
      constructor
      · intro all opening nonce first
        obtain ⟨digits, bound, others⟩ := all (objectOnChain default) opening nonce first
        refine ⟨digits, bound, ?_⟩
        intro gasLimit second
        obtain ⟨range, exact⟩ := others gasLimit second
        refine ⟨range, ?_⟩
        intro closing
        obtain ⟨version, some, some', digits', -⟩ := exact closing
        refine ⟨version, some, some', digits', ?_⟩
        intro chain
        exact (((all (objectOnChain chain) opening nonce first).2.2 gasLimit second).2 closing).2.2.2.2
      · intro readable info opening nonce first
        obtain ⟨digits, bound, others⟩ := readable opening nonce first
        refine ⟨digits, bound, ?_⟩
        intro gasLimit second
        obtain ⟨range, exact⟩ := others gasLimit second
        refine ⟨range, ?_⟩
        intro closing
        obtain ⟨version, some, some', digits', chain⟩ := exact closing
        exact ⟨version, some, some', digits', chain _⟩

/-- A call succeeds with what its parser makes of a successful reply. -/
theorem getActionByHash_success_iff (parser : ActionParser Part) (post : HttpPost) (cJSON_Parse : CJsonParse)
    (host hash : Bytes) (memory action found : ActionInfo Chain Part) :
    parser.getActionByHash post cJSON_Parse host hash memory action = .ok (.success, found) ↔
      (post.reply (Rpc.getActionByHash host hash false)).1 = .success ∧
        parser.fromJson cJSON_Parse (constructActionInfo parser memory)
          (post.reply (Rpc.getActionByHash host hash false)).2 = .ok (.success, found) := by
  rw [ActionParser.getActionByHash]
  generalize post.reply (Rpc.getActionByHash host hash false) = reply
  obtain ⟨ret, rspBody⟩ := reply
  dsimp only
  by_cases posted : ret = .success
  · subst posted
    simp only [ne_eq, not_true_eq_false, ↓reduceIte, true_and, bind_eq_ok]
    constructor
    · rintro ⟨⟨code, info⟩, parsed, returned⟩
      by_cases failed : code = .success
      · simp only [failed, not_true_eq_false, ↓reduceIte, pure_eq_ok, Except.ok.injEq, Prod.mk.injEq, true_and]
          at returned
        rw [parsed, failed, returned]
      · simp [failed] at returned
    · intro parsed
      exact ⟨_, parsed, rfl⟩
  · simp [posted]

/-- A core has every chain ID exactly when it has none of its own. -/
theorem transferDescription_chains (core : Json) :
    (∀ chain, transferDescription.ChainIs core chain) ↔ transferDescription.NoChain core := by
  constructor
  · intro all
    cases given : core.get? (ascii "chainID") with
    | none => exact given
    | some value =>
      obtain ⟨m, e, same, zero⟩ := all 0 value given
      obtain ⟨m', e', same', one⟩ := all 1 value given
      obtain ⟨rfl, rfl⟩ := Json.num.inj (Option.some.inj (same.symm.trans same'))
      have differ : ((0 : UInt32).toNat : ℤ) * 10 ^ (-e).toNat = ((1 : UInt32).toNat : ℤ) * 10 ^ (-e).toNat :=
        zero.symm.trans one
      simp only [UInt32.toNat_zero, Nat.cast_zero, zero_mul, UInt32.toNat_one, Nat.cast_one, one_mul] at differ
      exact absurd differ.symm (by positivity)
  · intro none chain value given
    rw [show core.get? (ascii "chainID") = _ from none] at given
    simp at given

/-- The parsers of the two responses, on any object and body, are right exactly when the body is
readable; a call hands over what its parser made of a successful reply. -/
theorem lookups_faithful_iff (cJSON_Parse : CJsonParse) :
    (∀ body, ((∀ info, FaithfulLookup transferDescription cJSON_Parse transferParser.key body
          (transferParser.fromJson cJSON_Parse info body)) ↔
        LookupReadable transferDescription cJSON_Parse transferParser.key body) ∧
      ((∀ info, FaithfulLookup executionDescription cJSON_Parse executionParser.key body
          (executionParser.fromJson cJSON_Parse info body)) ↔
        LookupReadable executionDescription cJSON_Parse executionParser.key body)) ∧
    ∀ (post : HttpPost) (host hash : Bytes),
      (∀ memory action found, Wallets.getTransactionByHash post cJSON_Parse host hash memory action =
          .ok (.success, found) ↔
        (post.reply (Rpc.getActionByHash host hash false)).1 = .success ∧
          transferParser.fromJson cJSON_Parse (constructActionInfo transferParser memory)
            (post.reply (Rpc.getActionByHash host hash false)).2 = .ok (.success, found)) ∧
      ∀ memory action found, Wallets.getExecutionByHash post cJSON_Parse host hash memory action =
          .ok (.success, found) ↔
        (post.reply (Rpc.getActionByHash host hash false)).1 = .success ∧
          executionParser.fromJson cJSON_Parse (constructActionInfo executionParser memory)
            (post.reply (Rpc.getActionByHash host hash false)).2 = .ok (.success, found) := by
  refine ⟨fun body => ⟨?_, ?_⟩, fun post host hash => ⟨?_, ?_⟩⟩
  · exact fromJson_faithful_iff transferParser_reads transferDescription_chains cJSON_Parse body
  · exact fromJson_faithful_iff executionParser_reads (fun _ => by simp [executionDescription]) cJSON_Parse body
  · exact getActionByHash_success_iff transferParser post cJSON_Parse host hash
  · exact getActionByHash_success_iff executionParser post cJSON_Parse host hash

namespace HalfParsed

def rspBody : Bytes :=
  ascii "\x7b\"actionInfo\":[\x7b\"action\":\x7b\"senderPubKey\":\"BBEU\",\"signature\":\"WC9/\"," ++
    ascii "\"core\":\x7b\"version\":1,\"nonce\":\"nineteen\",\"transfer\":\x7b\x7d\x7d\x7d\x7d]\x7d"

/-- A core whose nonce is no number and that ends there. -/
def core : Json :=
  .obj [(ascii "version", .num 1 0), (ascii "nonce", .str (ascii "nineteen")), (ascii "transfer", .obj [])]

def action : Json :=
  .obj [(ascii "senderPubKey", .str (ascii "BBEU")), (ascii "signature", .str (ascii "WC9/")), (ascii "core", core)]

def entry : Json := .obj [(ascii "action", action)]

/-- The tree of the text. -/
def data : Json := .obj [(ascii "actionInfo", .arr [entry])]

def cJSON_Parse : CJsonParse := fun text => if text = rspBody then some data else none

/-- An object with a nonce of seven. -/
def info : ActionInfoTransfer :=
  let empty : ActionInfoTransfer := objectOnChain 0
  { empty with action.core.nonce := 7 }

end HalfParsed

set_option maxRecDepth 4000 in
/-- A success with the nonce that was in memory and an empty hash. -/
theorem halfParsed_succeeds :
    (∃ info, transferParser.fromJson HalfParsed.cJSON_Parse HalfParsed.info HalfParsed.rspBody = .ok (.success, info) ∧
      info.action.core.nonce = 7 ∧ info.actHash = cleared 65) ∧
      ¬FaithfulLookup transferDescription HalfParsed.cJSON_Parse transferParser.key HalfParsed.rspBody
        (transferParser.fromJson HalfParsed.cJSON_Parse HalfParsed.info HalfParsed.rspBody) := by
  have parsed : HalfParsed.cJSON_Parse (cString HalfParsed.rspBody) = some HalfParsed.data := by
    have whole : cString HalfParsed.rspBody = HalfParsed.rspBody := by decide +kernel
    rw [HalfParsed.cJSON_Parse, whole, if_pos rfl]
  have ran : ∃ info, transferParser.fromJson HalfParsed.cJSON_Parse HalfParsed.info HalfParsed.rspBody =
      .ok (.success, info) ∧ info.action.core.nonce = 7 ∧ info.actHash = cleared 65 := by
    rw [ActionParser.fromJson, parsed]
    exact ⟨_, rfl, rfl, rfl⟩
  refine ⟨ran, ?_⟩
  rintro ⟨ret, info, returned, described⟩
  obtain ⟨left, ran, -⟩ := ran
  obtain ⟨rfl, rfl⟩ := Prod.mk.inj (Except.ok.inj (ran.symm.trans returned))
  obtain ⟨data, json, same, found, described⟩ := described rfl
  obtain rfl := Option.some.inj (parsed.symm.trans same)
  have entry : actionJson? transferParser.key HalfParsed.data =
      some ⟨HalfParsed.entry, HalfParsed.action, HalfParsed.core, .obj []⟩ := rfl
  rw [entry, Option.some.injEq] at found
  obtain ⟨text, given, -, digits, -⟩ := described.nonce
  rw [← found] at given
  obtain rfl : ascii "nineteen" = text := Option.some.inj given
  exact absurd digits (by decide)

end

end Iotex
