import Iotex.Proofs.Extractions

/-! # Asking for an account

`getAccount` hands over exactly the account that the response describes, or leaves the caller's
object alone. `getBalance` reads the same response with a parser of its own, which takes a body
without account for a success; where `getAccount` succeeds the two agree.
-/

namespace Iotex

open Spec

/-- The account that the reply to a request describes. -/
def accountGiven? (cJSON_Parse : CJsonParse) (reply : ResultCode × Bytes) : Option AccountValues :=
  if reply.1 = .success then (cJSON_Parse (cString reply.2)).bind accountOf? else none

/-- The body is a JSON value with an account whose balance is the text. -/
def BalanceGiven (cJSON_Parse : CJsonParse) (rspBody text : Bytes) : Prop :=
  ∃ body accountMeta, cJSON_Parse (cString rspBody) = some body ∧
    objectOf? body (ascii "accountMeta") = some accountMeta ∧
    charsOf? (accountMeta.get? (ascii "balance")) = some text

/-- The body is no JSON value, or has an account. -/
def AccountPresent (cJSON_Parse : CJsonParse) (rspBody : Bytes) : Prop :=
  ∀ body, cJSON_Parse (cString rspBody) = some body →
    ∃ accountMeta, objectOf? body (ascii "accountMeta") = some accountMeta

section

variable (post : HttpPost) (cJSON_Parse : CJsonParse) (host address : Bytes)

/-- The parser of an account's response on any object. -/
theorem getAccountResponseFromJson_delivers (object : AccountMeta) (rspBody : Bytes) :
    Step.Delivers .success (getAccountResponseFromJson cJSON_Parse object rspBody)
      (((cJSON_Parse (cString rspBody)).bind accountOf?).map AccountValues.stored) := by
  rw [getAccountResponseFromJson, getObject_eq]
  cases cJSON_Parse (cString rspBody) with
  | none => exact ⟨.errorJsonParse, _, by decide, rfl⟩
  | some body =>
    rw [Option.bind_some]
    cases found : objectOf? body (ascii "accountMeta") with
    | none =>
      have missing : accountOf? body = none := by
        rw [accountOf?, found]
        rfl
      rw [missing]
      refine ⟨.errorJsonParse, { object with address := cleared 42, balance := cleared 31 }, by decide, ?_⟩
      simp only [found]
    | some accountMeta =>
      have delivers := accountSteps_deliver found object
      simpa only [found] using delivers

/-- The call succeeds exactly when the reply describes an account, which the caller's object then
holds; otherwise the object is as it was. -/
theorem getAccount_exact (memory data : AccountMeta) :
    ∃ ret left, Wallets.getAccount post cJSON_Parse host address memory data = .ok (ret, left) ∧
      (ret = .success ↔ (accountGiven? cJSON_Parse (post.reply (Rpc.getAccount host address))).isSome) ∧
      left = ((accountGiven? cJSON_Parse
        (post.reply (Rpc.getAccount host address))).map AccountValues.stored).getD data := by
  rw [Wallets.getAccount]
  generalize post.reply (Rpc.getAccount host address) = reply
  obtain ⟨ret, rspBody⟩ := reply
  by_cases posted : ret = .success
  · subst posted
    have delivers := getAccountResponseFromJson_delivers cJSON_Parse (.construct memory) rspBody
    rw [accountGiven?, if_pos rfl]
    dsimp only
    cases described : (cJSON_Parse (cString rspBody)).bind accountOf? with
    | none =>
      rw [described] at delivers
      obtain ⟨code, response, failed, parsed⟩ := delivers
      refine ⟨code, data, ?_, by simp [failed], rfl⟩
      simp only [ne_eq, not_true_eq_false, ↓reduceIte, parsed, ok_bind, failed, not_false_eq_true, pure_eq_ok]
    | some values =>
      rw [described] at delivers
      change getAccountResponseFromJson _ _ _ = _ at delivers
      refine ⟨.success, values.stored, ?_, by simp, rfl⟩
      simp only [ne_eq, not_true_eq_false, ↓reduceIte, delivers, ok_bind, pure_eq_ok]
  · refine ⟨.errorHttp, data, ?_, ?_, ?_⟩
    · simp only [ne_eq, posted, not_false_eq_true, ↓reduceIte, pure_eq_ok]
    · simp [accountGiven?, posted]
    · simp [accountGiven?, posted]

/-- The parser of a balance: a body without an account leaves the string alone and succeeds. -/
theorem getBalanceResponseFromJson_eq (balance rspBody : Bytes) :
    getBalanceResponseFromJson cJSON_Parse balance rspBody =
      match cJSON_Parse (cString rspBody) with
      | none => (.errorJsonParse, balance)
      | some body =>
        match objectOf? body (ascii "accountMeta") with
        | none => (.success, balance)
        | some accountMeta =>
          match charsOf? (accountMeta.get? (ascii "balance")) with
          | some text => (.success, text)
          | none => (.errorJsonParse, balance) := by
  rw [getBalanceResponseFromJson, getObject_eq]
  cases cJSON_Parse (cString rspBody) with
  | none => rfl
  | some body =>
    dsimp only
    cases objectOf? body (ascii "accountMeta") with
    | none => rfl
    | some accountMeta => exact setStringFromJsonObject_eq _ _

/-- Success with a text: a balance was given, or there is no account and the text is empty. -/
theorem getBalance_success_iff {rspBody balance text : Bytes}
    (posted : post.reply (Rpc.getBalance host address) = (.success, rspBody)) :
    Wallets.getBalance post cJSON_Parse host address balance = (.success, text) ↔
      BalanceGiven cJSON_Parse rspBody text ∨ (¬AccountPresent cJSON_Parse rspBody ∧ text = []) := by
  rw [Wallets.getBalance, posted]
  have parsed := getBalanceResponseFromJson_eq cJSON_Parse [] rspBody
  rw [BalanceGiven, AccountPresent]
  cases body : cJSON_Parse (cString rspBody) with
  | none =>
    rw [body] at parsed
    simp [parsed]
  | some body' =>
    rw [body] at parsed
    cases found : objectOf? body' (ascii "accountMeta") with
    | none =>
      simp only [found] at parsed
      simp [parsed, found, cString, eq_comm]
    | some accountMeta =>
      cases given : charsOf? (accountMeta.get? (ascii "balance")) with
      | none =>
        simp only [found, given] at parsed
        simp [parsed, found, given]
      | some value =>
        simp only [found, given] at parsed
        simp [parsed, found, given, cString_of_noNul (charsOf?_noNul given)]

/-- The balance of a described account is the balance that the body gives. -/
theorem balanceGiven_of_accountOf? {rspBody : Bytes} {body : Json} {values : AccountValues}
    (parsed : cJSON_Parse (cString rspBody) = some body) (described : accountOf? body = some values) :
    BalanceGiven cJSON_Parse rspBody values.balance.text := by
  simp only [accountOf?, Option.bind_eq_bind, Option.bind_eq_some_iff, Option.some.injEq] at described
  obtain ⟨accountMeta, found, -, -, balance, given, -, -, -, -, -, -, -, -, rfl⟩ := described
  exact ⟨body, accountMeta, parsed, found, charsOf?_of_charArrayOf? given⟩

/-- A balance is reported only from the account of the body exactly when the post failed, the body
is no JSON value, or it has an account; and a reported account has the reported balance. -/
theorem getBalance_agrees_iff (balance : Bytes) (memory data : AccountMeta) :
    ((∀ text, Wallets.getBalance post cJSON_Parse host address balance = (.success, text) →
          BalanceGiven cJSON_Parse (post.reply (Rpc.getBalance host address)).2 text) ↔
        ((post.reply (Rpc.getBalance host address)).1 = .success →
          AccountPresent cJSON_Parse (post.reply (Rpc.getBalance host address)).2)) ∧
      ∀ accountMeta, Wallets.getAccount post cJSON_Parse host address memory data = .ok (.success, accountMeta) →
        ∃ balanceText : CharArray 31, accountMeta.balance = memoryOf balanceText ∧
          Wallets.getBalance post cJSON_Parse host address balance = (.success, balanceText.text) := by
  rcases reply : post.reply (Rpc.getBalance host address) with ⟨ret, rspBody⟩
  by_cases posted : ret = .success
  · subst posted
    constructor
    · simp only [getBalance_success_iff post cJSON_Parse host address reply, forall_const]
      constructor
      · intro all
        by_contra missing
        obtain ⟨body, accountMeta, parsed, found, -⟩ := all [] (.inr ⟨missing, rfl⟩)
        apply missing
        intro other same
        obtain rfl := Option.some.inj (parsed.symm.trans same)
        exact ⟨accountMeta, found⟩
      · rintro present text (given | ⟨missing, -⟩)
        · exact given
        · exact absurd present missing
    · intro accountMeta reported
      obtain ⟨ret, left, called, succeeds, stored⟩ := getAccount_exact post cJSON_Parse host address memory data
      rw [reported, Except.ok.injEq, Prod.mk.injEq] at called
      obtain ⟨rfl, rfl⟩ := called
      change post.reply (Rpc.getAccount host address) = _ at reply
      rw [reply] at succeeds stored
      obtain ⟨values, given⟩ := Option.isSome_iff_exists.mp (succeeds.mp rfl)
      rw [given] at stored
      refine ⟨values.balance, by rw [stored]; rfl, ?_⟩
      rw [accountGiven?, if_pos rfl, Option.bind_eq_some_iff] at given
      obtain ⟨body, parsed, described⟩ := given
      exact (getBalance_success_iff post cJSON_Parse host address reply).mpr
        (.inl (balanceGiven_of_accountOf? cJSON_Parse parsed described))
  · have refused : ∀ text, Wallets.getBalance post cJSON_Parse host address balance ≠ (.success, text) := by
      intro text success
      rw [Wallets.getBalance, reply] at success
      simp [posted] at success
    constructor
    · exact iff_of_true (fun text success => absurd success (refused text)) fun success => absurd success posted
    · intro accountMeta reported
      obtain ⟨code, left, called, succeeds, -⟩ := getAccount_exact post cJSON_Parse host address memory data
      rw [reported, Except.ok.injEq, Prod.mk.injEq] at called
      change post.reply (Rpc.getAccount host address) = _ at reply
      rw [reply, accountGiven?, if_neg posted] at succeeds
      simp [← called.1] at succeeds

end

namespace EmptyReply

def rspBody : Bytes := ascii "\x7b\x7d"

/-- A node that answers every request with an empty object. -/
def post : HttpPost := fun _ _ => (.success, rspBody)

def cJSON_Parse : CJsonParse := fun text => if text = rspBody then some (.obj []) else none

end EmptyReply

/-- A body without an account is reported as an empty balance. -/
theorem emptyReply_balance :
    Wallets.getBalance EmptyReply.post EmptyReply.cJSON_Parse (ascii "http://host/") (ascii "io1") (ascii "7") =
        (.success, []) ∧
      ¬BalanceGiven EmptyReply.cJSON_Parse EmptyReply.rspBody [] := by
  refine ⟨by decide, ?_⟩
  rintro ⟨body, accountMeta, parsed, found, -⟩
  have tree : EmptyReply.cJSON_Parse (cString EmptyReply.rspBody) = some (.obj []) := rfl
  obtain rfl := Option.some.inj (tree.symm.trans parsed)
  simp [objectOf?, Json.get?] at found

end Iotex
