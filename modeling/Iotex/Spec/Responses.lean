import Iotex.Model.Responses

/-! # What a response says

The values that the members of a response denote, read off the parsed body in one go: text with a
limit on its length, which is a character array's content, text without a limit, and booleans. A
member that is missing or of another type denotes nothing.
-/

namespace Iotex.Spec

/-- The object under a name. -/
def objectOf? (data : Json) (name : Bytes) : Option Json :=
  match data.get? name with
  | some (.obj members) => some (.obj members)
  | _ => none

/-- The characters of a string. -/
def charsOf? : Option Json → Option Bytes
  | some (.str text) => some (cString text)
  | _ => none

/-- The characters of a string that fits an array together with its NUL. -/
def charArrayOf? (size : ℕ) (json : Option Json) : Option (CharArray size) :=
  match json with
  | some (.str text) =>
    if fits : (cString text).length < size then some ⟨cString text, cString_noNul text, fits⟩ else none
  | _ => none

def boolOf? : Option Json → Option Bool
  | some (.bool value) => some value
  | _ => none

/-- The array that holds the characters and zeros behind them. -/
def memoryOf {size : ℕ} (array : CharArray size) : Cells :=
  cells (array.text ++ List.replicate (size - array.text.length) 0)

/-- What a response says about an account. -/
structure AccountValues where
  address : CharArray 42
  balance : CharArray 31
  nonce : Bytes
  pendingNonce : Bytes
  numActions : Bytes
  isContract : Bool

/-- The account that a response body describes. -/
def accountOf? (body : Json) : Option AccountValues := do
  let accountMeta ← objectOf? body (ascii "accountMeta")
  let address ← charArrayOf? 42 (accountMeta.get? (ascii "address"))
  let balance ← charArrayOf? 31 (accountMeta.get? (ascii "balance"))
  let nonce ← charsOf? (accountMeta.get? (ascii "nonce"))
  let pendingNonce ← charsOf? (accountMeta.get? (ascii "pendingNonce"))
  let numActions ← charsOf? (accountMeta.get? (ascii "numActions"))
  let isContract ← boolOf? (accountMeta.get? (ascii "isContract"))
  some ⟨address, balance, nonce, pendingNonce, numActions, isContract⟩

/-- The account as the API hands it to the caller. -/
def AccountValues.stored (values : AccountValues) : AccountMeta where
  address := memoryOf values.address
  balance := memoryOf values.balance
  nonce := values.nonce
  pendingNonce := values.pendingNonce
  numActions := values.numActions
  isContract := values.isContract

end Iotex.Spec
