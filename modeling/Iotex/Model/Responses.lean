import Iotex.Lib.Steps
import Iotex.Model.Account

/-! # Calls of the wallets API that read

The requests that ask for an account and for an action, the parsers of their responses, and the
calls on top of them. A response object is given with its previous contents, because the sources
declare it without initializing its arrays and numbers. A parser is the list of its extractions:
each of them stores a member into the object, and the first failure is what the parser returns.
-/

namespace Iotex

/-! ## Requests -/

namespace Rpc

def getAccount (host address : Bytes) : RpcCallData where
  url := host ++ ascii "GetAccount"
  body := ascii "\x7b\"address\":\"" ++ cString address ++ ascii "\"\x7d"

def getBalance (host address : Bytes) : RpcCallData := getAccount host address

def getActionByHash (host hash : Bytes) (checkPending : Bool) : RpcCallData where
  url := host ++ ascii "GetActions"
  body := ascii "\x7b\"byHash\": \x7b\"actionHash\": \"" ++ cString hash ++ ascii "\",\"checkPending\": " ++
    ascii (if checkPending then "true" else "false") ++ ascii "\x7d\x7d"

end Rpc

/-- The result of posting a request, and the response. -/
def HttpPost.reply (post : HttpPost) (callData : RpcCallData) : ResultCode × Bytes :=
  post (cString callData.url) (cString callData.body)

/-! ## Extractions -/

/-- Whether an extraction ends the parser. -/
def continueOn (ret : ResultCode) : Option ResultCode := if ret = .success then none else some ret

def extractCString (json : Option Json) (maxSize : ℕ) : Step Fault ResultCode Cells := fun target => do
  let (ret, target) ← setCStringFromJsonObject json target maxSize
  return (continueOn ret, target)

def extractString (json : Option Json) : Step Fault ResultCode Bytes := fun target =>
  let (ret, target) := setStringFromJsonObject json target 0
  .ok (continueOn ret, target)

def extractBool (json : Option Json) : Step Fault ResultCode Bool := fun target =>
  let (ret, target) := setBoolFromJsonObject json target
  .ok (continueOn ret, target)

def extractUint32 (json : Option Json) : Step Fault ResultCode UInt32 := fun target =>
  let (ret, target) := setUint32FromJsonObject json target
  .ok (continueOn ret, target)

/-- The member of a name, when it is an object. -/
def getObject (data : Json) (name : Bytes) : Option Json :=
  match getObjectItem data name with
  | some (.obj members) => some (.obj members)
  | _ => none

/-! ## Accounts -/

structure AccountMeta where
  address : Cells
  balance : Cells
  nonce : Bytes := []
  pendingNonce : Bytes := []
  numActions : Bytes := []
  isContract : Bool
deriving DecidableEq

/-- A new object on memory with the given contents: only the strings have a constructor. -/
def AccountMeta.construct (memory : AccountMeta) : AccountMeta :=
  { memory with nonce := [], pendingNonce := [], numActions := [] }

/-- The extractions from the account's member, in order. -/
def accountSteps (accountMeta : Json) : List (Step Fault ResultCode AccountMeta) :=
  [(extractCString (getObjectItem accountMeta (ascii "address")) 41).on AccountMeta.address
      fun object value => { object with address := value },
    (extractCString (getObjectItem accountMeta (ascii "balance")) 30).on AccountMeta.balance
      fun object value => { object with balance := value },
    (extractString (getObjectItem accountMeta (ascii "nonce"))).on AccountMeta.nonce
      fun object value => { object with nonce := value },
    (extractString (getObjectItem accountMeta (ascii "pendingNonce"))).on AccountMeta.pendingNonce
      fun object value => { object with pendingNonce := value },
    (extractString (getObjectItem accountMeta (ascii "numActions"))).on AccountMeta.numActions
      fun object value => { object with numActions := value },
    (extractBool (getObjectItem accountMeta (ascii "isContract"))).on AccountMeta.isContract
      fun object value => { object with isContract := value }]

/-- `GetAccountResponse::fromJson` on the response's `accountMeta`. -/
def getAccountResponseFromJson (cJSON_Parse : CJsonParse) (accountMeta : AccountMeta) (jsonString : Bytes) :
    Exec (ResultCode × AccountMeta) :=
  let accountMeta := { accountMeta with address := cleared 42, balance := cleared 31 }
  match cJSON_Parse (cString jsonString) with
  | none => .ok (.errorJsonParse, accountMeta)
  | some data =>
    match getObject data (ascii "accountMeta") with
    | none => .ok (.errorJsonParse, accountMeta)
    | some object => Step.run .success (accountSteps object) accountMeta

/-- No parser reads or writes it. -/
structure BlockIdentifier where
  hash : Cells
  height : Bytes := []
deriving DecidableEq

structure GetAccountResponse where
  accountMeta : AccountMeta
  blockIdentifier : BlockIdentifier
deriving DecidableEq

def GetAccountResponse.fromJson (cJSON_Parse : CJsonParse) (response : GetAccountResponse) (jsonString : Bytes) :
    Exec (ResultCode × GetAccountResponse) := do
  let (ret, accountMeta) ← getAccountResponseFromJson cJSON_Parse response.accountMeta jsonString
  return (ret, { response with accountMeta := accountMeta })

/-- `GetBalanceResponse::fromJson` on the response's `balance`. -/
def getBalanceResponseFromJson (cJSON_Parse : CJsonParse) (balance jsonString : Bytes) : ResultCode × Bytes :=
  match cJSON_Parse (cString jsonString) with
  | none => (.errorJsonParse, balance)
  | some data =>
    match getObject data (ascii "accountMeta") with
    | none => (.success, balance)
    | some object => setStringFromJsonObject (getObjectItem object (ascii "balance")) balance 0

/-! ## The calls -/

namespace Wallets

/-- `getAccount`: the result and the caller's object, with the memory of the local response. -/
def getAccount (post : HttpPost) (cJSON_Parse : CJsonParse) (host address : Bytes) (memory data : AccountMeta) :
    Exec (ResultCode × AccountMeta) := do
  let (ret, rspBody) := post.reply (Rpc.getAccount host address)
  if ret ≠ .success then return (.errorHttp, data)
  let (ret, resp) ← getAccountResponseFromJson cJSON_Parse (.construct memory) rspBody
  if ret ≠ .success then return (ret, data)
  return (ret, resp)

/-- `getBalance`: the result and the caller's string. -/
def getBalance (post : HttpPost) (cJSON_Parse : CJsonParse) (host address balance : Bytes) : ResultCode × Bytes :=
  let (ret, rspBody) := post.reply (Rpc.getBalance host address)
  if ret ≠ .success then (ret, balance)
  else
    let (ret, response) := getBalanceResponseFromJson cJSON_Parse [] rspBody
    if ret ≠ .success then (ret, balance) else (ret, cString response)

end Wallets

end Iotex
