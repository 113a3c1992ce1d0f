import Iotex.Model.Responses

/-! # Looking up an action

The response to a look-up by hash, its two parsers and the calls on top of them. The parsers differ
in the member of the core that they read: a transfer or an execution. Objects are given as memory,
since their arrays and numbers have no initializer.
-/

namespace Iotex

/-- `IsNumeric`, which holds for an empty string. -/
def isNumeric (s : Bytes) : Bool := s.all isDigit

/-! ## The objects -/

namespace Response

structure Transfer where
  amount : Cells
  recipient : Cells
  payload : Bytes := []
deriving DecidableEq, Inhabited

structure Execution where
  amount : Cells
  contract : Cells
  data : Bytes := []
deriving DecidableEq, Inhabited

/-- `ActionCore_Transfer` and `ActionCore_Execution`; only the first has a `chainId`. -/
structure ActionCore (Chain Part : Type) where
  version : UInt32
  nonce : UInt64
  gasLimit : UInt64
  gasPrice : Cells
  chainId : Chain
  part : Part
deriving DecidableEq

/-- `Action_Transfer` and `Action_Execution`. -/
structure Action (Chain Part : Type) where
  core : ActionCore Chain Part
  senderPublicKey : Cells
  signature : Cells
deriving DecidableEq

/-- `ActionInfo_Transfer` and `ActionInfo_Execution`. -/
structure ActionInfo (Chain Part : Type) where
  action : Action Chain Part
  actHash : Cells
  blkHash : Cells
  timestamp : Cells
  blkHeight : Bytes := []
  sender : Cells
  gasFee : Cells
deriving DecidableEq

abbrev ActionInfoTransfer := ActionInfo UInt32 Transfer

abbrev ActionInfoExecution := ActionInfo Unit Execution

end Response

open Response

/-- What tells the parser of transfers from that of executions. -/
structure ActionParser (Part : Type) where
  key : Bytes
  construct : Part → Part
  clear : Part → Part
  steps : Json → List (Step Fault ResultCode Part)

/-- `GetActionResponse_Transfer`. -/
def transferParser : ActionParser Response.Transfer where
  key := ascii "transfer"
  construct part := { part with payload := [] }
  clear part := { part with amount := cleared 31, recipient := cleared 42 }
  steps transfer :=
    [(extractCString (getObjectItem transfer (ascii "amount")) 30).on Response.Transfer.amount
        fun part value => { part with amount := value },
      (extractCString (getObjectItem transfer (ascii "recipient")) 41).on Response.Transfer.recipient
        fun part value => { part with recipient := value },
      (extractString (getObjectItem transfer (ascii "payload"))).on Response.Transfer.payload
        fun part value => { part with payload := value }]

/-- `GetActionResponse_Execution`. -/
def executionParser : ActionParser Response.Execution where
  key := ascii "execution"
  construct part := { part with data := [] }
  clear part := { part with amount := cleared 31, contract := cleared 42 }
  steps execution :=
    [(extractCString (getObjectItem execution (ascii "amount")) 30).on Response.Execution.amount
        fun part value => { part with amount := value },
      (extractCString (getObjectItem execution (ascii "contract")) 41).on Response.Execution.contract
        fun part value => { part with contract := value },
      (extractString (getObjectItem execution (ascii "data"))).on Response.Execution.data
        fun part value => { part with data := value }]

/-! ## The parsers -/

/-- The nonce by way of a local string; text that is not numeric returns the `SUCCESS` of the
extraction before it. -/
def extractNonce (json : Option Json) : Step Fault ResultCode UInt64 := fun target => do
  let (ret, buf) := setStringFromJsonObject json [] 0
  if ret ≠ .success ∨ isNumeric buf = false then return (some ret, target)
  let nonce ← atol buf
  return (none, toUint64 nonce)

/-- The gas limit by way of the same string. -/
def extractGasLimit (json : Option Json) : Step Fault ResultCode UInt64 := fun target => do
  let (ret, buf) := setStringFromJsonObject json [] 0
  if ret ≠ .success then return (some ret, target)
  let gasLimit ← atol buf
  return (none, toUint64 gasLimit)

/-- The objects of a response that the parsers read members of. -/
structure ActionJson where
  entry : Json
  action : Json
  core : Json
  part : Json

/-- The first entry of `actionInfo` and the objects below it. -/
def actionJson? (key : Bytes) (data : Json) : Option ActionJson :=
  match getObjectItem data (ascii "actionInfo") with
  | some (.arr (.obj members :: _)) => do
    let entry := .obj members
    let action ← getObject entry (ascii "action")
    let core ← getObject action (ascii "core")
    let part ← getObject core key
    some ⟨entry, action, core, part⟩
  | _ => none

variable {Chain Part : Type}

/-- The extractions in front of the nonce. -/
def openingSteps (json : ActionJson) : List (Step Fault ResultCode (ActionInfo Chain Part)) :=
  [(extractCString (getObjectItem json.action (ascii "senderPubKey")) 130).on (fun info => info.action.senderPublicKey)
      fun info value => { info with action.senderPublicKey := value },
    (extractCString (getObjectItem json.action (ascii "signature")) 130).on (fun info => info.action.signature)
      fun info value => { info with action.signature := value },
    (extractUint32 (getObjectItem json.core (ascii "version"))).on (fun info => info.action.core.version)
      fun info value => { info with action.core.version := value }]

/-- The extractions of the two integers that a response gives as text. -/
def integerSteps (json : ActionJson) : List (Step Fault ResultCode (ActionInfo Chain Part)) :=
  [(extractNonce (getObjectItem json.core (ascii "nonce"))).on (fun info => info.action.core.nonce)
      fun info value => { info with action.core.nonce := value },
    (extractGasLimit (getObjectItem json.core (ascii "gasLimit"))).on (fun info => info.action.core.gasLimit)
      fun info value => { info with action.core.gasLimit := value }]

/-- The extractions behind the gas limit. -/
def closingSteps (parser : ActionParser Part) (json : ActionJson) :
    List (Step Fault ResultCode (ActionInfo Chain Part)) :=
  (extractCString (getObjectItem json.core (ascii "gasPrice")) 30).on (fun info => info.action.core.gasPrice)
      (fun info value => { info with action.core.gasPrice := value }) ::
    (parser.steps json.part).map (Step.on (fun info => info.action.core.part)
      fun info value => { info with action.core.part := value }) ++
    [(extractCString (getObjectItem json.entry (ascii "actHash")) 64).on (fun info => info.actHash)
        fun info value => { info with actHash := value },
      (extractCString (getObjectItem json.entry (ascii "blkHash")) 64).on (fun info => info.blkHash)
        fun info value => { info with blkHash := value },
      (extractCString (getObjectItem json.entry (ascii "timestamp")) 21).on (fun info => info.timestamp)
        fun info value => { info with timestamp := value },
      (extractString (getObjectItem json.entry (ascii "blkHeight"))).on (fun info => info.blkHeight)
        fun info value => { info with blkHeight := value },
      (extractCString (getObjectItem json.entry (ascii "sender")) 41).on (fun info => info.sender)
        fun info value => { info with sender := value },
      (extractCString (getObjectItem json.entry (ascii "gasFee")) 30).on (fun info => info.gasFee)
        fun info value => { info with gasFee := value }]

/-- The arrays that a parser clears once the body is parsed. -/
def clearActionInfo (parser : ActionParser Part) (info : ActionInfo Chain Part) : ActionInfo Chain Part :=
  { info with
    actHash := cleared 65
    blkHash := cleared 65
    timestamp := cleared 22
    sender := cleared 42
    gasFee := cleared 31
    action.senderPublicKey := cleared 131
    action.signature := cleared 131
    action.core.gasPrice := cleared 31
    action.core.part := parser.clear info.action.core.part }

/-- `fromJson` of the two responses, on their `actionInfo`. -/
def ActionParser.fromJson (parser : ActionParser Part) (cJSON_Parse : CJsonParse) (info : ActionInfo Chain Part)
    (jsonString : Bytes) : Exec (ResultCode × ActionInfo Chain Part) :=
  match cJSON_Parse (cString jsonString) with
  | none => .ok (.errorJsonParse, info)
  | some data =>
    let info := clearActionInfo parser info
    match actionJson? parser.key data with
    | none => .ok (.errorJsonParse, info)
    | some json => Step.run .success (openingSteps json ++ integerSteps json ++ closingSteps parser json) info

/-! ## The calls -/

/-- A new object on memory with the given contents: only the strings have a constructor. -/
def constructActionInfo (parser : ActionParser Part) (memory : ActionInfo Chain Part) : ActionInfo Chain Part :=
  { memory with blkHeight := [], action.core.part := parser.construct memory.action.core.part }

/-- The common part of the two look-ups: the result and the caller's object. -/
def ActionParser.getActionByHash (parser : ActionParser Part) (post : HttpPost) (cJSON_Parse : CJsonParse)
    (host hash : Bytes) (memory action : ActionInfo Chain Part) : Exec (ResultCode × ActionInfo Chain Part) := do
  let (ret, rspBody) := post.reply (Rpc.getActionByHash host hash false)
  if ret ≠ .success then return (ret, action)
  let (ret, response) ← parser.fromJson cJSON_Parse (constructActionInfo parser memory) rspBody
  if ret ≠ .success then return (ret, action)
  return (ret, response)

namespace Wallets

def getTransactionByHash (post : HttpPost) (cJSON_Parse : CJsonParse) (host hash : Bytes)
    (memory action : ActionInfoTransfer) : Exec (ResultCode × ActionInfoTransfer) :=
  transferParser.getActionByHash post cJSON_Parse host hash memory action

def getExecutionByHash (post : HttpPost) (cJSON_Parse : CJsonParse) (host hash : Bytes)
    (memory action : ActionInfoExecution) : Exec (ResultCode × ActionInfoExecution) :=
  executionParser.getActionByHash post cJSON_Parse host hash memory action

end Wallets

end Iotex
