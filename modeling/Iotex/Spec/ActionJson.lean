import Iotex.Lib.Base64
import Iotex.Lib.Json
import Iotex.Spec.ActionCore

/-! # Action cores in JSON

The action core that a request body describes, by the JSON mapping of protocol buffers: integers
are numbers or decimal text, bytes are base64 text, and an absent or null member is the default.
-/

namespace Iotex.Spec

/-- A natural number, as a number or as decimal text. -/
def natOf? : Json → Option ℕ
  | .num mantissa exponent => if 0 ≤ mantissa ∧ 0 ≤ exponent then some (mantissa.toNat * 10 ^ exponent.toNat) else none
  | .str text => if text ≠ [] ∧ text.all isDigit then some (decimalValue text) else none
  | _ => none

/-- An unsigned integer of the given width. -/
def uintOf? (bits : ℕ) (json : Json) : Option ℕ := (natOf? json).filter fun value => value < 2 ^ bits

def textOf? : Json → Option Bytes
  | .str text => some text
  | _ => none

def bytesOf? : Json → Option Bytes
  | .str text => Base64.decode? text
  | _ => none

/-- A member of an object, with the default of its type when it is absent or null. -/
def memberOf? {α : Type} (object : Json) (name : Bytes) (read : Json → Option α) (default : α) : Option α :=
  match object.get? name with
  | none | some .null => some default
  | some value => read value

def transferOf? : Json → Option TransferMessage
  | .obj members => do
    let amount ← memberOf? (.obj members) (ascii "amount") textOf? []
    let recipient ← memberOf? (.obj members) (ascii "recipient") textOf? []
    let payload ← memberOf? (.obj members) (ascii "payload") bytesOf? []
    some { amount := amount, recipient := recipient, payload := payload }
  | _ => none

def executionOf? : Json → Option ExecutionMessage
  | .obj members => do
    let amount ← memberOf? (.obj members) (ascii "amount") textOf? []
    let contract ← memberOf? (.obj members) (ascii "contract") textOf? []
    let data ← memberOf? (.obj members) (ascii "data") bytesOf? []
    some { amount := amount, contract := contract, data := data }
  | _ => none

/-- The member of the oneof, of which there is at most one. -/
def actionOf? (core : Json) : Option (Option ActionMessage) :=
  match core.get? (ascii "transfer"), core.get? (ascii "execution") with
  | none, none => some none
  | some transfer, none => (transferOf? transfer).map fun message => some (.transfer message)
  | none, some execution => (executionOf? execution).map fun message => some (.execution message)
  | some _, some _ => none

def coreOf? : Json → Option ActionCore
  | .obj members => do
    let version ← memberOf? (.obj members) (ascii "version") (uintOf? 32) 0
    let nonce ← memberOf? (.obj members) (ascii "nonce") (uintOf? 64) 0
    let gasLimit ← memberOf? (.obj members) (ascii "gasLimit") (uintOf? 64) 0
    let gasPrice ← memberOf? (.obj members) (ascii "gasPrice") textOf? []
    let chainID ← memberOf? (.obj members) (ascii "chainID") (uintOf? 32) 0
    let action ← actionOf? (.obj members)
    some { version := version, nonce := nonce, gasLimit := gasLimit, gasPrice := gasPrice, chainID := chainID,
           action := action }
  | _ => none

/-- The core of the action in the body of a request. -/
def describedCore? (body : Bytes) : Option ActionCore := do
  let request ← Json.parse body
  let action ← request.get? (ascii "action")
  let core ← action.get? (ascii "core")
  coreOf? core

end Iotex.Spec
