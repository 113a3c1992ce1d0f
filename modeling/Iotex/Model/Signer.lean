import Iotex.Model.Machine

/-! # Hashing, signing and hexadecimal text

`Signer` with the hash and the signature primitive as parameters: `keccak_256` is any function
into 32 bytes, `ecdsa_sign_digest` any function from key, digest and the previous contents of the
signature array to a status and the new contents.
-/

namespace Iotex

/-- `keccak_256`. -/
abbrev Keccak := Bytes → Vector UInt8 32

/-- `ecdsa_sign_digest` on the curve the library uses. -/
abbrev EcdsaSignDigest := Vector UInt8 32 → Vector UInt8 32 → Vector UInt8 65 → ℤ × Vector UInt8 65

namespace Signer

/-- `getHash` of the bytes behind a pointer. -/
def getHash (keccak_256 : Keccak) (data : Bytes) : Vector UInt8 32 := keccak_256 data

def signHash (ecdsa_sign_digest : EcdsaSignDigest) (hash privateKey : Vector UInt8 32)
    (signature : Vector UInt8 65) : ResultCode × Vector UInt8 65 :=
  let (status, signature) := ecdsa_sign_digest privateKey hash signature
  if status ≠ 0 then (.errorSignature, signature) else (.success, signature)

/-- The digit value of a character; the letters behind `f` count on. -/
def value (c : UInt8) : Option UInt8 :=
  if 48 ≤ c ∧ c ≤ 57 then some (c - 48)
  else if 97 ≤ c ∧ c ≤ 122 then some (c - 97 + 10)
  else if 65 ≤ c ∧ c ≤ 90 then some (c - 65 + 10)
  else none

/-- The loop of `str2hex`: its result and the bytes it has written when it stops. -/
def str2hexLoop : Bytes → ResultCode × Bytes
  | [] => (.success, [])
  | [c] =>
    match value c with
    | none => (.errorBadParameter, [])
    | some high => (.success, [high])
  | c :: d :: rest =>
    match value c, value d with
    | some high, some low =>
      let (ret, written) := str2hexLoop rest
      (ret, (high <<< 4 ||| low) :: written)
    | _, _ => (.errorBadParameter, [])

/-- The digits behind an optional `0x`. -/
def skipPrefix (str : Bytes) : Bytes := if ascii "0x" <+: str then str.drop 2 else str

/-- `str2hex`: the result and the bytes written from the start of the array. The size is checked
before the loop only. -/
def str2hex (str : Bytes) (size : ℕ) : ResultCode × Bytes :=
  let digits := skipPrefix (cString str)
  if size < digits.length / 2 then (.errorBadParameter, []) else str2hexLoop digits

/-- `hex2str`: the result and the characters written from the start of the array, whose position is
counted in an `int`. -/
def hex2str (hex : Bytes) (strSize : ℕ) : Exec (ResultCode × Bytes) := do
  let hexmap := ascii "0123456789abcdef"
  if strSize < hex.length * 2 then return (.errorBadParameter, [])
  countInt (hex.length * 2)
  return (.success,
    hex.flatMap fun (it : UInt8) => [hexmap.getD (it >>> 4).toNat 0, hexmap.getD (it &&& 0xf).toNat 0])

/-! ## Messages -/

/-- `sha3_Update` on a context that is given by the bytes it has absorbed. -/
def sha3Update (ctx data : Bytes) (len : ℕ) : Bytes := ctx ++ data.take len

/-- The update with one digit of the length, if the length reaches its place. -/
def absorbDigit (length : ℕ) (ctx : Bytes) (place : ℕ) : Bytes :=
  if place ≤ length then sha3Update ctx [UInt8.ofNat (48 + length / place % 10)] 1 else ctx

/-- The bytes that the context of `getEthereumMessageHash` absorbs. -/
def absorbedMessage (pMsg : Bytes) : Bytes :=
  let length := pMsg.length
  let ctx := sha3Update [] (ascii "\x19Ethereum Signed Message:\n") 26
  let places := [1000000000, 100000000, 10000000, 1000000, 100000, 10000, 1000, 100, 10]
  let ctx := places.foldl (absorbDigit length) ctx
  let ctx := sha3Update ctx [UInt8.ofNat (48 + length % 10)] 1
  sha3Update ctx pMsg length

/-- `getEthereumMessageHash`, with the hash of what was absorbed. -/
def getEthereumMessageHash (keccak_Final : Keccak) (pMsg : Bytes) : Vector UInt8 32 :=
  keccak_Final (absorbedMessage pMsg)

/-- `signMessage`: the contents of the signature array afterwards. -/
def signMessage (keccak_Final : Keccak) (ecdsa_sign_digest : EcdsaSignDigest) (message : Bytes)
    (privateKey : Vector UInt8 32) (signature : Vector UInt8 65) : Vector UInt8 65 :=
  (signHash ecdsa_sign_digest (getEthereumMessageHash keccak_Final message) privateKey signature).2

end Signer

end Iotex
