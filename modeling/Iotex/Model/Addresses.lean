import Iotex.Model.Account
import Iotex.Model.Bech32

/-! # The addresses of an account

What the constructors of `Account` compute from a private key, and the getters of the Ethereum
address. The primitive that derives the public key is a parameter.
-/

namespace Iotex

/-- `ecdsa_get_public_key65` on the curve the library uses. -/
abbrev EcdsaGetPublicKey65 := Vector UInt8 32 → Vector UInt8 65

def Signer.getPublicKey (ecdsa_get_public_key65 : EcdsaGetPublicKey65) (privateKey : Vector UInt8 32) :
    Vector UInt8 65 := ecdsa_get_public_key65 privateKey

/-- An account with all its members. -/
structure ConstructedAccount extends Account where
  iotexAddr : Bytes
  ethAddr : Bytes

namespace Account

/-- The last 20 bytes of the hash of the public key without its first byte are encoded. -/
def generateIotexAddress (keccak_256 : Keccak) (publicKey : Vector UInt8 65) : Exec Bytes := do
  let hash := (Signer.getHash keccak_256 (publicKey.toList.drop 1)).toList
  let bytes := hash.drop (hash.length - 20)
  let (_, iotexAddr) ← Encoder.bech32Encode bytes
  return iotexAddr

/-- The text of the last 20 bytes of that hash in a zeroed array, behind `0x`. -/
def generateEthAddress (keccak_256 : Keccak) (publicKey : Vector UInt8 65) : Exec Bytes := do
  let hash := (Signer.getHash keccak_256 (publicKey.toList.drop 1)).toList
  let (_, text) ← Signer.hex2str (hash.drop (hash.length - 20)) 41
  let hashLast20 ← Encoder.overwrite (List.replicate 41 0) text
  return ascii "0x" ++ cString hashLast20

def generateAddressesFromPrivateKey (ecdsa_get_public_key65 : EcdsaGetPublicKey65) (keccak_256 : Keccak)
    (privateKey : Vector UInt8 32) : Exec ConstructedAccount := do
  let publicKey := Signer.getPublicKey ecdsa_get_public_key65 privateKey
  let iotexAddr ← generateIotexAddress keccak_256 publicKey
  let ethAddr ← generateEthAddress keccak_256 publicKey
  return { publicKey := publicKey, privateKey := privateKey, iotexAddr := iotexAddr, ethAddr := ethAddr }

/-- `getEthereumAddress`: the 43 characters that are copied. -/
def getEthereumAddress (account : ConstructedAccount) : Exec Bytes := readFirst (account.ethAddr ++ [0]) 43

/-- The size of a pointer, which is what `sizeof` gives for an array parameter. -/
def sizeofPointer : ℕ := 8

/-- `getEthereumAddressBytes`: the contents of the caller's array afterwards. -/
def getEthereumAddressBytes (account : ConstructedAccount) (buffer : Vector UInt8 20) : Exec Bytes :=
  Encoder.overwrite buffer.toList (Signer.str2hex account.ethAddr sizeofPointer).2

end Account

end Iotex
