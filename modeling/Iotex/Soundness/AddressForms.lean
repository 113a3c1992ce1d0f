import Iotex.Model.Addresses
import Iotex.Proofs.ActionCores
import Iotex.Proofs.Bech32Text

/-! # The two address forms of an account

An IoTeX address is the Bech32 text of twenty bytes under the prefix `io`, an Ethereum address their
hexadecimal text behind `0x`. Both forms of one account are read back as the same bytes, so neither
says more than the other. The getter that should return these bytes takes the size of a pointer for
the size of the array and stores none.
-/

namespace Iotex

/-- Bytes as values of five bits. -/
def valuesOfBytes (bytes : Bytes) : Bytes := (regroup 8 5 (bytes.map UInt8.toNat)).map UInt8.ofNat

/-- Values of five bits as bytes. -/
def bytesOfValues (values : Bytes) : Bytes := (regroup 5 8 (values.map UInt8.toNat)).map UInt8.ofNat

/-- Both addresses of the account are read back as the given bytes. -/
structure NamesBytes (account : ConstructedAccount) (bytes : Bytes) : Prop where
  size : bytes.length = 20
  length : account.iotexAddr.length = 41
  iotex : ∃ data, Bech32.decode account.iotexAddr = ⟨.bech32, ascii "io", data⟩ ∧ bytesOfValues data = bytes
  ethereum : Signer.str2hex account.ethAddr 20 = (.success, bytes)

theorem valuesOfBytes_small (bytes : Bytes) : ∀ value ∈ valuesOfBytes bytes, value.toNat < 32 := by
  intro value member
  apply Encoder.fiveBitValues_small bytes
  exact List.mem_append_left _ member

/-- Bytes whose bits fill their values are recovered from these. -/
theorem bytesOfValues_valuesOfBytes {bytes : Bytes} (whole : 5 ∣ bytes.length) :
    bytesOfValues (valuesOfBytes bytes) = bytes := by
  rw [bytesOfValues, valuesOfBytes, map_toNat_map_ofNat (Encoder.regroup_small bytes),
    regroup_regroup (by decide) _ fun _ member => lt_of_mem_map_toNat member, map_ofNat_map_toNat]
  rw [List.length_map]
  exact Nat.dvd_mul_left_of_dvd whole 8

/-- The IoTeX address of bytes. -/
def iotexText (bytes : Bytes) : Bytes := Bech32.text .bech32 (ascii "io") (valuesOfBytes bytes)

/-- The Ethereum address of bytes. -/
def ethText (bytes : Bytes) : Bytes := ascii "0x" ++ hex bytes

/-- The library's encoder on twenty bytes. -/
theorem bech32Encode_twenty {bytes : Bytes} (size : bytes.length = 20) :
    Encoder.bech32Encode bytes = .ok (.success, iotexText bytes) := by
  have whole : 8 * bytes.length % 5 = 0 := by omega
  rw [Encoder.bech32Encode_eq, if_pos (by omega), Encoder.fiveBitValues, if_pos whole, List.append_nil]
  rfl

theorem iotexText_length {bytes : Bytes} (size : bytes.length = 20) : (iotexText bytes).length = 41 := by
  simp [iotexText, Bech32.text, Bech32.createChecksum_length, valuesOfBytes, size, ascii]

theorem decode_iotexText {bytes : Bytes} (size : bytes.length = 20) :
    Bech32.decode (iotexText bytes) = ⟨.bech32, ascii "io", valuesOfBytes bytes⟩ := by
  apply Bech32.decode_text (valuesOfBytes_small bytes) (by decide) (by decide) Encoder.ioPrefix
  simp [valuesOfBytes, size, ascii]

/-- Different bytes have different addresses. -/
theorem iotexText_inj {a b : Bytes} (sizeA : a.length = 20) (sizeB : b.length = 20)
    (same : iotexText a = iotexText b) : a = b := by
  have decoded := congrArg Bech32.decode same
  rw [decode_iotexText sizeA, decode_iotexText sizeB, Bech32.DecodeResult.mk.injEq] at decoded
  have values := congrArg bytesOfValues decoded.2.2
  rwa [bytesOfValues_valuesOfBytes (by omega), bytesOfValues_valuesOfBytes (by omega)] at values

section

variable (ecdsa_get_public_key65 : EcdsaGetPublicKey65) (keccak_256 : Keccak)

/-- The bytes that both addresses of a public key stand for. -/
def addressBytes (publicKey : Vector UInt8 65) : Bytes := (keccak_256 (publicKey.toList.drop 1)).toList.drop 12

theorem addressBytes_length (publicKey : Vector UInt8 65) : (addressBytes keccak_256 publicKey).length = 20 := by
  rw [addressBytes, List.length_drop, Vector.length_toList]

theorem generateIotexAddress_eq (publicKey : Vector UInt8 65) :
    Account.generateIotexAddress keccak_256 publicKey = .ok (iotexText (addressBytes keccak_256 publicKey)) := by
  rw [Account.generateIotexAddress]
  simp only [Vector.length_toList, Signer.getHash]
  change (Encoder.bech32Encode (addressBytes keccak_256 publicKey) >>= fun result => pure result.2) = _
  rw [bech32Encode_twenty (addressBytes_length keccak_256 publicKey), ok_bind, pure_eq_ok]

theorem generateEthAddress_eq (publicKey : Vector UInt8 65) :
    Account.generateEthAddress keccak_256 publicKey = .ok (ethText (addressBytes keccak_256 publicKey)) := by
  have size := addressBytes_length keccak_256 publicKey
  have digits := unhex?_hex (addressBytes keccak_256 publicKey)
  have length : (hex (addressBytes keccak_256 publicKey)).length = 40 := by
    rw [unhex?_length digits, size]
  have terminated : (List.replicate 41 (0 : UInt8)).drop 40 = [0] := rfl
  rw [Account.generateEthAddress]
  simp only [Vector.length_toList, Signer.getHash]
  change (Signer.hex2str (addressBytes keccak_256 publicKey) 41 >>= _) = _
  rw [Signer.hex2str_eq _ (by omega), if_pos (by omega), ok_bind, Encoder.overwrite,
    if_pos (by rw [length]; decide), ok_bind, length, terminated, cString_terminated (Signer.noNul_of_unhex? digits),
    pure_eq_ok, ethText]

/-- The account of a private key, its addresses written out. -/
def accountOf (privateKey : Vector UInt8 32) : ConstructedAccount where
  publicKey := ecdsa_get_public_key65 privateKey
  privateKey := privateKey
  iotexAddr := iotexText (addressBytes keccak_256 (ecdsa_get_public_key65 privateKey))
  ethAddr := ethText (addressBytes keccak_256 (ecdsa_get_public_key65 privateKey))

theorem generateAddresses_eq (privateKey : Vector UInt8 32) :
    Account.generateAddressesFromPrivateKey ecdsa_get_public_key65 keccak_256 privateKey =
      .ok (accountOf ecdsa_get_public_key65 keccak_256 privateKey) := by
  rw [Account.generateAddressesFromPrivateKey, generateIotexAddress_eq, ok_bind, generateEthAddress_eq, ok_bind]
  rfl

/-- Both addresses of an account are read back as its bytes. -/
theorem accountOf_namesBytes (privateKey : Vector UInt8 32) :
    NamesBytes (accountOf ecdsa_get_public_key65 keccak_256 privateKey)
      (addressBytes keccak_256 (ecdsa_get_public_key65 privateKey)) := by
  have size := addressBytes_length keccak_256 (ecdsa_get_public_key65 privateKey)
  refine ⟨size, ?_, ⟨_, decode_iotexText size, bytesOfValues_valuesOfBytes (by omega)⟩, ?_⟩
  · exact iotexText_length size
  · exact Signer.str2hex_prefixed (unhex?_hex _) (by omega)

/-- Both addresses of an account are read back as the same twenty bytes, and two accounts have the
same address in one form exactly when they have it in the other. -/
theorem addresses_nameSameBytes (privateKey other : Vector UInt8 32) :
    ∃ account account' bytes bytes',
      Account.generateAddressesFromPrivateKey ecdsa_get_public_key65 keccak_256 privateKey = .ok account ∧
      Account.generateAddressesFromPrivateKey ecdsa_get_public_key65 keccak_256 other = .ok account' ∧
      NamesBytes account bytes ∧ NamesBytes account' bytes' ∧
      (account.iotexAddr = account'.iotexAddr ↔ account.ethAddr = account'.ethAddr) := by
  refine ⟨_, _, _, _, generateAddresses_eq _ _ privateKey, generateAddresses_eq _ _ other,
    accountOf_namesBytes _ _ privateKey, accountOf_namesBytes _ _ other, ?_⟩
  constructor
  · intro same
    rw [accountOf, accountOf, ethText, ethText, iotexText_inj (addressBytes_length _ _) (addressBytes_length _ _) same]
  · intro same
    rw [accountOf, accountOf, iotexText, iotexText, hex_inj (List.append_cancel_left same)]

/-! ## The bytes of an address -/

/-- The text of the filled array behind `0x` is the address string. -/
def AddressBytesAgree (account : ConstructedAccount) (buffer : Vector UInt8 20) : Prop :=
  ∃ filled text address, Account.getEthereumAddressBytes account buffer = .ok filled ∧ filled.length = 20 ∧
    Signer.hex2str filled 40 = .ok (.success, text) ∧ Account.getEthereumAddress account = .ok address ∧
    ascii "0x" ++ text = cString address

theorem ethText_noNul (bytes : Bytes) : (0 : UInt8) ∉ ethText bytes := by
  rw [ethText, List.mem_append, not_or]
  exact ⟨by decide, Signer.noNul_of_unhex? (unhex?_hex bytes)⟩

/-- An address of more bytes than the size is refused before anything is stored. -/
theorem str2hex_ethText {bytes : Bytes} {size : ℕ} (small : size < bytes.length) :
    Signer.str2hex (ethText bytes) size = (.errorBadParameter, []) := by
  have behind : Signer.skipPrefix (ethText bytes) = hex bytes := by
    rw [ethText, Signer.skipPrefix, if_pos (List.prefix_append _ _)]
    rfl
  have length := unhex?_length (unhex?_hex bytes)
  rw [Signer.str2hex, cString_of_noNul (ethText_noNul bytes), behind, if_pos (by omega)]

/-- Twenty bytes are more than fit into the size of a pointer. -/
theorem getEthereumAddressBytes_eq (privateKey : Vector UInt8 32) (buffer : Vector UInt8 20) :
    Account.getEthereumAddressBytes (accountOf ecdsa_get_public_key65 keccak_256 privateKey) buffer =
      .ok buffer.toList := by
  have size := addressBytes_length keccak_256 (ecdsa_get_public_key65 privateKey)
  have small : Account.sizeofPointer < (addressBytes keccak_256 (ecdsa_get_public_key65 privateKey)).length := by
    rw [size]
    decide
  rw [Account.getEthereumAddressBytes, accountOf, str2hex_ethText small, Encoder.overwrite]
  simp only [List.length_nil, Nat.zero_le, ↓reduceIte, List.nil_append, List.drop_zero]

theorem getEthereumAddress_eq (privateKey : Vector UInt8 32) :
    Account.getEthereumAddress (accountOf ecdsa_get_public_key65 keccak_256 privateKey) =
      .ok (ethText (addressBytes keccak_256 (ecdsa_get_public_key65 privateKey)) ++ [0]) := by
  have digits := unhex?_hex (addressBytes keccak_256 (ecdsa_get_public_key65 privateKey))
  have length : (ethText (addressBytes keccak_256 (ecdsa_get_public_key65 privateKey)) ++ [0]).length = 43 := by
    rw [ethText, List.length_append, List.length_append, unhex?_length digits, addressBytes_length]
    rfl
  rw [Account.getEthereumAddress, accountOf, readFirst_of_le length.ge, List.take_of_length_le length.le]

private theorem addressBytesAgree_iff (privateKey : Vector UInt8 32) (buffer : Vector UInt8 20) :
    AddressBytesAgree (accountOf ecdsa_get_public_key65 keccak_256 privateKey) buffer ↔
      buffer.toList = addressBytes keccak_256 (ecdsa_get_public_key65 privateKey) := by
  have printed : Signer.hex2str buffer.toList 40 = .ok (.success, hex buffer.toList) := by
    rw [Signer.hex2str_eq _ (by rw [Vector.length_toList]), Vector.length_toList, if_pos (by omega)]
  have address := cString_terminated (ethText_noNul (addressBytes keccak_256 (ecdsa_get_public_key65 privateKey))) []
  rw [AddressBytesAgree, getEthereumAddressBytes_eq, getEthereumAddress_eq]
  constructor
  · rintro ⟨filled, text, copied, same, -, shown, held, agrees⟩
    obtain rfl := Except.ok.inj same
    obtain rfl := Except.ok.inj held
    obtain rfl : hex buffer.toList = text := (Prod.mk.inj (Except.ok.inj (printed.symm.trans shown))).2
    rw [address, ethText] at agrees
    exact hex_inj (List.append_cancel_left agrees)
  · intro same
    refine ⟨_, _, _, rfl, Vector.length_toList, printed, rfl, ?_⟩
    rw [address, ethText, same]

/-- The caller's array is left as it was, so it agrees with the address string exactly when it held the
address before. -/
theorem getEthereumAddressBytes_agrees_iff (privateKey : Vector UInt8 32) :
    ∃ account, Account.generateAddressesFromPrivateKey ecdsa_get_public_key65 keccak_256 privateKey = .ok account ∧
      ∀ buffer : Vector UInt8 20, Account.getEthereumAddressBytes account buffer = .ok buffer.toList ∧
        (AddressBytesAgree account buffer ↔
          buffer.toList = addressBytes keccak_256 (ecdsa_get_public_key65 privateKey)) := by
  refine ⟨_, generateAddresses_eq _ _ privateKey, ?_⟩
  intro buffer
  exact ⟨getEthereumAddressBytes_eq _ _ privateKey buffer, addressBytesAgree_iff _ _ privateKey buffer⟩

end

/-- A cleared array stays cleared. -/
theorem clearedBytes_not_agree :
    ∃ account, Account.generateAddressesFromPrivateKey (fun _ => Vector.replicate 65 4)
        (fun _ => Vector.replicate 32 0xab) (Vector.replicate 32 1) = .ok account ∧
      Account.getEthereumAddressBytes account (Vector.replicate 20 0) = .ok (List.replicate 20 0) ∧
      ¬AddressBytesAgree account (Vector.replicate 20 0) := by
  refine ⟨_, generateAddresses_eq _ _ _, getEthereumAddressBytes_eq _ _ _ _, ?_⟩
  rw [addressBytesAgree_iff]
  decide

end Iotex
