import Iotex.Model.Encoder

/-! # Bech32 strings

The encoder and decoder of Bech32 and Bech32m text, the regrouping of bytes into values of five bits
that the library's encoder puts in front of it, and its entry point for hexadecimal text.
-/

namespace Iotex

namespace Bech32

inductive Encoding where
  | invalid
  | bech32
  | bech32m
deriving DecidableEq, Repr

/-- The character set for encoding. -/
def charset : Bytes := ascii "qpzry9x8gf2tvdw0s3jn54khce6mua7l"

/-- The character set for decoding. -/
def charsetRev : List ℤ :=
  [-1, -1, -1, -1, -1, -1, -1, -1, -1, -1, -1, -1, -1, -1, -1, -1, -1, -1, -1, -1, -1, -1,
    -1, -1, -1, -1, -1, -1, -1, -1, -1, -1, -1, -1, -1, -1, -1, -1, -1, -1, -1, -1, -1, -1,
    -1, -1, -1, -1, 15, -1, 10, 17, 21, 20, 26, 30, 7, 5, -1, -1, -1, -1, -1, -1, -1, 29,
    -1, 24, 13, 25, 9, 8, 23, -1, 18, 22, 31, 27, 19, -1, 1, 0, 3, 16, 11, 28, 12, 14,
    6, 4, 2, -1, -1, -1, -1, -1, -1, 29, -1, 24, 13, 25, 9, 8, 23, -1, 18, 22, 31, 27,
    19, -1, 1, 0, 3, 16, 11, 28, 12, 14, 6, 4, 2, -1, -1, -1, -1, -1]

def encodingConstant (encoding : Encoding) : UInt32 := if encoding = .bech32 then 1 else 0x2bc830a3

/-- The conditional addition of a multiple of `k(x)` for one bit of the leading coefficient. -/
def addMultiple (c0 bit : UInt8) (multiple c : UInt32) : UInt32 := if c0 &&& bit ≠ 0 then c ^^^ multiple else c

/-- The body of the loop of `PolyMod`. -/
def polyModStep (c : UInt32) (v_i : UInt8) : UInt32 :=
  let c0 := (c >>> 25).toUInt8
  let c := (c &&& 0x1ffffff) <<< 5 ^^^ v_i.toUInt32
  let c := addMultiple c0 1 0x3b6a57b2 c
  let c := addMultiple c0 2 0x26508e6d c
  let c := addMultiple c0 4 0x1ea119fa c
  let c := addMultiple c0 8 0x3d4233dd c
  addMultiple c0 16 0x2a1462b3 c

def polyMod (v : Bytes) : UInt32 := v.foldl polyModStep 1

def lowerCase (c : UInt8) : UInt8 := if 65 ≤ c ∧ c ≤ 90 then c - 65 + 97 else c

def expandHRP (hrp : Bytes) : Bytes :=
  hrp.map (fun (c : UInt8) => c >>> 5) ++ [0] ++ hrp.map (fun (c : UInt8) => c &&& 0x1f)

def verifyChecksum (hrp values : Bytes) : Encoding :=
  let check := polyMod (expandHRP hrp ++ values)
  if check = encodingConstant .bech32 then .bech32
  else if check = encodingConstant .bech32m then .bech32m
  else .invalid

/-- The 5-bit groups of a remainder. -/
def checksumValues (mod : UInt32) : Bytes :=
  (List.range 6).map fun i => ((mod >>> UInt32.ofNat (5 * (5 - i))) &&& 31).toUInt8

def createChecksum (encoding : Encoding) (hrp values : Bytes) : Bytes :=
  checksumValues (polyMod (expandHRP hrp ++ values ++ List.replicate 6 0) ^^^ encodingConstant encoding)

/-- The character of a value; the literal's terminating NUL follows the last one. -/
def charsetAt (c : UInt8) : Exec UInt8 :=
  match (charset ++ [0])[c.toNat]? with
  | some char => .ok char
  | none => .error .outOfBounds

def encode (encoding : Encoding) (hrp values : Bytes) : Exec Bytes := do
  let combined ← (values ++ createChecksum encoding hrp values).mapM charsetAt
  return hrp ++ [49] ++ combined

structure DecodeResult where
  encoding : Encoding := .invalid
  hrp : Bytes := []
  data : Bytes := []
deriving DecidableEq, Repr

/-- `rfind`: the last index of a character. -/
def rfind (str : Bytes) (c : UInt8) : Option ℕ := (str.reverse.idxOf? c).map fun behind => str.length - 1 - behind

def isLower (c : UInt8) : Bool := 97 ≤ c && c ≤ 122

def isUpper (c : UInt8) : Bool := 65 ≤ c && c ≤ 90

/-- The value of a character, unless it is none of the character set. -/
def charsetRev? (c : UInt8) : Option UInt8 :=
  let rev := charsetRev.getD c.toNat (-1)
  if rev = -1 then none else some (UInt8.ofNat rev.toNat)

def decode (str : Bytes) : DecodeResult :=
  if str.any fun c => !isLower c && !isUpper c && (c < 33 || 126 < c) then {}
  else if str.any isLower && str.any isUpper then {}
  else
    match rfind str 49 with
    | none => {}
    | some pos =>
      if 90 < str.length ∨ pos = 0 ∨ str.length < pos + 7 then {}
      else
        match (str.drop (pos + 1)).mapM charsetRev? with
        | none => {}
        | some values =>
          let hrp := (str.take pos).map lowerCase
          let result := verifyChecksum hrp values
          if result = .invalid then {}
          else { encoding := result, hrp := hrp, data := values.take (values.length - 6) }

end Bech32

/-! ## The library's encoder -/

namespace Encoder

/-- The bits of a byte as bytes, the highest first. -/
def byteBits (currentByte : UInt8) : Bytes :=
  [7, 6, 5, 4, 3, 2, 1, 0].map fun (b : UInt8) => if currentByte &&& (1 <<< b) ≠ 0 then 1 else 0

/-- The loop over the complete groups of five bits. -/
def groupsOfFive : Bytes → Bytes
  | b4 :: b3 :: b2 :: b1 :: b0 :: rest =>
    (b4 <<< 4 ||| b3 <<< 3 ||| b2 <<< 2 ||| b1 <<< 1 ||| b0) :: groupsOfFive rest
  | _ => []

/-- `bech32_convertBytesTo5Bit`. For an incomplete last group a zero is appended; its bits are or-ed
into an element of `bitsAsBytes`, which nothing reads afterwards. Both loops count in an `int`. -/
def bech32ConvertBytesTo5Bit (input : Bytes) : Exec Bytes := do
  countInt input.length
  let bitsAsBytes := input.flatMap byteBits
  let outSize := bitsAsBytes.length / 5
  let remainder := bitsAsBytes.length % 5
  countInt outSize
  return groupsOfFive bitsAsBytes ++ (if remainder ≠ 0 then [0] else [])

/-- `bech32_encode`: the result and the encoded string. -/
def bech32Encode (data : Bytes) : Exec (ResultCode × Bytes) := do
  let dataAs5BitUint ← bech32ConvertBytesTo5Bit data
  let encoded ← Bech32.encode .bech32 (ascii "io") dataAs5BitUint
  return (.success, cString encoded)

/-- `bech32_encodeHexString`: the result and the encoded string, whose previous contents are replaced.
The local array has half the size of the text and holds what the memory held before; the result of
the conversion is not looked at. -/
def bech32EncodeHexString (memory : ℕ → UInt8) (data _encodedData : Bytes) : Exec (ResultCode × Bytes) := do
  let size := data.length / 2
  let bytes ← overwrite ((List.range size).map memory) (Signer.str2hex data size).2
  let (_, encodedData) ← bech32Encode bytes
  return (.success, encodedData)

end Encoder

end Iotex
