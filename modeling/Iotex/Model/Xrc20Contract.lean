import Iotex.Model.Contract

/-! # The XRC20 token contract

The hand-written calls of a token: a fixed selector and argument words at fixed offsets of an array
that the caller provides.
-/

namespace Iotex

/-- Bytes written to an array from an offset on. -/
def storeAt (data : Cells) (offset : ℕ) (bytes : Cells) : Exec Cells :=
  if offset + bytes.length ≤ data.length then .ok (data.take offset ++ bytes ++ data.drop (offset + bytes.length))
  else .error .outOfBounds

/-- Bytes written behind the first ones of an array. -/
theorem storeAt_append (front rest : Cells) {bytes : Cells} (room : bytes.length ≤ rest.length) :
    storeAt (front ++ rest) front.length bytes = .ok (front ++ bytes ++ rest.drop bytes.length) := by
  rw [storeAt, if_pos (by rw [List.length_append]; omega), List.take_left, List.drop_append, List.drop_eq_nil_of_le,
    List.nil_append, Nat.add_sub_cancel_left]
  omega

namespace Xrc20Contract

def generateCallDataForTotalSupply (data : Cells) : Exec Cells :=
  storeAt data 0 (cells [0x18, 0x16, 0x0d, 0xdd])

def generateCallDataForBalanceOf (address : Vector UInt8 20) (data : Cells) : Exec Cells := do
  let data ← storeAt data 0 (cells [0x70, 0xa0, 0x82, 0x31])
  let (_, word) ← Contract.generateBytesForAddress (cells address.toList) (data.drop 4)
  storeAt data 4 word

def generateCallDataForTransfer (toAddress : Vector UInt8 20) (value : UInt64) (data : Cells) : Exec Cells := do
  let data ← storeAt data 0 (cells [0xa9, 0x05, 0x9c, 0xbb])
  let (_, word) ← Contract.generateBytesForAddress (cells toAddress.toList) (data.drop 4)
  let data ← storeAt data 4 word
  let (_, word) ← Contract.generateBytesForUint (cells (leBytes 8 value.toNat)) 8 (data.drop 36)
  storeAt data 36 word

end Xrc20Contract

end Iotex
