import Mathlib.Data.Fin.Basic
import Iotex.Lib.Absorption
import Iotex.Lib.Bytes

/-! # The Keccak sponge

The permutation on five columns and five rows of 64-bit lanes, as the composition of its five steps
with their defining indices: the rotations along the walk that leaves the corner, the round constants
from the bits of a feedback register. The hash of a byte string feeds it in blocks and closes it with
a suffix and a last bit.
-/

namespace Iotex.Keccak

instance five_ne_zero : NeZero 5 := ⟨by decide⟩

/-- The lane of a column and a row. -/
abbrev Lanes := Fin 5 → Fin 5 → UInt64

def rotate (lane : UInt64) (count : ℕ) : UInt64 := ⟨lane.toBitVec.rotateLeft count⟩

/-! ## The steps of a round -/

def parity (A : Lanes) (x : Fin 5) : UInt64 := A x 0 ^^^ A x 1 ^^^ A x 2 ^^^ A x 3 ^^^ A x 4

def theta (A : Lanes) : Lanes := fun x y => A x y ^^^ (parity A (x - 1) ^^^ rotate (parity A (x + 1)) 1)

/-- The walk through all lanes but the one in the corner. -/
def walk : ℕ → Fin 5 × Fin 5
  | 0 => (1, 0)
  | t + 1 => ((walk t).2, 2 * (walk t).1 + 3 * (walk t).2)

/-- The lanes are rotated by the triangular numbers along the walk. -/
def rotation (x y : Fin 5) : ℕ :=
  match (List.range 24).find? fun t => walk t = (x, y) with
  | some t => (t + 1) * (t + 2) / 2 % 64
  | none => 0

def rho (A : Lanes) : Lanes := fun x y => rotate (A x y) (rotation x y)

def pi (A : Lanes) : Lanes := fun x y => A (x + 3 * y) x

def chi (A : Lanes) : Lanes := fun x y => A x y ^^^ (~~~ A (x + 1) y &&& A (x + 2) y)

/-- The feedback register behind the round constants. -/
def register : ℕ → ℕ
  | 0 => 1
  | t + 1 => if 128 ≤ register t then (2 * register t) % 256 ^^^ 0x71 else 2 * register t

/-- Seven bits of the register, at the places that are one less than a power of two. -/
def roundConstant (round : ℕ) : UInt64 :=
  (List.range 7).foldl (fun constant j =>
    if register (7 * round + j) % 2 = 1 then constant ^^^ UInt64.ofNat (2 ^ (2 ^ j - 1)) else constant) 0

def iota (constant : UInt64) (A : Lanes) : Lanes := fun x y => if x = 0 ∧ y = 0 then A x y ^^^ constant else A x y

def round (A : Lanes) (constant : UInt64) : Lanes := iota constant (chi (pi (rho (theta A))))

/-- The permutation of 24 rounds. -/
def f (A : Lanes) : Lanes := ((List.range 24).map roundConstant).foldl round A

/-! ## The sponge -/

/-- The lane of a byte string at an index; bytes behind the end count as zeros. -/
def word (bytes : Bytes) (index : ℕ) : UInt64 := UInt64.ofNat (leNat ((bytes.drop (8 * index)).take 8))

/-- A block is added to the lanes row by row. -/
def absorbBlock (A : Lanes) (block : Bytes) : Lanes := f fun x y => A x y ^^^ word block (5 * y.val + x.val)

/-- The last block of a message: the bytes behind the whole blocks, the suffix and the last bit. -/
def lastBlock (rate : ℕ) (suffix : UInt8) (pending : Bytes) : Bytes :=
  if pending.length + 1 = rate then pending ++ [suffix ||| 0x80]
  else pending ++ suffix :: (List.replicate (rate - pending.length - 2) 0 ++ [0x80])

/-- The bytes of the lanes, row by row. -/
def laneBytes (A : Lanes) : Bytes :=
  (List.finRange 5).flatMap fun y => (List.finRange 5).flatMap fun x => leBytes 8 (A x y).toNat

/-- The hash of a length that does not exceed the rate. -/
def hash (rate : ℕ) (suffix : UInt8) (length : ℕ) (message : Bytes) : Bytes :=
  let absorbed := Absorption.feed absorbBlock rate ⟨fun _ _ => 0, []⟩ message
  (laneBytes (absorbBlock absorbed.state (lastBlock rate suffix absorbed.pending))).take length

@[simp] theorem laneBytes_length (A : Lanes) : (laneBytes A).length = 200 := by
  simp only [laneBytes, List.length_flatMap, leBytes_length]
  rfl

/-- A hash has its length. -/
theorem hash_length {rate : ℕ} {suffix : UInt8} {length : ℕ} (fits : length ≤ 200) (message : Bytes) :
    (hash rate suffix length message).length = length := by
  rw [hash, List.length_take, laneBytes_length]
  omega

end Iotex.Keccak
