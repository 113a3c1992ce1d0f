import Iotex.Model.Machine

/-! # The vendored hash

The context of `sha3.c`, which is filled piece by piece, and the permutation on its 25 words. Words are
read from memory in the byte order of the machine. Whether a piece is hashed in place or by way of the
buffer depends on its address.
-/

namespace Iotex

abbrev KeccakState := Vector UInt64 25

namespace Sha3

/-! ## The permutation -/

/-- `ROTL64`; the counts are from 1 to 63. -/
def rotl64 (qword n : UInt64) : UInt64 := qword <<< n ^^^ qword >>> (64 - n)

def keccakTheta (A : KeccakState) : KeccakState :=
  let C : Vector UInt64 5 :=
    .ofFn fun x => A[x.val] ^^^ A[x.val + 5] ^^^ A[x.val + 10] ^^^ A[x.val + 15] ^^^ A[x.val + 20]
  let D : Vector UInt64 5 := #v[rotl64 C[1] 1 ^^^ C[4], rotl64 C[2] 1 ^^^ C[0], rotl64 C[3] 1 ^^^ C[1],
    rotl64 C[4] 1 ^^^ C[2], rotl64 C[0] 1 ^^^ C[3]]
  .ofFn fun i =>
    have inside : i.val % 5 < 5 := Nat.mod_lt _ (by decide)
    A[i] ^^^ D[i.val % 5]

/-- The rotations that stand in `sha3_permutation`, in their order. -/
def rhoRotations : List (Fin 25 × UInt64) :=
  [(1, 1), (2, 62), (3, 28), (4, 27), (5, 36), (6, 44), (7, 6), (8, 55), (9, 20), (10, 3), (11, 10), (12, 43),
    (13, 25), (14, 39), (15, 41), (16, 45), (17, 15), (18, 21), (19, 8), (20, 18), (21, 2), (22, 61), (23, 56),
    (24, 14)]

def keccakRho (A : KeccakState) : KeccakState :=
  rhoRotations.foldl (fun state (i, n) => state.set i (rotl64 state[i] n)) A

/-- The assignments of `keccak_pi` between its first and its last line, targets first. -/
def piMoves : List (Fin 25 × Fin 25) :=
  [(1, 6), (6, 9), (9, 22), (22, 14), (14, 20), (20, 2), (2, 12), (12, 13), (13, 19), (19, 23), (23, 15), (15, 4),
    (4, 24), (24, 21), (21, 8), (8, 16), (16, 5), (5, 3), (3, 18), (18, 17), (17, 11), (11, 7), (7, 10)]

def keccakPi (A : KeccakState) : KeccakState :=
  let A1 := A[1]
  (piMoves.foldl (fun A (target, source) => A.set target A[source]) A).set 10 A1

/-- The round of `keccak_chi` for one row. -/
def keccakChiRow (A : KeccakState) (row : Fin 5) : KeccakState :=
  let i := 5 * row.val
  have bound : i ≤ 20 := by omega
  let A0 := A[i]
  let A1 := A[1 + i]
  let A := A.set i (A[i] ^^^ (~~~A1 &&& A[2 + i]))
  let A := A.set (1 + i) (A[1 + i] ^^^ (~~~A[2 + i] &&& A[3 + i]))
  let A := A.set (2 + i) (A[2 + i] ^^^ (~~~A[3 + i] &&& A[4 + i]))
  let A := A.set (3 + i) (A[3 + i] ^^^ (~~~A[4 + i] &&& A0))
  A.set (4 + i) (A[4 + i] ^^^ (~~~A0 &&& A1))

def keccakChi (A : KeccakState) : KeccakState := (List.finRange 5).foldl keccakChiRow A

def keccakRoundConstants : List UInt64 :=
  [0x0000000000000001, 0x0000000000008082, 0x800000000000808A, 0x8000000080008000,
    0x000000000000808B, 0x0000000080000001, 0x8000000080008081, 0x8000000000008009,
    0x000000000000008A, 0x0000000000000088, 0x0000000080008009, 0x000000008000000A,
    0x000000008000808B, 0x800000000000008B, 0x8000000000008089, 0x8000000000008003,
    0x8000000000008002, 0x8000000000000080, 0x000000000000800A, 0x800000008000000A,
    0x8000000080008081, 0x8000000000008080, 0x0000000080000001, 0x8000000080008008]

/-- The last step of a round in `sha3_permutation`. -/
def keccakIota (constant : UInt64) (state : KeccakState) : KeccakState := state.set 0 (state[0] ^^^ constant)

def sha3Permutation (state : KeccakState) : KeccakState :=
  keccakRoundConstants.foldl (fun state constant =>
    keccakIota constant (keccakChi (keccakPi (keccakRho (keccakTheta state))))) state

/-! ## The context -/

/-- The 192 bytes of the buffer. -/
abbrev MessageBuffer := { bytes : Bytes // bytes.length = 192 }

structure Sha3Ctx where
  hash : KeccakState
  message : MessageBuffer
  rest : ℕ
  blockSize : ℕ

def sha3Finalized : ℕ := 0x80000000

/-- A context of zeros. -/
def Sha3Ctx.cleared : Sha3Ctx := ⟨.replicate 25 0, ⟨List.replicate 192 0, rfl⟩, 0, 0⟩

/-- `memcpy` into the buffer. -/
def MessageBuffer.store (message : MessageBuffer) (index : ℕ) (bytes : Bytes) : Exec MessageBuffer :=
  if fits : index + bytes.length ≤ 192 then
    .ok ⟨message.val.take index ++ bytes ++ message.val.drop (index + bytes.length), by
      have := message.property
      simp only [List.length_append, List.length_take, List.length_drop]
      omega⟩
  else .error .outOfBounds

/-- A bitwise or into one byte of the buffer. -/
def MessageBuffer.setBits (message : MessageBuffer) (index : ℕ) (bits : UInt8) : Exec MessageBuffer := do
  let bytes ← readFirst (message.val.drop index) 1
  message.store index (bytes.map (· ||| bits))

/-- The remainder of two `size_t`; a division by zero is undefined as an overflow is. -/
def remSizeT (a b : ℕ) : Exec ℕ := if b = 0 then .error .intOverflow else .ok (a % b)

/-- `keccak_Init`. -/
def keccakInit (bits : ℕ) : Sha3Ctx :=
  let rate := 1600 - bits * 2
  { Sha3Ctx.cleared with blockSize := rate / 8 }

/-- The number of words that `sha3_process_block` adds. -/
def blockWords (blockSize : ℕ) : ℕ :=
  if 136 < blockSize then 18 else if 104 < blockSize then 17 else if 72 < blockSize then 13 else 9

/-- The first words of a state, with the words of a block added. -/
def addWords (hash : KeccakState) (words : ℕ) (block : Bytes) : KeccakState :=
  .ofFn fun i =>
    if i.val < words then hash[i] ^^^ UInt64.ofNat (leNat ((block.drop (8 * i.val)).take 8)) else hash[i]

def sha3ProcessBlock (hash : KeccakState) (block : Bytes) (blockSize : ℕ) : Exec KeccakState := do
  let words := blockWords blockSize
  let block ← readFirst block (8 * words)
  return sha3Permutation (addWords hash words block)

/-- The loop of `sha3_Update` over whole blocks and the copy of what is left, for a piece that starts at
the address. The loop makes fewer rounds than the piece has bytes. -/
def updateBlocks (blockSize : ℕ) : ℕ → Sha3Ctx → ℕ → Bytes → Exec Sha3Ctx
  | 0, ctx, _, _ => .ok ctx
  | fuel + 1, ctx, address, msg => do
    if blockSize ≤ msg.length then
      if address % 8 = 0 then
        let hash ← sha3ProcessBlock ctx.hash msg blockSize
        updateBlocks blockSize fuel { ctx with hash } (address + blockSize) (msg.drop blockSize)
      else
        let message ← ctx.message.store 0 (msg.take blockSize)
        let hash ← sha3ProcessBlock ctx.hash message.val blockSize
        updateBlocks blockSize fuel { ctx with hash, message } (address + blockSize) (msg.drop blockSize)
    else if msg.length ≠ 0 then
      let message ← ctx.message.store 0 msg
      return { ctx with message }
    else return ctx

/-- `sha3_Update` with a piece that starts at the address. -/
def sha3Update (ctx : Sha3Ctx) (address : ℕ) (msg : Bytes) : Exec Sha3Ctx := do
  let idx := ctx.rest
  let blockSize := ctx.blockSize
  if ctx.rest &&& sha3Finalized ≠ 0 then return ctx
  let rest ← remSizeT ((ctx.rest + msg.length) % 2 ^ 64) blockSize
  let ctx := { ctx with rest := rest % 2 ^ 32 }
  if idx ≠ 0 then
    let left := toSizeT (blockSize - idx)
    let message ← ctx.message.store idx (msg.take (min msg.length left))
    let ctx := { ctx with message }
    if msg.length < left then return ctx
    let hash ← sha3ProcessBlock ctx.hash message.val blockSize
    updateBlocks blockSize (msg.length + 1) { ctx with hash } (address + left) (msg.drop left)
  else updateBlocks blockSize (msg.length + 1) ctx address msg

/-- `sha3_Final` and `keccak_Final`, which differ in the suffix: the digest, and the context, which is
cleared. -/
def final (suffix : UInt8) (ctx : Sha3Ctx) : Exec (Bytes × Sha3Ctx) := do
  let digestLength := toSizeT (100 - (ctx.blockSize / 2 : ℕ))
  let blockSize := ctx.blockSize
  let hash ←
    if ctx.rest &&& sha3Finalized = 0 then do
      let message ← ctx.message.store ctx.rest (List.replicate (toSizeT (blockSize - ctx.rest)) 0)
      let message ← message.setBits ctx.rest suffix
      let message ← message.setBits (toSizeT (blockSize - 1)) 0x80
      sha3ProcessBlock ctx.hash message.val blockSize
    else pure ctx.hash
  let result ← readFirst (hash.toList.flatMap fun lane => leBytes 8 lane.toNat) digestLength
  return (result, Sha3Ctx.cleared)

def sha3Final : Sha3Ctx → Exec (Bytes × Sha3Ctx) := final 0x06

def keccakFinal : Sha3Ctx → Exec (Bytes × Sha3Ctx) := final 0x01

/-- `keccak_256` of the bytes at an address. -/
def keccak256 (address : ℕ) (data : Bytes) : Exec Bytes := do
  let ctx ← sha3Update (keccakInit 256) address data
  let (digest, _) ← keccakFinal ctx
  return digest

/-! ## The hash of a message -/

/-- The update with one digit of the length, if the length reaches its place. -/
def updateDigit (length digitAt : ℕ) (ctx : Sha3Ctx) (place : ℕ) : Exec Sha3Ctx :=
  if place ≤ length then sha3Update ctx digitAt [UInt8.ofNat (48 + length / place % 10)] else .ok ctx

/-- `getEthereumMessageHash` on its context; the title, the local digit and the message lie at the
addresses. -/
def getEthereumMessageHash (titleAt digitAt messageAt : ℕ) (pMsg : Bytes) : Exec Bytes := do
  let length := pMsg.length
  let ctx ← sha3Update (keccakInit 256) titleAt (ascii "\x19Ethereum Signed Message:\n")
  let ctx ← [1000000000, 100000000, 10000000, 1000000, 100000, 10000, 1000, 100, 10].foldlM
    (updateDigit length digitAt) ctx
  let ctx ← sha3Update ctx digitAt [UInt8.ofNat (48 + length % 10)]
  let ctx ← sha3Update ctx messageAt pMsg
  let (hash, _) ← keccakFinal ctx
  return hash

end Sha3

end Iotex
