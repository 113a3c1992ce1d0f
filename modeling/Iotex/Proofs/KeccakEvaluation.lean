import Iotex.Proofs.KeccakRounds

/-! # Evaluating the permutation

A version of the permutation for the kernel: the lanes are a list of numbers that is computed in full
after each step, so that no step is computed again by the steps behind it.
-/

namespace Iotex.Evaluation

open Keccak

/-! ## Computing in full -/

/-- A number is computed before it is handed on. -/
def forced {α : Type} (n : ℕ) (next : ℕ → α) : α := Nat.rec (next 0) (fun n _ => next (n + 1)) n

@[simp] theorem forced_eq {α : Type} (n : ℕ) (next : ℕ → α) : forced n next = next n := by
  cases n <;> rfl

/-- The numbers of a list are computed before they are handed on. -/
def forcedList {α : Type} : List ℕ → (List ℕ → α) → α
  | [], next => next []
  | n :: rest, next => forced n fun n => forcedList rest fun rest => next (n :: rest)

@[simp] theorem forcedList_eq {α : Type} (numbers : List ℕ) (next : List ℕ → α) :
    forcedList numbers next = next numbers := by
  induction numbers generalizing next with
  | nil => rfl
  | cons n rest ih => rw [forcedList, forced_eq, ih]

/-! ## The steps on numbers -/

/-- The entry of a column and a row. -/
def entry (numbers : List ℕ) (x y : Fin 5) : ℕ := numbers.getD (5 * y.val + x.val) 0

def table (entries : Fin 5 → Fin 5 → ℕ) : List ℕ :=
  (List.finRange 5).flatMap fun y => (List.finRange 5).map fun x => entries x y

def rotateNat (lane count : ℕ) : ℕ := (lane <<< count) % 2 ^ 64 ||| lane >>> (64 - count)

def offsets : List ℕ :=
  [0, 1, 62, 28, 27, 36, 44, 6, 55, 20, 3, 10, 43, 25, 39, 41, 45, 15, 21, 8, 18, 2, 61, 56, 14]

def parities (numbers : List ℕ) : List ℕ :=
  (List.finRange 5).map fun x =>
    entry numbers x 0 ^^^ entry numbers x 1 ^^^ entry numbers x 2 ^^^ entry numbers x 3 ^^^ entry numbers x 4

def thetaWith (numbers parities : List ℕ) : List ℕ :=
  table fun x y => entry numbers x y ^^^ (entry parities (x - 1) 0 ^^^ rotateNat (entry parities (x + 1) 0) 1)

def rhoPi (numbers : List ℕ) : List ℕ :=
  table fun x y => rotateNat (entry numbers (x + 3 * y) x) (entry offsets (x + 3 * y) x)

def chiIota (constant : ℕ) (numbers : List ℕ) : List ℕ :=
  table fun x y =>
    let lane := entry numbers x y ^^^ ((2 ^ 64 - 1 - entry numbers (x + 1) y) &&& entry numbers (x + 2) y)
    if x = 0 ∧ y = 0 then lane ^^^ constant else lane

/-- A round, with all numbers computed after each step. -/
def roundWith {α : Type} (constant : ℕ) (numbers : List ℕ) (next : List ℕ → α) : α :=
  forcedList (parities numbers) fun parities =>
  forcedList (thetaWith numbers parities) fun numbers =>
  forcedList (rhoPi numbers) fun numbers =>
  forcedList (chiIota constant numbers) next

def rounds : List ℕ → List ℕ → List ℕ
  | [], numbers => numbers
  | constant :: rest, numbers => roundWith constant numbers (rounds rest)

/-! ## The numbers of lanes -/

/-- The numbers are those of the lanes. -/
def Evaluates (numbers : List ℕ) (A : Lanes) : Prop := ∀ x y : Fin 5, entry numbers x y = (A x y).toNat

theorem entry_table (entries : Fin 5 → Fin 5 → ℕ) (x y : Fin 5) : entry (table entries) x y = entries x y := by
  fin_cases y <;> fin_cases x <;> rfl

theorem rotateNat_eq {count : ℕ} (bound : count < 64) (lane : UInt64) :
    rotateNat lane.toNat count = (rotate lane count).toNat := by
  have turned : (rotate lane count).toNat = (lane.toBitVec.rotateLeft count).toNat := rfl
  rw [turned, BitVec.toNat_rotateLeft, Nat.mod_eq_of_lt bound]
  rfl

theorem offsets_eq (x y : Fin 5) : entry offsets x y = rotation x y := by
  decide +revert +kernel

section

variable {numbers : List ℕ} {A : Lanes} (evaluates : Evaluates numbers A)

include evaluates

theorem entry_parities (x : Fin 5) : entry (parities numbers) x 0 = (parity A x).toNat := by
  have column : entry (parities numbers) x 0 =
      entry numbers x 0 ^^^ entry numbers x 1 ^^^ entry numbers x 2 ^^^ entry numbers x 3 ^^^ entry numbers x 4 := by
    fin_cases x <;> rfl
  simp only [column, evaluates _ _, parity, UInt64.toNat_xor]

theorem evaluates_theta : Evaluates (thetaWith numbers (parities numbers)) (theta A) := by
  intro x y
  rw [thetaWith, entry_table, evaluates, entry_parities evaluates, entry_parities evaluates, rotateNat_eq (by decide)]
  simp only [theta, UInt64.toNat_xor]

theorem evaluates_rhoPi : Evaluates (rhoPi numbers) (Keccak.pi (rho A)) := by
  intro x y
  rw [rhoPi, entry_table, evaluates, offsets_eq, rotateNat_eq (rotation_bound _ _), Keccak.pi, rho]

theorem evaluates_chiIota (constant : UInt64) : Evaluates (chiIota constant.toNat numbers) (iota constant (chi A)) := by
  intro x y
  rw [chiIota, entry_table, iota]
  simp only [evaluates _ _, chi]
  split_ifs <;> simp only [UInt64.toNat_xor, UInt64.toNat_and, UInt64.toNat_not, UInt64.size] <;> rfl

theorem evaluates_rounds (constants : List UInt64) :
    Evaluates (rounds (constants.map UInt64.toNat) numbers) (constants.foldl Keccak.round A) := by
  induction constants generalizing numbers A with
  | nil => exact evaluates
  | cons constant rest ih =>
    rw [List.map_cons, rounds, List.foldl_cons, roundWith]
    simp only [forcedList_eq]
    exact ih (evaluates_chiIota (evaluates_rhoPi (evaluates_theta evaluates)) constant)

theorem evaluates_f : Evaluates (rounds (Sha3.keccakRoundConstants.map UInt64.toNat) numbers) (f A) := by
  rw [f, ← keccakRoundConstants_eq]
  exact evaluates_rounds evaluates _

end

/-! ## Short messages -/

/-- The first bytes of the hash of a message that fits one block, from the numbers of its first lane. -/
def firstBytes (rate : ℕ) (suffix : UInt8) (message : Bytes) : Bytes :=
  let block := lastBlock rate suffix message
  let numbers := table fun x y => leNat ((block.drop (8 * (5 * y.val + x.val))).take 8) % 2 ^ 64
  forcedList numbers fun numbers =>
    (leBytes 8 (entry (rounds (Sha3.keccakRoundConstants.map UInt64.toNat) numbers) 0 0)).take 4

theorem firstBytes_eq {rate : ℕ} {suffix : UInt8} {message : Bytes} (short : message.length < rate) {length : ℕ}
    (long : 4 ≤ length) : firstBytes rate suffix message = (Keccak.hash rate suffix length message).take 4 := by
  have waiting : Absorption.feed absorbBlock rate ⟨fun _ _ => 0, []⟩ message = ⟨fun _ _ => 0, message⟩ :=
    Absorption.feed_short (by rwa [List.length_nil, Nat.zero_add])
  have first_lane (A : Lanes) : (laneBytes A).take 4 = (leBytes 8 (A 0 0).toNat).take 4 := by
    have front : laneBytes A = leBytes 8 (A 0 0).toNat ++ (laneBytes A).drop 8 := by
      conv_lhs => rw [← List.take_append_drop 8 (laneBytes A)]
      rfl
    rw [front, List.take_append_of_le_length (by rw [leBytes_length]; decide)]
  have absorbs : Evaluates
      (table fun x y => leNat (((lastBlock rate suffix message).drop (8 * (5 * y.val + x.val))).take 8) % 2 ^ 64)
      (fun x y => 0 ^^^ word (lastBlock rate suffix message) (5 * y.val + x.val)) := by
    intro x y
    rw [entry_table]
    simp only [UInt64.zero_xor, word, UInt64.toNat_ofNat']
  rw [firstBytes, forcedList_eq, evaluates_f absorbs, Keccak.hash, waiting, List.take_take, min_eq_left long,
    first_lane]
  rfl

example : firstBytes 136 1 (ascii "totalSupply()") = [0x18, 0x16, 0x0d, 0xdd] := by decide +kernel

end Iotex.Evaluation
