import Mathlib.Tactic.FinCases
import Iotex.Lib.Keccak
import Iotex.Model.Sha3

/-! # The permutation of the vendored hash

The steps of `sha3_permutation` work on one array of 25 words, mostly in place. On the lanes that the
array stands for, row by row, they are the steps of the permutation.
-/

namespace Iotex

open Keccak Sha3

/-- Where the lane of a column and a row stands. -/
def place (x y : Fin 5) : Fin 25 := ⟨5 * y.val + x.val, by omega⟩

/-- The lanes of an array, row by row. -/
def lanes (state : KeccakState) : Lanes := fun x y => state[place x y]

/-! ## Writing in place -/

section

variable {size : ℕ} {α Entry : Type} {target source : Entry → Fin size} {value : Entry → α → α}

/-- Writes that neither change nor read what an earlier one of them has changed. -/
theorem foldl_set_get {entries : List Entry}
    (fresh : entries.Pairwise fun first later => target later ≠ target first ∧ source later ≠ target first)
    (A : Vector α size) (i : Fin size) :
    (entries.foldl (fun A entry => A.set (target entry) (value entry A[source entry])) A)[i] =
      (entries.find? fun entry => target entry = i).elim A[i] fun entry => value entry A[source entry] := by
  induction entries generalizing A with
  | nil => rfl
  | cons entry rest ih =>
    obtain ⟨apart, fresh⟩ := List.pairwise_cons.mp fresh
    rw [List.foldl_cons, ih fresh, List.find?_cons]
    cases found : rest.find? fun entry => target entry = i with
    | none =>
      simp only [Fin.getElem_fin, Vector.getElem_set, Fin.val_inj]
      split_ifs with here <;> simp [here]
    | some later =>
      have member := List.mem_of_find?_eq_some found
      have there : target later = i := by simpa using List.find?_some found
      have unread := Fin.val_ne_iff.mpr (apart later member).2.symm
      have other : target entry ≠ i := there ▸ (apart later member).1.symm
      simp only [Fin.getElem_fin, Option.elim_some, Vector.getElem_set_ne _ _ unread, other, decide_false]

end

/-! ## The steps -/

theorem rotl64_eq {n : ℕ} (positive : 0 < n) (bound : n < 64) (lane : UInt64) :
    rotl64 lane (UInt64.ofNat n) = rotate lane n := by
  have small : n % 64 = n := Nat.mod_eq_of_lt bound
  have rest : (18446744073709551616 - n % 18446744073709551616) % 64 = 64 - n := by omega
  rw [rotl64, rotate, ← UInt64.toBitVec_inj]
  simp only [UInt64.toBitVec_xor, UInt64.toBitVec_shiftLeft, UInt64.toBitVec_shiftRight]
  apply BitVec.eq_of_getLsbD_eq
  intro i inside
  rw [BitVec.getLsbD_rotateLeft, BitVec.getLsbD_xor]
  simp [small, rest]
  rcases Nat.lt_or_ge i n with low | high
  · simp [low]
  · simp [inside, Nat.not_lt.mpr high, BitVec.getLsbD_of_ge lane.toBitVec (64 - n + i) (by omega)]

theorem rotate_zero (lane : UInt64) : rotate lane 0 = lane := by
  rw [rotate, ← UInt64.toBitVec_inj]
  apply BitVec.eq_of_getLsbD_eq
  intro i inside
  simp [inside]

theorem lanes_theta (state : KeccakState) : lanes (keccakTheta state) = theta (lanes state) := by
  have once := @rotl64_eq 1 (by decide) (by decide)
  rw [UInt64.ofNat_one] at once
  funext x y
  have column : (5 * y.val + x.val) % 5 = x.val := by omega
  simp only [lanes, keccakTheta, theta, place, Fin.getElem_fin, Vector.getElem_ofFn, column, once]
  refine congrArg (state[5 * y.val + x.val] ^^^ ·) ?_
  fin_cases x <;> simp [parity, lanes, place] <;> exact UInt64.xor_comm _ _

theorem rotation_bound (x y : Fin 5) : rotation x y < 64 := by decide +revert

/-- The rotations of the source are those along the walk. -/
theorem rhoRotations_find (x y : Fin 5) :
    rhoRotations.find? (fun entry => entry.1 = place x y) =
      if rotation x y = 0 then none else some (place x y, UInt64.ofNat (rotation x y)) := by
  decide +revert +kernel

theorem lanes_rho (state : KeccakState) : lanes (keccakRho state) = rho (lanes state) := by
  have fresh : rhoRotations.Pairwise fun first later => later.1 ≠ first.1 ∧ later.1 ≠ first.1 := by decide
  funext x y
  have written := @foldl_set_get 25 UInt64 _ Prod.fst Prod.fst (fun entry lane => rotl64 lane entry.2) _ fresh state
    (place x y)
  rw [rhoRotations_find] at written
  rw [lanes, keccakRho, written, rho]
  by_cases still : rotation x y = 0
  · rw [if_pos still, still, rotate_zero, lanes, Option.elim_none]
  · rw [if_neg still]
    exact rotl64_eq (Nat.pos_of_ne_zero still) (rotation_bound x y) _

/-- The moves of the source take a lane from where the step takes it from. -/
theorem piMoves_find (x y : Fin 5) :
    (if place x y = 10 then 1
      else (piMoves.find? fun entry => entry.1 = place x y).elim (place x y) Prod.snd) = place (x + 3 * y) x := by
  decide +revert +kernel

theorem lanes_pi (state : KeccakState) : lanes (keccakPi state) = pi (lanes state) := by
  have fresh : piMoves.Pairwise fun first later => later.1 ≠ first.1 ∧ later.2 ≠ first.1 := by decide
  funext x y
  have written := @foldl_set_get 25 UInt64 _ Prod.fst Prod.snd (fun _ lane => lane) _ fresh state (place x y)
  have moved := piMoves_find x y
  by_cases last : place x y = 10
  · rw [if_pos last] at moved
    simp only [lanes, keccakPi, pi, ← moved, last]
    exact Vector.getElem_set_self _
  · rw [if_neg last] at moved
    have kept : lanes (keccakPi state) x y =
        (piMoves.foldl (fun A entry => A.set entry.1 A[entry.2]) state)[place x y] :=
      Vector.getElem_set_ne (by decide) _ fun same => last (Fin.ext same.symm)
    rw [kept, written]
    cases found : piMoves.find? fun entry => entry.1 = place x y <;> rw [found] at moved <;>
      exact congrArg (fun i : Fin 25 => state[i]) moved

/-- A row is replaced by what the step makes of it. -/
theorem lanes_chiRow (state : KeccakState) (row x y : Fin 5) :
    lanes (keccakChiRow state row) x y = if y = row then chi (lanes state) x y else lanes state x y := by
  simp only [lanes, keccakChiRow, chi, place, Fin.getElem_fin]
  split_ifs with same
  · subst same
    fin_cases x <;>
      simp (disch := omega) [Nat.add_comm _ (5 * y.val), Vector.getElem_set_ne]
  · have apart : y.val ≠ row.val := Fin.val_ne_of_ne same
    rw [Vector.getElem_set_ne _ _ (by omega), Vector.getElem_set_ne _ _ (by omega),
      Vector.getElem_set_ne _ _ (by omega), Vector.getElem_set_ne _ _ (by omega),
      Vector.getElem_set_ne _ _ (by omega)]

/-- A step over distinct rows, as a row does not look at the others. -/
theorem lanes_chiRows {rows : List (Fin 5)} (distinct : rows.Nodup) (state : KeccakState) (x y : Fin 5) :
    lanes (rows.foldl keccakChiRow state) x y = if y ∈ rows then chi (lanes state) x y else lanes state x y := by
  induction rows generalizing state with
  | nil => rfl
  | cons row rest ih =>
    obtain ⟨fresh, distinct⟩ := List.nodup_cons.mp distinct
    rw [List.foldl_cons, ih distinct]
    by_cases here : y = row
    · rw [here, if_neg fresh, if_pos List.mem_cons_self, lanes_chiRow, if_pos rfl]
    · have row_kept (x : Fin 5) : lanes (keccakChiRow state row) x y = lanes state x y := by
        rw [lanes_chiRow, if_neg here]
      simp only [chi, row_kept, List.mem_cons, here, false_or]

theorem lanes_chi (state : KeccakState) : lanes (keccakChi state) = chi (lanes state) := by
  funext x y
  rw [keccakChi, lanes_chiRows (List.nodup_finRange 5), if_pos (List.mem_finRange y)]

/-! ## The permutation -/

theorem lanes_iota (state : KeccakState) (constant : UInt64) :
    lanes (keccakIota constant state) = iota constant (lanes state) := by
  funext x y
  have corner : (0 = (place x y).val) = (x = 0 ∧ y = 0) := by
    simp only [place, Fin.ext_iff, Fin.val_zero, eq_iff_iff]
    omega
  simp only [lanes, keccakIota, iota, Fin.getElem_fin, Vector.getElem_set, corner]
  split_ifs with at_corner
  · rw [at_corner.1, at_corner.2]
    rfl
  · rfl

/-- The constants of the source come out of the feedback register. -/
theorem keccakRoundConstants_eq : keccakRoundConstants = (List.range 24).map roundConstant := by
  decide +kernel

/-- The permutation of the source is that of the sponge. -/
theorem lanes_permutation (state : KeccakState) : lanes (sha3Permutation state) = f (lanes state) := by
  rw [sha3Permutation, f, keccakRoundConstants_eq]
  generalize (List.range 24).map roundConstant = constants
  induction constants generalizing state with
  | nil => rfl
  | cons constant rest ih =>
    rw [List.foldl_cons, List.foldl_cons, ih, lanes_iota, lanes_chi, lanes_pi, lanes_rho, lanes_theta, Keccak.round]

end Iotex
