import Mathlib.Data.List.Basic
import Mathlib.Tactic.Ring
import Mathlib.Algebra.Order.Ring.Nat
import Mathlib.Tactic.Positivity

/-! # Symbols of one width as symbols of another

A list of symbols of a fixed width is a string of bits, highest first within a symbol, and that
string can be cut into symbols of another width. Cutting loses nothing when the new width divides
the number of bits.
-/

namespace Iotex

/-- The low `width` bits of a number, highest first. -/
def bitsOf : ℕ → ℕ → List Bool
  | 0, _ => []
  | width + 1, value => (value / 2 ^ width % 2 == 1) :: bitsOf width (value % 2 ^ width)

/-- The number that bits denote, highest first. -/
def ofBits : List Bool → ℕ
  | [] => 0
  | bit :: rest => bit.toNat * 2 ^ rest.length + ofBits rest

/-- The first `count` groups of `width` bits as numbers. -/
def groups (width : ℕ) : ℕ → List Bool → List ℕ
  | 0, _ => []
  | count + 1, bits => ofBits (bits.take width) :: groups width count (bits.drop width)

/-- Symbols of `source` bits as symbols of `target` bits; bits that fill no symbol are dropped. -/
def regroup (source target : ℕ) (symbols : List ℕ) : List ℕ :=
  groups target (source * symbols.length / target) (symbols.flatMap (bitsOf source))

@[simp] theorem bitsOf_length (width value : ℕ) : (bitsOf width value).length = width := by
  induction width generalizing value with
  | zero => rfl
  | succ width ih => rw [bitsOf, List.length_cons, ih]

theorem ofBits_lt (bits : List Bool) : ofBits bits < 2 ^ bits.length := by
  induction bits with
  | nil => simp [ofBits]
  | cons bit rest ih =>
    have digit := Bool.toNat_le bit
    have scaled := Nat.mul_le_mul_right (2 ^ rest.length) digit
    rw [ofBits, List.length_cons, pow_succ]
    omega

/-- Bits are those of the number they denote. -/
theorem bitsOf_ofBits (bits : List Bool) : bitsOf bits.length (ofBits bits) = bits := by
  induction bits with
  | nil => rfl
  | cons bit rest ih =>
    have low := ofBits_lt rest
    have quotient : (bit.toNat * 2 ^ rest.length + ofBits rest) / 2 ^ rest.length = bit.toNat := by
      rw [Nat.mul_comm, Nat.mul_add_div (by positivity), Nat.div_eq_of_lt low, Nat.add_zero]
    have remainder : (bit.toNat * 2 ^ rest.length + ofBits rest) % 2 ^ rest.length = ofBits rest := by
      rw [Nat.mul_comm, Nat.mul_add_mod, Nat.mod_eq_of_lt low]
    rw [ofBits, List.length_cons, bitsOf, quotient, remainder, ih]
    cases bit <;> rfl

/-- A number that fits the width is the one its bits denote. -/
theorem ofBits_bitsOf {width value : ℕ} (fits : value < 2 ^ width) : ofBits (bitsOf width value) = value := by
  induction width generalizing value with
  | zero =>
    rw [pow_zero] at fits
    rw [bitsOf, ofBits]
    omega
  | succ width ih =>
    have low : value / 2 ^ width < 2 := by
      apply Nat.div_lt_of_lt_mul
      rwa [← pow_succ]
    have digit : (value / 2 ^ width % 2 == 1).toNat = value / 2 ^ width := by
      obtain zero | one := Nat.le_one_iff_eq_zero_or_eq_one.mp (Nat.le_of_lt_succ low)
      · rw [zero]; rfl
      · rw [one]; rfl
    rw [bitsOf, ofBits, bitsOf_length, ih (Nat.mod_lt _ (by positivity)), digit, Nat.div_add_mod']

theorem flatMap_bitsOf_length (width : ℕ) (symbols : List ℕ) :
    (symbols.flatMap (bitsOf width)).length = width * symbols.length := by
  induction symbols with
  | nil => rfl
  | cons symbol rest ih =>
    rw [List.flatMap_cons, List.length_append, bitsOf_length, ih, List.length_cons]
    ring

@[simp] theorem groups_length (width count : ℕ) (bits : List Bool) : (groups width count bits).length = count := by
  induction count generalizing bits with
  | zero => rfl
  | succ count ih => rw [groups, List.length_cons, ih]

theorem groups_lt {width count : ℕ} {bits : List Bool} {symbol : ℕ} (member : symbol ∈ groups width count bits) :
    symbol < 2 ^ width := by
  induction count generalizing bits with
  | zero => simp [groups] at member
  | succ count ih =>
    rw [groups, List.mem_cons] at member
    rcases member with rfl | member
    · apply (ofBits_lt _).trans_le
      apply Nat.pow_le_pow_right (by omega)
      exact List.length_take_le _ _
    · exact ih member

/-- Groups of a symbol's width are the symbols. -/
theorem groups_flatMap {width : ℕ} {symbols : List ℕ} (fit : ∀ symbol ∈ symbols, symbol < 2 ^ width) :
    groups width symbols.length (symbols.flatMap (bitsOf width)) = symbols := by
  induction symbols with
  | nil => rfl
  | cons symbol rest ih =>
    have first := bitsOf_length width symbol
    rw [List.length_cons, groups, List.flatMap_cons, List.take_left' first, List.drop_left' first,
      ofBits_bitsOf (fit symbol List.mem_cons_self), ih fun other member => fit other (List.mem_cons_of_mem _ member)]

/-- The bits of groups are the part of the string that they use. -/
theorem flatMap_groups_take {width count : ℕ} {bits : List Bool} (enough : width * count ≤ bits.length) :
    (groups width count bits).flatMap (bitsOf width) = bits.take (width * count) := by
  induction count generalizing bits with
  | zero => rfl
  | succ count ih =>
    rw [Nat.mul_succ] at enough
    have first : (bits.take width).length = width := by
      rw [List.length_take]
      omega
    have others : width * count ≤ (bits.drop width).length := by
      rw [List.length_drop]
      omega
    have head := bitsOf_ofBits (bits.take width)
    rw [first] at head
    rw [groups, List.flatMap_cons, head, ih others, Nat.mul_succ, Nat.add_comm, List.take_add]

/-- The bits of groups that use up a string are the string. -/
theorem flatMap_groups {width count : ℕ} {bits : List Bool} (whole : bits.length = width * count) :
    (groups width count bits).flatMap (bitsOf width) = bits := by
  rw [flatMap_groups_take whole.ge, ← whole, List.take_length]

/-- Groups do not depend on the bits behind them. -/
theorem groups_append {width count : ℕ} {bits : List Bool} (rest : List Bool) (enough : width * count ≤ bits.length) :
    groups width count (bits ++ rest) = groups width count bits := by
  induction count generalizing bits with
  | zero => rfl
  | succ count ih =>
    rw [Nat.mul_succ] at enough
    have others : width * count ≤ (bits.drop width).length := by
      rw [List.length_drop]
      omega
    rw [groups, groups, List.take_append_of_le_length (by omega), List.drop_append_of_le_length (by omega), ih others]

@[simp] theorem regroup_length (source target : ℕ) (symbols : List ℕ) :
    (regroup source target symbols).length = source * symbols.length / target := groups_length _ _ _

theorem regroup_lt {source target symbol : ℕ} {symbols : List ℕ} (member : symbol ∈ regroup source target symbols) :
    symbol < 2 ^ target := groups_lt member

/-- Regrouping back gives the symbols when no bits were left over. -/
theorem regroup_regroup {source target : ℕ} {symbols : List ℕ} (positive : 0 < source)
    (whole : target ∣ source * symbols.length) (fit : ∀ symbol ∈ symbols, symbol < 2 ^ source) :
    regroup target source (regroup source target symbols) = symbols := by
  have used : target * (source * symbols.length / target) = source * symbols.length := Nat.mul_div_cancel' whole
  have bits : (regroup source target symbols).flatMap (bitsOf target) = symbols.flatMap (bitsOf source) := by
    apply flatMap_groups
    rw [flatMap_bitsOf_length, used]
  rw [regroup, bits, regroup_length, used, Nat.mul_div_cancel_left _ positive, groups_flatMap fit]

end Iotex
