import Mathlib.Data.List.Basic
import Mathlib.Tactic.Ring
import Mathlib.Algebra.Order.Ring.Nat
import Mathlib.Algebra.Order.Group.Nat
import Mathlib.Tactic.Positivity

/-! # Byte strings and fixed-width numbers

Big-endian and little-endian renderings of natural numbers at a fixed width, the value a
big-endian string denotes, and padding to a multiple of a block. Nothing here depends on a
particular format; the numbers are naturals and a rendering keeps only their low bytes.
-/

namespace Iotex

abbrev Bytes := List UInt8

/-- The bytes of an ASCII literal. -/
def ascii (text : String) : Bytes := text.toList.map fun c => UInt8.ofNat c.toNat

/-- The low `width` bytes of a number, least significant first. -/
def leBytes : ℕ → ℕ → Bytes
  | 0, _ => []
  | width + 1, value => UInt8.ofNat (value % 256) :: leBytes width (value / 256)

/-- The low `width` bytes of a number, most significant first. -/
def beBytes (width value : ℕ) : Bytes := (leBytes width value).reverse

/-- The number a little-endian string denotes. -/
def leNat : Bytes → ℕ
  | [] => 0
  | byte :: rest => byte.toNat + 256 * leNat rest

/-- The number a big-endian string denotes. -/
def beNat (bytes : Bytes) : ℕ := leNat bytes.reverse

@[simp] theorem leBytes_length (width value : ℕ) : (leBytes width value).length = width := by
  induction width generalizing value with
  | zero => rfl
  | succ width ih => simp only [leBytes, List.length_cons, ih]

@[simp] theorem beBytes_length (width value : ℕ) : (beBytes width value).length = width := by
  simp only [beBytes, List.length_reverse, leBytes_length]

/-- Rendering keeps exactly the value modulo the width. -/
theorem leNat_leBytes (width value : ℕ) : leNat (leBytes width value) = value % 256 ^ width := by
  induction width generalizing value with
  | zero => simp [leBytes, leNat, Nat.mod_one]
  | succ width ih =>
    have low : (UInt8.ofNat (value % 256)).toNat = value % 256 := by simp
    rw [leBytes, leNat, low, ih, pow_succ', Nat.mod_mul]

theorem beNat_beBytes (width value : ℕ) : beNat (beBytes width value) = value % 256 ^ width := by
  rw [beNat, beBytes, List.reverse_reverse, leNat_leBytes]

/-- A string is the rendering of the number it denotes. -/
theorem leBytes_leNat (bytes : Bytes) : leBytes bytes.length (leNat bytes) = bytes := by
  induction bytes with
  | nil => rfl
  | cons byte rest ih =>
    have low := byte.toNat_lt
    have head : (byte.toNat + 256 * leNat rest) % 256 = byte.toNat := by omega
    have tail : (byte.toNat + 256 * leNat rest) / 256 = leNat rest := by omega
    simp only [List.length_cons, leNat, leBytes, head, tail, ih, UInt8.ofNat_toNat]

/-- Two numbers below the width's range with one rendering are equal. -/
theorem beBytes_inj {width a b : ℕ} (boundA : a < 256 ^ width) (boundB : b < 256 ^ width)
    (same : beBytes width a = beBytes width b) : a = b := by
  have values := congrArg beNat same
  rwa [beNat_beBytes, beNat_beBytes, Nat.mod_eq_of_lt boundA, Nat.mod_eq_of_lt boundB] at values

/-- Only the value modulo the width matters. -/
theorem leBytes_mod (width value : ℕ) : leBytes width (value % 256 ^ width) = leBytes width value := by
  have lengths := leBytes_leNat (leBytes width value)
  rwa [leBytes_length, leNat_leBytes] at lengths

/-- A prefix of a little-endian rendering is the rendering at the smaller width. -/
theorem leBytes_take (count width value : ℕ) (bound : count ≤ width) :
    (leBytes width value).take count = leBytes count value := by
  induction count generalizing width value with
  | zero => rfl
  | succ count ih =>
    obtain ⟨width, rfl⟩ : ∃ w, width = w + 1 := ⟨width - 1, by omega⟩
    simp only [leBytes, List.take_succ_cons, ih width (value / 256) (by omega)]

@[simp] theorem leBytes_zero (width : ℕ) : leBytes width 0 = List.replicate width 0 := by
  induction width with
  | zero => rfl
  | succ width ih =>
    rw [leBytes, Nat.zero_div, ih]
    rfl

/-- A rendering splits into the renderings of its low and its high part. -/
theorem leBytes_split (low high value : ℕ) :
    leBytes (low + high) value = leBytes low value ++ leBytes high (value / 256 ^ low) := by
  induction low generalizing value with
  | zero => simp only [Nat.zero_add, pow_zero, Nat.div_one, leBytes, List.nil_append]
  | succ low ih =>
    rw [show low + 1 + high = (low + high) + 1 by omega, leBytes, leBytes, ih, pow_succ', Nat.div_div_eq_div_mul]
    rfl

/-- The largest number of a width is rendered with all bits set. -/
theorem leBytes_max (width : ℕ) : leBytes width (256 ^ width - 1) = List.replicate width 255 := by
  induction width with
  | zero => rfl
  | succ width ih =>
    have positive : 0 < 256 ^ width := by positivity
    have low : (256 ^ (width + 1) - 1) % 256 = 255 := by rw [pow_succ]; omega
    have high : (256 ^ (width + 1) - 1) / 256 = 256 ^ width - 1 := by rw [pow_succ]; omega
    rw [leBytes, low, high, ih]
    rfl

/-- High zero bytes of a little-endian rendering. -/
theorem leBytes_add (low high value : ℕ) (bound : value < 256 ^ low) :
    leBytes (low + high) value = leBytes low value ++ List.replicate high 0 := by
  rw [leBytes_split, Nat.div_eq_of_lt bound, leBytes_zero]

/-- A number that fits `low` bytes is rendered at a larger width behind zeros. -/
theorem beBytes_add (low high value : ℕ) (bound : value < 256 ^ low) :
    beBytes (low + high) value = List.replicate high 0 ++ beBytes low value := by
  rw [beBytes, leBytes_add low high value bound, List.reverse_append, List.reverse_replicate, beBytes]

theorem lt_of_mem_map_toNat {bytes : Bytes} {value : ℕ} (member : value ∈ bytes.map UInt8.toNat) : value < 256 := by
  obtain ⟨byte, -, rfl⟩ := List.mem_map.mp member
  exact byte.toNat_lt

/-- Numbers of one byte as bytes and back. -/
theorem map_toNat_map_ofNat {values : List ℕ} (small : ∀ value ∈ values, value < 256) :
    (values.map UInt8.ofNat).map UInt8.toNat = values := by
  rw [List.map_map]
  apply (List.map_congr_left _).trans values.map_id'
  intro value member
  exact UInt8.toNat_ofNat_of_lt' (small value member)

theorem map_ofNat_map_toNat (bytes : Bytes) : (bytes.map UInt8.toNat).map UInt8.ofNat = bytes := by
  rw [List.map_map]
  apply (List.map_congr_left _).trans bytes.map_id'
  intro byte _
  exact UInt8.ofNat_toNat

/-- The number of blocks of `block` bytes that hold `length` bytes. -/
def blocks (block length : ℕ) : ℕ := (length + (block - 1)) / block

/-- Zeros up to the next multiple of `block`. -/
def padRight (block : ℕ) (bytes : Bytes) : Bytes :=
  bytes ++ List.replicate (blocks block bytes.length * block - bytes.length) 0

theorem le_blocks_mul (block length : ℕ) (positive : 0 < block) :
    length ≤ blocks block length * block := by
  have := Nat.div_add_mod (length + (block - 1)) block
  have := Nat.mod_lt (length + (block - 1)) positive
  rw [blocks, Nat.mul_comm]
  omega

theorem padRight_length (block : ℕ) (bytes : Bytes) (positive : 0 < block) :
    (padRight block bytes).length = blocks block bytes.length * block := by
  have := le_blocks_mul block bytes.length positive
  simp only [padRight, List.length_append, List.length_replicate]
  omega

/-- Equal-length strings padded to one text were equal. -/
theorem padRight_inj {block : ℕ} {a b : Bytes} (length : a.length = b.length)
    (same : padRight block a = padRight block b) : a = b :=
  (List.append_inj same length).1

end Iotex
