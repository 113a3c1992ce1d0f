import Iotex.Lib.HighBits
import Iotex.Model.Random

/-! # The bytes of a drawn buffer

The numbers that `random` can return on some bits are exactly those below its bound, whether the bound is
a power of two or the loop has to start again. `fillRandom` asks for a number from 1 up to but not
including 255, so the bytes 0 and 255 are in no position of a buffer, and all others are in every position
on some stream.
-/

namespace Iotex

open ESP8266TrueRandom Draw

variable {howBig topBit randomValue bitPosition value : ℕ} {bits rest : List Bool}

theorem two_pow_shiftRight_one (position : ℕ) : 2 ^ (position + 1) >>> 1 = 2 ^ position := by
  rw [Nat.shiftRight_one, pow_succ, Nat.mul_div_cancel _ (by norm_num)]

/-! ## The loop that starts again -/

/-- After a bit the loop ends with a number below the bound or goes on from one. -/
private theorem drawBelow_next (positive : 0 < howBig) (bit : Bool) :
    ∃ number position, number < howBig ∧ drawBelow howBig topBit (bit :: bits) randomValue bitPosition =
      if position = 0 then some (number, bits) else drawBelow howBig topBit bits number position := by
  rw [drawBelow]
  generalize (if bit = true then randomValue ||| bitPosition else randomValue) = candidate
  rcases Nat.lt_or_ge candidate howBig with inside | above
  · exact ⟨candidate, bitPosition >>> 1, inside, by simp only [Nat.not_le.mpr inside, if_false]⟩
  · exact ⟨0, topBit, positive, by simp only [above, if_true]⟩

private theorem drawBelow_lt (positive : 0 < howBig)
    (ran : drawBelow howBig topBit bits randomValue bitPosition = some (value, rest)) : value < howBig := by
  induction bits generalizing randomValue bitPosition with
  | nil => simp [drawBelow] at ran
  | cons bit bits ih =>
    obtain ⟨number, position, below, next⟩ := @drawBelow_next howBig topBit randomValue bitPosition bits positive bit
    rw [next] at ran
    split_ifs at ran
    · obtain ⟨rfl, -⟩ := Prod.mk.inj (Option.some.inj ran)
      exact below
    · exact ih ran

/-- The digits of a number below the bound lead to it, and the loop never starts again on them. -/
theorem drawBelow_reaches (below : value < howBig) (position : ℕ) (more : List Bool) :
    drawBelow howBig topBit (bitsBelow value (position + 1) ++ more) (highPart value (position + 1)) (2 ^ position) =
      some (value, more) := by
  induction position with
  | zero =>
    rw [bitsBelow, bitsBelow, List.cons_append, List.nil_append, drawBelow, highPart_step, highPart_zero]
    simp [Nat.not_le.mpr below]
  | succ position ih =>
    have inside : ¬ howBig ≤ highPart value (position + 1) :=
      Nat.not_le.mpr ((highPart_le value (position + 1)).trans_lt below)
    rw [bitsBelow, List.cons_append, drawBelow, highPart_step]
    simp only [inside, if_false, two_pow_shiftRight_one, pow_eq_zero_iff', OfNat.ofNat_ne_zero, false_and]
    exact ih

/-! ## The loop for a power of two -/

theorem drawBits_zero : drawBits bits randomValue 0 = some (randomValue, bits) := by
  cases bits <;> rfl

/-- The bits that are still to be drawn keep the number below the bound. -/
private theorem drawBits_lt {position : ℕ} (aligned : 2 ^ position ∣ randomValue)
    (room : randomValue + 2 ^ position ≤ howBig)
    (ran : drawBits bits randomValue (2 ^ position >>> 1) = some (value, rest)) : value < howBig := by
  induction position generalizing bits randomValue with
  | zero =>
    obtain ⟨rfl, -⟩ := Prod.mk.inj (Option.some.inj (drawBits_zero.symm.trans ran))
    exact room
  | succ position ih =>
    rw [two_pow_shiftRight_one] at ran
    cases bits with
    | nil => simp [drawBits] at ran
    | cons bit bits =>
      have halves : 2 ^ position ∣ 2 ^ (position + 1) := pow_dvd_pow 2 (Nat.le_succ position)
      rw [drawBits, if_neg (by positivity), or_two_pow aligned] at ran
      refine ih ?_ ?_ ran
      · split
        · exact Nat.dvd_add (halves.trans aligned) dvd_rfl
        · exact halves.trans aligned
      · rw [pow_succ] at room
        split <;> omega

theorem drawBits_reaches (value position : ℕ) (more : List Bool) :
    drawBits (bitsBelow value position ++ more) (highPart value position) (2 ^ position >>> 1) =
      some (value, more) := by
  induction position with
  | zero =>
    rw [bitsBelow, List.nil_append, highPart_zero]
    exact drawBits_zero
  | succ position ih =>
    rw [bitsBelow, List.cons_append, two_pow_shiftRight_one, drawBits, if_neg (by positivity), highPart_step]
    exact ih

/-! ## Numbers in a range -/

theorem fillTopBit_eq {topBit : ℕ} (positive : topBit ≠ 0) (bound : topBit < 2 ^ 32) :
    fillTopBit topBit = 2 ^ (topBit.log2 + 1) - 1 :=
  (spreads_self topBit).double.double.double.double.double.eq_of_lt positive bound

theorem random_lt (positive : 0 < howBig) (ran : Returns (random howBig) bits value rest) : value < howBig := by
  rw [random, if_neg positive.ne'] at ran
  split_ifs at ran with power
  · obtain ⟨sum, between, _, later⟩ := returns_bind.mp ran
    exact drawBelow_lt positive (returns_loop.mp later)
  · obtain ⟨position, rfl⟩ := (Nat.and_sub_one_eq_zero_iff_isPowerOfTwo positive.ne').mp (not_not.mp power)
    refine drawBits_lt (dvd_zero _) ?_ (returns_loop.mp ran)
    rw [Nat.zero_add]

/-- Every number below the bound is drawn on the bits of the number. -/
theorem random_reaches (below : value < howBig) (bound : howBig ≤ 2 ^ 30) :
    ∃ bits, ∀ more, Returns (random howBig) (bits ++ more) value more := by
  have positive : howBig ≠ 0 := by omega
  rcases eq_or_ne (howBig &&& (howBig - 1)) 0 with power | power
  · obtain ⟨position, rfl⟩ := (Nat.and_sub_one_eq_zero_iff_isPowerOfTwo positive).mp power
    refine ⟨bitsBelow value position, fun more => ?_⟩
    have ran := drawBits_reaches value position more
    rw [highPart_of_lt below] at ran
    rw [random, if_neg positive, if_neg (not_not.mpr power)]
    exact returns_loop.mpr ran
  · have more_than_one : howBig - 1 ≠ 0 := by
      intro one
      simp [one] at power
    have filled := fillTopBit_eq more_than_one (show howBig - 1 < 2 ^ 32 by omega)
    have inside : value < 2 ^ ((howBig - 1).log2 + 1) :=
      (show value ≤ howBig - 1 by omega).trans_lt Nat.lt_log2_self
    have fits : 2 ^ ((howBig - 1).log2 + 1) ≤ 2 ^ 30 := by
      apply Nat.pow_le_pow_right (by norm_num)
      exact (Nat.log2_lt more_than_one).mpr (by omega)
    generalize (howBig - 1).log2 = top at filled inside fits
    have sum : addInt (fillTopBit (howBig - 1)) 1 = .ok ((2 ^ (top + 1) : ℕ) : ℤ) := by
      rw [filled, addInt, if_pos (by omega)]
      congr 1
      omega
    refine ⟨bitsBelow value (top + 1), fun more => ?_⟩
    have ran := @drawBelow_reaches _ (2 ^ top) _ below top more
    rw [highPart_of_lt inside] at ran
    rw [random, if_neg positive, if_pos power]
    refine returns_bind.mpr ⟨_, _, returns_exec.mpr ⟨sum, rfl⟩, returns_loop.mpr ?_⟩
    rw [Int.toNat_natCast, two_pow_shiftRight_one]
    exact ran

-- the seventh one makes 254, and the loop starts again
example : random 254 (List.replicate 7 true ++ List.replicate 8 false) = .ok (some (0, [])) := by decide

theorem randomBetween_bounds {howSmall howBig result : ℤ} (ordered : howSmall < howBig)
    (ran : Returns (randomBetween howSmall howBig) bits result rest) : howSmall ≤ result ∧ result < howBig := by
  rw [randomBetween, if_neg (Int.not_le.mpr ordered)] at ran
  obtain ⟨diff, _, difference, ran⟩ := returns_bind.mp ran
  obtain ⟨drawn, _, ran, sum⟩ := returns_bind.mp ran
  obtain ⟨difference, -⟩ := returns_exec.mp difference
  obtain ⟨sum, -⟩ := returns_exec.mp sum
  rw [addInt] at difference sum
  split_ifs at difference
  split_ifs at sum
  have difference := Except.ok.inj difference
  have sum := Except.ok.inj sum
  have below := random_lt (show 0 < diff.toNat by omega) ran
  omega

/-- Every number of a range that is not too wide is drawn on some bits. -/
theorem randomBetween_reaches {howSmall howBig result : ℤ} (least : howSmall ≤ result) (below : result < howBig)
    (wide : howBig - howSmall ≤ 2 ^ 30) (low : -2 ^ 31 ≤ howSmall) (high : howBig < 2 ^ 31) :
    ∃ bits, ∀ more, Returns (randomBetween howSmall howBig) (bits ++ more) result more := by
  obtain ⟨bits, ran⟩ := @random_reaches (howBig - howSmall).toNat (result - howSmall).toNat (by omega) (by omega)
  refine ⟨bits, fun more => ?_⟩
  rw [randomBetween, if_neg (by omega)]
  refine returns_bind.mpr ⟨howBig - howSmall, _, returns_exec.mpr ⟨?_, rfl⟩, ?_⟩
  · rw [addInt, if_pos (by omega)]
    rfl
  refine returns_bind.mpr ⟨_, _, ran more, returns_exec.mpr ⟨?_, rfl⟩⟩
  rw [addInt, if_pos (by omega)]
  congr 1
  omega

/-! ## The bytes of a buffer -/

/-- The byte is one that `random(1,255)` can return. -/
def Drawable (byte : UInt8) : Prop := 1 ≤ byte.toNat ∧ byte.toNat ≤ 254

theorem fillBytes_drawable {size : ℕ} {target : Bytes} (ran : Returns (Random.fillBytes size) bits target rest) :
    ∀ byte ∈ target, Drawable byte := by
  induction size generalizing bits target with
  | zero =>
    obtain ⟨rfl, -⟩ := returns_pure.mp ran
    simp
  | succ size ih =>
    obtain ⟨value, _, first, ran⟩ := returns_bind.mp ran
    obtain ⟨buf, _, others, ran⟩ := returns_bind.mp ran
    obtain ⟨rfl, rfl⟩ := returns_pure.mp ran
    have bounds := randomBetween_bounds (by norm_num) first
    rw [List.forall_mem_cons]
    refine ⟨?_, ih others⟩
    rw [Drawable, UInt8.toNat_ofNat']
    omega

theorem fillBytes_reaches (target : Bytes) (drawable : ∀ byte ∈ target, Drawable byte) :
    ∃ bits, ∀ more, Returns (Random.fillBytes target.length) (bits ++ more) target more := by
  induction target with
  | nil => exact ⟨[], fun more => returns_pure.mpr ⟨rfl, rfl⟩⟩
  | cons byte target ih =>
    obtain ⟨least, most⟩ := (List.forall_mem_cons.mp drawable).1
    obtain ⟨later, others⟩ := ih (List.forall_mem_cons.mp drawable).2
    obtain ⟨bits, first⟩ := @randomBetween_reaches 1 255 byte.toNat (by omega) (by omega) (by norm_num) (by norm_num)
      (by norm_num)
    refine ⟨bits ++ later, fun more => ?_⟩
    rw [List.append_assoc]
    refine returns_bind.mpr ⟨_, _, first _, returns_bind.mpr ⟨_, _, others more, returns_pure.mpr ⟨?_, rfl⟩⟩⟩
    congr 1
    rw [← UInt8.toNat_inj, UInt8.toNat_ofNat']
    omega

/-! ## Streams of raw bits -/

/-- Every sequence of bits is what some raw bits are whitened to. -/
theorem whiten_surjective (bits : List Bool) : ∃ raw, whiten raw = bits := by
  induction bits with
  | nil => exact ⟨[], rfl⟩
  | cons bit bits ih =>
    obtain ⟨raw, rfl⟩ := ih
    refine ⟨(!bit) :: bit :: raw, ?_⟩
    rw [whiten, if_neg (Bool.not_ne_self bit)]

theorem randomBits_surjective (bits : List Bool) : ∃ raw, randomBits raw = bits := by
  obtain ⟨once, rfl⟩ := whiten_surjective bits
  obtain ⟨raw, rfl⟩ := whiten_surjective once
  exact ⟨raw, rfl⟩

/-- On the stream of raw bits `fillRandom` fills a buffer of the given size with the target. -/
def FillsWith (stream : ℕ → Bool) (size : ℕ) (target : Bytes) : Prop :=
  ∃ count rest, Returns (Random.fillRandom size) (randomBits ((List.range count).map stream)) target rest

theorem fillsWith_drawable {stream : ℕ → Bool} {size : ℕ} {target : Bytes} (filled : FillsWith stream size target) :
    ∀ byte ∈ target, Drawable byte := by
  obtain ⟨count, rest, ran⟩ := filled
  obtain ⟨_, _, _, ran⟩ := returns_bind.mp ran
  exact fillBytes_drawable ran

private theorem exists_stream (raw : List Bool) :
    ∃ stream : ℕ → Bool, (List.range raw.length).map stream = raw := by
  refine ⟨fun index => raw.getD index false, ?_⟩
  apply List.ext_getElem (by simp)
  intro index _ inside
  simp [inside]

/-- A buffer can be filled with a sequence of bytes exactly when all of them are from 1 to 254, and their
number is one that the counter can reach. -/
theorem fillRandom_reaches (target : Bytes) :
    (∃ stream, FillsWith stream target.length target) ↔
      target.length < 2 ^ 31 ∧ ∀ byte ∈ target, 1 ≤ byte.toNat ∧ byte.toNat ≤ 254 := by
  constructor
  · rintro ⟨stream, filled⟩
    refine ⟨?_, fillsWith_drawable filled⟩
    obtain ⟨count, rest, ran⟩ := filled
    obtain ⟨_, _, counted, -⟩ := returns_bind.mp ran
    obtain ⟨counted, -⟩ := returns_exec.mp counted
    by_contra long
    rw [countInt_of_le (Nat.not_lt.mp long)] at counted
    cases counted
  · rintro ⟨bound, drawable⟩
    obtain ⟨bits, ran⟩ := fillBytes_reaches target drawable
    obtain ⟨raw, whitened⟩ := randomBits_surjective bits
    obtain ⟨stream, delivers⟩ := exists_stream raw
    refine ⟨stream, raw.length, [], ?_⟩
    rw [delivers, whitened]
    refine returns_bind.mpr ⟨(), _, returns_exec.mpr ⟨countInt_of_lt bound, rfl⟩, ?_⟩
    simpa only [List.append_nil] using ran []

/-- No stream of bits puts a zero byte into a buffer of one byte, and none the byte 255. -/
theorem fillRandom_neverZero :
    (¬ ∃ stream, FillsWith stream [(0 : UInt8)].length [0]) ∧
      ¬ ∃ stream, FillsWith stream [(255 : UInt8)].length [255] := by
  constructor
  · rintro ⟨stream, filled⟩
    exact absurd (fillsWith_drawable filled 0 List.mem_cons_self).1 (by decide)
  · rintro ⟨stream, filled⟩
    exact absurd (fillsWith_drawable filled 255 List.mem_cons_self).2 (by decide)

end Iotex
