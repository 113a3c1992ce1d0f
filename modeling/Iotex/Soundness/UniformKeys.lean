import Iotex.Lib.Exchange
import Iotex.Soundness.RandomBytes

/-! # Keys are uniform on whitened bits

How likely the results of the generator are. A result is drawn on bit strings of its own, and those of
any two results correspond, with the same lengths: `random` starts again on the same bits whatever it
returns in the end. The whitening of the raw bits keeps the correspondence and, of the raw bits, also the
number of ones, so that the bytes of a buffer are uniform even if the hardware prefers one of the bits.
-/

namespace Iotex

open ESP8266TrueRandom Draw

/-! ## Bit strings of results -/

section

variable {α : Type}

/-- The bit strings that a draw uses up for a result. -/
def Code (draw : Draw α) (value : α) : Set (List Bool) := {bits | ∀ more, Returns draw (bits ++ more) value more}

/-- The draw looks at no bit behind those it uses. -/
def Sequential (draw : Draw α) : Prop :=
  ∀ bits value rest, Returns draw bits value rest → ∃ used ∈ Code draw value, bits = used ++ rest

theorem Returns.unique {draw : Draw α} {bits rest more : List Bool} {value other : α}
    (first : Returns draw bits value rest) (second : Returns draw bits other more) : value = other ∧ rest = more := by
  have same := first.symm.trans second
  rw [Except.ok.injEq, Option.some.injEq, Prod.mk.injEq] at same
  exact same

theorem code_prefixFree (draw : Draw α) (value : α) : PrefixFree (Code draw value) := by
  intro first member other otherMember rest more same
  have ran := member rest
  rw [same] at ran
  obtain ⟨-, rfl⟩ := Returns.unique ran (otherMember more)
  exact List.append_cancel_right same

/-- The strings on which a draw is done are those that begin with one of its result. -/
theorem Sequential.done_eq {draw : Draw α} (sequential : Sequential draw) (value : α) :
    {bits | ∃ rest, Returns draw bits value rest} = Set.image2 (· ++ ·) (Code draw value) Set.univ := by
  ext bits
  constructor
  · rintro ⟨rest, ran⟩
    obtain ⟨used, member, rfl⟩ := sequential bits value rest ran
    exact Set.mem_image2_of_mem member (Set.mem_univ rest)
  · rintro ⟨used, member, rest, -, rfl⟩
    exact ⟨rest, member rest⟩

/-- Results whose strings correspond are done on strings that correspond. -/
theorem Sequential.exchanged_done {draw : Draw α} (sequential : Sequential draw) {value other : α}
    (exchanged : Exchanged List.length (Code draw value) (Code draw other)) :
    Exchanged List.length {bits | ∃ rest, Returns draw bits value rest}
      {bits | ∃ rest, Returns draw bits other rest} := by
  rw [sequential.done_eq, sequential.done_eq]
  exact exchanged.append .refl (code_prefixFree draw value) (code_prefixFree draw other)

end

/-! ## A number below a bound -/

/-- A number whose digits from a position up are those of a step has the digit of the step there. -/
theorem highPart_of_step {value position number : ℕ} {bit : Bool} (aligned : 2 ^ (position + 1) ∣ number)
    (high : highPart value position = if bit then number ||| 2 ^ position else number) :
    highPart value (position + 1) = number ∧ value.testBit position = bit := by
  rw [or_two_pow aligned] at high
  obtain ⟨quotient, rfl⟩ := aligned
  have positive : 0 < 2 ^ position := Nat.two_pow_pos position
  have digits : value / 2 ^ position = 2 * quotient + bit.toNat := by
    rw [highPart] at high
    apply Nat.eq_of_mul_eq_mul_right positive
    rw [high]
    cases bit
    · simp only [Bool.false_eq_true, if_false, Bool.toNat_false]
      ring
    · simp only [if_true, Bool.toNat_true]
      ring
  have halves : value / 2 ^ (position + 1) = quotient := by
    rw [pow_succ, ← Nat.div_div_eq_div_mul, digits]
    have small := bit.toNat_lt
    omega
  constructor
  · rw [highPart, halves, Nat.mul_comm]
  · rw [Nat.testBit_eq_decide_div_mod_eq, digits, Nat.mul_add_mod]
    cases bit <;> rfl

section

variable {howBig topBit value : ℕ} {rest : List Bool}

/-- After a bit the loop is back at its start, or done, or at the next position. -/
theorem drawBelow_step (start : topBit ≠ 0) (bit : Bool) (bits : List Bool) (randomValue position : ℕ) :
    drawBelow howBig topBit (bit :: bits) randomValue (2 ^ position) =
      if howBig ≤ (if bit then randomValue ||| 2 ^ position else randomValue) then drawBelow howBig topBit bits 0 topBit
      else match position with
        | 0 => some (if bit then randomValue ||| 2 ^ 0 else randomValue, bits)
        | position + 1 =>
          drawBelow howBig topBit bits (if bit then randomValue ||| 2 ^ (position + 1) else randomValue)
            (2 ^ position) := by
  rw [drawBelow]
  by_cases above : howBig ≤ (if bit then randomValue ||| 2 ^ position else randomValue)
  · simp only [above, if_true, start, if_false]
  · cases position with
    | zero =>
      rw [if_neg above]
      simp only [above, if_false, show 2 ^ 0 >>> 1 = 0 from rfl, if_true]
    | succ position =>
      simp only [above, if_false, two_pow_shiftRight_one, (Nat.two_pow_pos position).ne']

/-- A run of the loop that returns ends with the digits of its result, or comes back to the start first. -/
theorem drawBelow_split (start : topBit ≠ 0) {position randomValue : ℕ} {bits : List Bool}
    (aligned : 2 ^ (position + 1) ∣ randomValue)
    (ran : drawBelow howBig topBit bits randomValue (2 ^ position) = some (value, rest)) :
    (highPart value (position + 1) = randomValue ∧ bits = bitsBelow value (position + 1) ++ rest) ∨
      ∃ restart later, restart ≠ [] ∧ bits = restart ++ later ∧
        (∀ more, drawBelow howBig topBit (restart ++ more) randomValue (2 ^ position) =
          drawBelow howBig topBit more 0 topBit) ∧
        drawBelow howBig topBit later 0 topBit = some (value, rest) := by
  induction position generalizing randomValue bits with
  | zero =>
    cases bits with
    | nil => simp [drawBelow] at ran
    | cons bit bits =>
      rw [drawBelow_step start] at ran
      by_cases above : howBig ≤ (if bit then randomValue ||| 2 ^ 0 else randomValue)
      · rw [if_pos above] at ran
        refine .inr ⟨[bit], bits, List.cons_ne_nil _ _, rfl, fun more => ?_, ran⟩
        rw [List.singleton_append, drawBelow_step start, if_pos above]
      · rw [if_neg above] at ran
        obtain ⟨drawn, rfl⟩ := Prod.mk.inj (Option.some.inj ran)
        obtain ⟨high, digit⟩ := highPart_of_step aligned ((highPart_zero value).trans drawn.symm)
        exact .inl ⟨high, by rw [bitsBelow, bitsBelow, digit, List.singleton_append]⟩
  | succ position ih =>
    cases bits with
    | nil => simp [drawBelow] at ran
    | cons bit bits =>
      rw [drawBelow_step start] at ran
      by_cases above : howBig ≤ (if bit then randomValue ||| 2 ^ (position + 1) else randomValue)
      · rw [if_pos above] at ran
        refine .inr ⟨[bit], bits, List.cons_ne_nil _ _, rfl, fun more => ?_, ran⟩
        rw [List.singleton_append, drawBelow_step start, if_pos above]
      · rw [if_neg above] at ran
        have next : 2 ^ (position + 1) ∣ (if bit then randomValue ||| 2 ^ (position + 1) else randomValue) := by
          have lower := (pow_dvd_pow 2 (Nat.le_succ (position + 1))).trans aligned
          split_ifs
          · rw [or_two_pow aligned]
            exact dvd_add lower dvd_rfl
          · exact lower
        rcases ih next ran with ⟨high, rfl⟩ | ⟨restart, later, -, rfl, back, ran⟩
        · obtain ⟨high, digit⟩ := highPart_of_step aligned high
          rw [← digit, ← List.cons_append]
          exact .inl ⟨high, rfl⟩
        · refine .inr ⟨bit :: restart, later, List.cons_ne_nil _ _, rfl, fun more => ?_, ran⟩
          rw [List.cons_append, drawBelow_step start, if_neg above]
          exact back more

/-- The strings on which the loop comes back to its start. -/
def Restarts (howBig topBit : ℕ) : Set (List Bool) :=
  {bits | ∀ more, drawBelow howBig topBit (bits ++ more) 0 topBit = drawBelow howBig topBit more 0 topBit}

/-- The loop returns a number behind restarts and the digits of the number. -/
theorem drawBelow_iff {position : ℕ} (below : value < howBig) (narrow : howBig ≤ 2 ^ (position + 1))
    {bits : List Bool} :
    drawBelow howBig (2 ^ position) bits 0 (2 ^ position) = some (value, rest) ↔
      ∃ restarts ∈ Restarts howBig (2 ^ position), bits = restarts ++ bitsBelow value (position + 1) ++ rest := by
  have start : 2 ^ position ≠ 0 := (Nat.two_pow_pos position).ne'
  have inside := highPart_of_lt (below.trans_le narrow)
  constructor
  · intro ran
    induction count : bits.length using Nat.strong_induction_on generalizing bits with
    | _ count ih =>
      rcases drawBelow_split start (dvd_zero _) ran with ⟨-, rfl⟩ | ⟨restart, later, some, rfl, back, ran⟩
      · exact ⟨[], fun more => rfl, rfl⟩
      · have shorter : later.length < (restart ++ later).length := by
          have := List.length_pos_iff.mpr some
          rw [List.length_append]
          omega
        rw [count] at shorter
        obtain ⟨restarts, member, rfl⟩ := ih _ shorter ran rfl
        refine ⟨restart ++ restarts, fun more => ?_, by simp only [List.append_assoc]⟩
        rw [List.append_assoc, back, member]
  · rintro ⟨restarts, member, rfl⟩
    have reached := @drawBelow_reaches _ (2 ^ position) _ below position rest
    rw [inside] at reached
    rw [List.append_assoc, member, reached]

/-- The other loop returns a number behind its digits. -/
theorem drawBits_split {position randomValue : ℕ} {bits : List Bool} (aligned : 2 ^ position ∣ randomValue)
    (ran : drawBits bits randomValue (2 ^ position >>> 1) = some (value, rest)) :
    highPart value position = randomValue ∧ bits = bitsBelow value position ++ rest := by
  induction position generalizing randomValue bits with
  | zero =>
    obtain ⟨rfl, rfl⟩ := Prod.mk.inj (Option.some.inj (drawBits_zero.symm.trans ran))
    exact ⟨highPart_zero _, rfl⟩
  | succ position ih =>
    rw [two_pow_shiftRight_one] at ran
    have more_to_draw := (Nat.two_pow_pos position).ne'
    cases bits with
    | nil => simp [drawBits] at ran
    | cons bit bits =>
      rw [drawBits, if_neg more_to_draw] at ran
      have next : 2 ^ position ∣ (if bit then randomValue ||| 2 ^ position else randomValue) := by
        have lower := (pow_dvd_pow 2 (Nat.le_succ position)).trans aligned
        split_ifs
        · rw [or_two_pow aligned]
          exact dvd_add lower dvd_rfl
        · exact lower
      obtain ⟨high, rfl⟩ := ih next ran
      obtain ⟨high, digit⟩ := highPart_of_step aligned high
      exact ⟨high, by rw [bitsBelow, digit, List.cons_append]⟩

/-- `random` returns a number behind a string of its bound and the digits of the number. -/
theorem random_iff (positive : 0 < howBig) (bound : howBig ≤ 2 ^ 30) :
    ∃ (starts : Set (List Bool)) (width : ℕ), ∀ value < howBig, ∀ bits rest,
      Returns (random howBig) bits value rest ↔ ∃ start ∈ starts, bits = start ++ bitsBelow value width ++ rest := by
  by_cases power : howBig &&& (howBig - 1) = 0
  · obtain ⟨position, rfl⟩ := (Nat.and_sub_one_eq_zero_iff_isPowerOfTwo positive.ne').mp power
    refine ⟨{[]}, position, fun value below bits rest => ?_⟩
    rw [random, if_neg positive.ne', if_neg (not_not.mpr power), returns_loop]
    constructor
    · intro ran
      exact ⟨[], rfl, (drawBits_split (dvd_zero _) ran).2⟩
    · rintro ⟨_, rfl, rfl⟩
      have reached := drawBits_reaches value position rest
      rwa [highPart_of_lt below] at reached
  · have more_than_one : howBig - 1 ≠ 0 := by
      intro one
      simp [one] at power
    have filled := fillTopBit_eq more_than_one (show howBig - 1 < 2 ^ 32 by omega)
    have narrow : howBig ≤ 2 ^ ((howBig - 1).log2 + 1) := by
      have := @Nat.lt_log2_self (howBig - 1)
      omega
    have fits : 2 ^ ((howBig - 1).log2 + 1) ≤ 2 ^ 30 := by
      apply Nat.pow_le_pow_right (by norm_num)
      exact (Nat.log2_lt more_than_one).mpr (by omega)
    generalize (howBig - 1).log2 = top at filled narrow fits
    have sum : addInt (fillTopBit (howBig - 1)) 1 = .ok ((2 ^ (top + 1) : ℕ) : ℤ) := by
      rw [filled, addInt, if_pos (by omega)]
      congr 1
      omega
    refine ⟨Restarts howBig (2 ^ top), top + 1, fun value below bits rest => ?_⟩
    rw [← drawBelow_iff below narrow, random, if_neg positive.ne', if_pos power, returns_bind]
    constructor
    · rintro ⟨topBit, between, drawn, ran⟩
      obtain ⟨added, same⟩ := returns_exec.mp drawn
      rw [sum, Except.ok.injEq] at added
      rw [← added, ← same, Int.toNat_natCast, two_pow_shiftRight_one] at ran
      exact returns_loop.mp ran
    · intro ran
      refine ⟨_, _, returns_exec.mpr ⟨sum, rfl⟩, returns_loop.mpr ?_⟩
      rwa [Int.toNat_natCast, two_pow_shiftRight_one]

end

/-- The strings of two numbers below the bound correspond. -/
theorem random_exchanged {howBig value other : ℕ} (bound : howBig ≤ 2 ^ 30) (below : value < howBig)
    (otherBelow : other < howBig) :
    Exchanged List.length (Code (random howBig) value) (Code (random howBig) other) := by
  obtain ⟨starts, width, returns⟩ := random_iff (show 0 < howBig by omega) bound
  have code (number : ℕ) (below : number < howBig) :
      Code (random howBig) number = Set.image2 (· ++ ·) starts {bitsBelow number width} := by
    ext bits
    rw [Set.image2_singleton_right]
    constructor
    · intro member
      obtain ⟨start, inside, same⟩ := (returns number below _ _).mp (member [])
      exact ⟨start, inside, (List.append_cancel_right same).symm⟩
    · rintro ⟨start, inside, rfl⟩ more
      exact (returns number below _ _).mpr ⟨start, inside, rfl⟩
  rw [code value below, code other otherBelow]
  exact .last starts ((bitsBelow_length value width).trans (bitsBelow_length other width).symm)

theorem random_sequential {howBig : ℕ} (positive : 0 < howBig) (bound : howBig ≤ 2 ^ 30) :
    Sequential (random howBig) := by
  obtain ⟨starts, width, returns⟩ := random_iff positive bound
  intro bits value rest ran
  have below := random_lt positive ran
  obtain ⟨start, inside, rfl⟩ := (returns value below bits rest).mp ran
  exact ⟨_, fun more => (returns value below _ _).mpr ⟨start, inside, rfl⟩, rfl⟩

/-- Every number below the bound is returned on equally many strings of a length. -/
theorem random_uniform {howBig value other : ℕ} (bound : howBig ≤ 2 ^ 30) (below : value < howBig)
    (otherBelow : other < howBig) (drawn : ℕ) :
    {bits | (∃ rest, Returns (random howBig) bits value rest) ∧ bits.length = drawn}.ncard =
      {bits | (∃ rest, Returns (random howBig) bits other rest) ∧ bits.length = drawn}.ncard :=
  ((random_sequential (by omega) bound).exchanged_done (random_exchanged bound below otherBelow)).ncard_eq drawn

-- the bound is no power of two, so that the loop starts again on some strings
theorem digits_uniform :
    {bits | (∃ rest, Returns (random 10) bits 0 rest) ∧ bits.length = 12}.ncard =
      {bits | (∃ rest, Returns (random 10) bits 9 rest) ∧ bits.length = 12}.ncard :=
  random_uniform (by norm_num) (by norm_num) (by norm_num) 12

/-! ## The bytes of a buffer -/

/-- A byte of a buffer is drawn as a number below 254. -/
theorem randomByte_iff {value : ℤ} {bits rest : List Bool} :
    Returns (randomBetween 1 255) bits value rest ↔
      1 ≤ value ∧ Returns (random 254) bits (value - 1).toNat rest := by
  have width : addInt 255 (-1) = .ok 254 := rfl
  rw [randomBetween, if_neg (by norm_num), returns_bind]
  constructor
  · rintro ⟨diff, between, subtracted, ran⟩
    obtain ⟨difference, same⟩ := returns_exec.mp subtracted
    rw [width, Except.ok.injEq] at difference
    subst difference same
    obtain ⟨drawn, later, drew, added⟩ := returns_bind.mp ran
    obtain ⟨sum, behind⟩ := returns_exec.mp added
    rw [addInt] at sum
    split_ifs at sum
    have sum := Except.ok.inj sum
    rw [← sum, ← behind, Int.add_sub_cancel]
    exact ⟨by omega, drew⟩
  · rintro ⟨least, ran⟩
    have below := random_lt (by norm_num) ran
    refine ⟨254, bits, returns_exec.mpr ⟨width, rfl⟩, returns_bind.mpr ⟨_, rest, ran, returns_exec.mpr ⟨?_, rfl⟩⟩⟩
    rw [addInt, if_pos (by omega), Except.ok.injEq]
    omega

/-- A buffer is its first byte, drawn below 254, and the others. -/
theorem fillBytes_succ_iff {size : ℕ} {byte : UInt8} {target : Bytes} {bits rest : List Bool} :
    Returns (Random.fillBytes (size + 1)) bits (byte :: target) rest ↔
      ∃ between, 1 ≤ byte.toNat ∧ Returns (random 254) bits (byte.toNat - 1) between ∧
        Returns (Random.fillBytes size) between target rest := by
  have bound := byte.toNat_lt
  rw [Random.fillBytes, returns_bind]
  constructor
  · rintro ⟨value, between, first, ran⟩
    obtain ⟨buf, later, others, stored⟩ := returns_bind.mp ran
    obtain ⟨joined, behind⟩ := returns_pure.mp stored
    obtain ⟨head, same⟩ := List.cons.inj joined
    subst behind same
    obtain ⟨least, drawn⟩ := randomByte_iff.mp first
    have below := random_lt (by norm_num) drawn
    have byte_eq : byte.toNat = value.toNat := by
      rw [← head, UInt8.toNat_ofNat']
      omega
    refine ⟨between, by omega, ?_, others⟩
    rwa [byte_eq, show value.toNat - 1 = (value - 1).toNat by omega]
  · rintro ⟨between, least, drawn, others⟩
    have first : Returns (randomBetween 1 255) bits byte.toNat between := by
      rw [randomByte_iff, show ((byte.toNat : ℤ) - 1).toNat = byte.toNat - 1 by omega]
      exact ⟨by omega, drawn⟩
    have converted : ((byte.toNat : ℤ) % 2 ^ 8).toNat = byte.toNat := by omega
    have stored : UInt8.ofNat ((byte.toNat : ℤ) % 2 ^ 8).toNat = byte := by rw [converted, UInt8.ofNat_toNat]
    have joined : UInt8.ofNat ((byte.toNat : ℤ) % 2 ^ 8).toNat :: target = byte :: target := by rw [stored]
    exact ⟨byte.toNat, between, first, returns_bind.mpr ⟨target, rest, others, returns_pure.mpr ⟨joined, rfl⟩⟩⟩

theorem fillBytes_sequential (size : ℕ) : Sequential (Random.fillBytes size) := by
  induction size with
  | zero =>
    intro bits value rest ran
    obtain ⟨rfl, rfl⟩ := returns_pure.mp ran
    exact ⟨[], fun more => returns_pure.mpr ⟨rfl, rfl⟩, rfl⟩
  | succ size ih =>
    intro bits value rest ran
    cases value with
    | nil =>
      obtain ⟨first, between, -, ran⟩ := returns_bind.mp ran
      obtain ⟨others, later, -, ran⟩ := returns_bind.mp ran
      exact absurd (returns_pure.mp ran).1 (List.cons_ne_nil _ _)
    | cons byte target =>
      obtain ⟨between, least, drawn, others⟩ := fillBytes_succ_iff.mp ran
      obtain ⟨used, member, rfl⟩ := random_sequential (by norm_num) (by norm_num) _ _ _ drawn
      obtain ⟨later, laterMember, rfl⟩ := ih _ _ _ others
      refine ⟨used ++ later, fun more => ?_, (List.append_assoc _ _ _).symm⟩
      rw [List.append_assoc]
      exact fillBytes_succ_iff.mpr ⟨_, least, member _, laterMember more⟩

/-- The strings of a buffer are those of its first byte with those of the others behind them. -/
theorem code_fillBytes (size : ℕ) {byte : UInt8} (least : 1 ≤ byte.toNat) (target : Bytes) :
    Code (Random.fillBytes (size + 1)) (byte :: target) =
      Set.image2 (· ++ ·) (Code (random 254) (byte.toNat - 1)) (Code (Random.fillBytes size) target) := by
  ext bits
  constructor
  · intro member
    obtain ⟨between, -, drawn, others⟩ := fillBytes_succ_iff.mp (member [])
    obtain ⟨used, usedMember, same⟩ := random_sequential (by norm_num) (by norm_num) _ _ _ drawn
    obtain ⟨later, laterMember, rfl⟩ := fillBytes_sequential size _ _ _ others
    rw [List.append_nil, List.append_nil] at same
    exact ⟨used, usedMember, later, laterMember, same.symm⟩
  · rintro ⟨used, member, later, laterMember, rfl⟩ more
    beta_reduce
    rw [List.append_assoc]
    exact fillBytes_succ_iff.mpr ⟨_, least, member _, laterMember more⟩

/-- The strings of two buffers of bytes that can be drawn correspond. -/
theorem fillBytes_exchanged {size : ℕ} {target other : Bytes} (length : target.length = size)
    (otherLength : other.length = size) (drawable : ∀ byte ∈ target, Drawable byte)
    (otherDrawable : ∀ byte ∈ other, Drawable byte) :
    Exchanged List.length (Code (Random.fillBytes size) target) (Code (Random.fillBytes size) other) := by
  induction size generalizing target other with
  | zero =>
    rw [List.eq_nil_of_length_eq_zero length, List.eq_nil_of_length_eq_zero otherLength]
    exact .refl
  | succ size ih =>
    obtain ⟨byte, target, rfl⟩ := List.exists_cons_of_length_eq_add_one length
    obtain ⟨otherByte, other, rfl⟩ := List.exists_cons_of_length_eq_add_one otherLength
    obtain ⟨first, drawable⟩ := List.forall_mem_cons.mp drawable
    obtain ⟨otherFirst, otherDrawable⟩ := List.forall_mem_cons.mp otherDrawable
    have bytes := random_exchanged (show 254 ≤ 2 ^ 30 by norm_num) (show byte.toNat - 1 < 254 by have := first.2; omega)
      (show otherByte.toNat - 1 < 254 by have := otherFirst.2; omega)
    rw [code_fillBytes size first.1, code_fillBytes size otherFirst.1]
    exact bytes.append (ih (by simpa using length) (by simpa using otherLength) drawable otherDrawable)
      (code_prefixFree _ _) (code_prefixFree _ _)

/-! ## The raw bits -/

/-- The raw bits with the second bit of every pair that counts set to the next wanted one. -/
def rewhiten : List Bool → List Bool → List Bool
  | a :: b :: raw, wanted =>
    if a = b then a :: b :: rewhiten raw wanted
    else (!wanted.headD b) :: wanted.headD b :: rewhiten raw wanted.tail
  | raw, _ => raw

section

variable {a b : Bool} {raw wanted next : List Bool}

theorem whiten_same : whiten (b :: b :: raw) = whiten raw := by
  rw [whiten, if_pos rfl]

theorem whiten_differ (differ : a ≠ b) : whiten (a :: b :: raw) = b :: whiten raw := by
  rw [whiten, if_neg differ]

theorem rewhiten_same : rewhiten (b :: b :: raw) wanted = b :: b :: rewhiten raw wanted := by
  rw [rewhiten, if_pos rfl]

theorem rewhiten_differ (differ : a ≠ b) :
    rewhiten (a :: b :: raw) wanted = (!wanted.headD b) :: wanted.headD b :: rewhiten raw wanted.tail := by
  rw [rewhiten, if_neg differ]

theorem whiten_rewhiten (length : wanted.length = (whiten raw).length) : whiten (rewhiten raw wanted) = wanted := by
  induction raw using whiten.induct generalizing wanted with
  | case1 b raw ih =>
    rw [whiten_same] at length
    rw [rewhiten_same, whiten_same, ih length]
  | case2 a b raw differ ih =>
    rw [whiten_differ differ] at length
    obtain ⟨bit, wanted, rfl⟩ := List.exists_cons_of_length_eq_add_one length
    rw [List.length_cons, List.length_cons, Nat.succ_inj] at length
    rw [rewhiten_differ differ, whiten_differ (Bool.not_ne_self _), List.headD_cons, List.tail_cons, ih length]
  | case3 raw short =>
    have nothing : whiten raw = [] := whiten.eq_2 raw short
    rw [nothing] at length
    rw [rewhiten.eq_2 _ _ short, nothing, List.eq_nil_of_length_eq_zero length]

theorem rewhiten_whiten (raw : List Bool) : rewhiten raw (whiten raw) = raw := by
  induction raw using whiten.induct with
  | case1 b raw ih => rw [whiten_same, rewhiten_same, ih]
  | case2 a b raw differ ih =>
    rw [whiten_differ differ, rewhiten_differ differ, List.headD_cons, List.tail_cons, ih, ← Bool.eq_not_of_ne differ]
  | case3 raw short => exact rewhiten.eq_2 _ _ short

/-- Of bits that were wanted before, nothing is left. -/
theorem rewhiten_rewhiten (length : next.length = (whiten raw).length) :
    rewhiten (rewhiten raw wanted) next = rewhiten raw next := by
  induction raw using whiten.induct generalizing wanted next with
  | case1 b raw ih =>
    rw [whiten_same] at length
    rw [rewhiten_same, rewhiten_same, rewhiten_same, ih length]
  | case2 a b raw differ ih =>
    rw [whiten_differ differ] at length
    obtain ⟨bit, next, rfl⟩ := List.exists_cons_of_length_eq_add_one length
    rw [List.length_cons, List.length_cons, Nat.succ_inj] at length
    rw [rewhiten_differ differ, rewhiten_differ (Bool.not_ne_self _), rewhiten_differ differ, List.tail_cons, ih length]
    rfl
  | case3 raw short => rw [rewhiten.eq_2 _ wanted short]

/-- Both bits of a pair that counts are set, so that one of them is a one before and after. -/
theorem lengthAndOnes_rewhiten (raw wanted : List Bool) :
    ((rewhiten raw wanted).length, (rewhiten raw wanted).count true) = (raw.length, raw.count true) := by
  induction raw using whiten.induct generalizing wanted with
  | case1 b raw ih =>
    obtain ⟨length, ones⟩ := Prod.mk.inj (ih wanted)
    rw [rewhiten_same, List.length_cons, List.length_cons, List.count_cons, List.count_cons, length, ones,
      ← List.count_cons, ← List.count_cons]
    rfl
  | case2 a b raw differ ih =>
    obtain ⟨length, ones⟩ := Prod.mk.inj (ih wanted.tail)
    have one_of (bit : Bool) (bits : List Bool) : ((!bit) :: bit :: bits).count true = bits.count true + 1 := by
      cases bit <;> simp
    rw [rewhiten_differ differ, List.length_cons, List.length_cons, one_of, length, ones]
    rw [Bool.eq_not_of_ne differ, one_of]
    rfl
  | case3 raw short => rw [rewhiten.eq_2 _ _ short]

end

/-- Raw bits correspond if the bits that they are whitened to do. -/
theorem whiten_exchanged {A B : Set (List Bool)} (exchanged : Exchanged List.length A B) :
    Exchanged (fun raw => (raw.length, raw.count true)) (Set.preimage whiten A) (Set.preimage whiten B) := by
  obtain ⟨f, bijective, keeps⟩ := exchanged
  refine ⟨fun raw => rewhiten raw (f (whiten raw)), ⟨?_, ?_, ?_⟩, fun raw _ => lengthAndOnes_rewhiten _ _⟩
  · intro raw member
    have whitened := whiten_rewhiten (keeps _ member)
    rw [Set.mem_preimage, whitened]
    exact bijective.mapsTo member
  · intro raw member other otherMember same
    beta_reduce at same
    have whitened : whiten raw = whiten other := by
      apply bijective.injOn member otherMember
      rw [← whiten_rewhiten (keeps _ member), ← whiten_rewhiten (keeps _ otherMember), same]
    calc raw = rewhiten raw (whiten raw) := (rewhiten_whiten raw).symm
      _ = rewhiten (rewhiten raw (f (whiten raw))) (whiten raw) := (rewhiten_rewhiten rfl).symm
      _ = rewhiten (rewhiten other (f (whiten other))) (whiten other) := by rw [same, whitened]
      _ = rewhiten other (whiten other) := rewhiten_rewhiten rfl
      _ = other := rewhiten_whiten other
  · intro raw member
    obtain ⟨origin, inside, reached⟩ := bijective.surjOn member
    have length : origin.length = (whiten raw).length := by rw [← reached, keeps _ inside]
    have whitened := whiten_rewhiten length
    refine ⟨rewhiten raw origin, ?_, ?_⟩
    · rw [Set.mem_preimage, whitened]
      exact inside
    · dsimp only
      rw [whitened, reached, rewhiten_rewhiten rfl, rewhiten_whiten]

/-- The buffer is filled exactly by the loop of its bytes. -/
theorem fillRandom_iff {size : ℕ} {target : Bytes} {bits rest : List Bool} (counted : size < 2 ^ 31) :
    Returns (Random.fillRandom size) bits target rest ↔ Returns (Random.fillBytes size) bits target rest := by
  rw [Random.fillRandom, returns_bind]
  constructor
  · rintro ⟨_, between, first, ran⟩
    rwa [← (returns_exec.mp first).2] at ran
  · intro ran
    exact ⟨(), bits, returns_exec.mpr ⟨countInt_of_lt counted, rfl⟩, ran⟩

/-- Any two buffers of bytes from 1 to 254 are filled by equally many sequences of raw bits of a length and a
number of ones. -/
theorem fillRandom_uniform {target other : Bytes} (length : other.length = target.length)
    (drawable : ∀ byte ∈ target, Drawable byte) (otherDrawable : ∀ byte ∈ other, Drawable byte) (drawn ones : ℕ) :
    {raw | (∃ rest, Returns (Random.fillRandom target.length) (randomBits raw) target rest) ∧
        raw.length = drawn ∧ raw.count true = ones}.ncard =
      {raw | (∃ rest, Returns (Random.fillRandom target.length) (randomBits raw) other rest) ∧
        raw.length = drawn ∧ raw.count true = ones}.ncard := by
  rcases Nat.lt_or_ge target.length (2 ^ 31) with counted | long
  · simp only [fillRandom_iff counted]
    have filled := (fillBytes_sequential target.length).exchanged_done
      (fillBytes_exchanged rfl length drawable otherDrawable)
    have raw := (whiten_exchanged ((whiten_exchanged filled).coarsen Prod.fst)).ncard_eq (drawn, ones)
    simp only [Prod.mk.injEq] at raw
    exact raw
  · -- the counter of the loop does not reach the length
    have never (buf : Bytes) (bits rest : List Bool) : ¬ Returns (Random.fillRandom target.length) bits buf rest := by
      intro ran
      obtain ⟨_, _, counted, -⟩ := returns_bind.mp ran
      rw [countInt_of_le long] at counted
      cases (returns_exec.mp counted).1
    simp only [never, exists_false, false_and]

-- a private key of the smallest bytes and one of the greatest
theorem keys_uniform :
    {raw | (∃ rest, Returns (Random.fillRandom 32) (randomBits raw) (List.replicate 32 1) rest) ∧
        raw.length = 2048 ∧ raw.count true = 1000}.ncard =
      {raw | (∃ rest, Returns (Random.fillRandom 32) (randomBits raw) (List.replicate 32 254) rest) ∧
        raw.length = 2048 ∧ raw.count true = 1000}.ncard :=
  @fillRandom_uniform (List.replicate 32 1) (List.replicate 32 254) rfl (by simp [Drawable]) (by simp [Drawable])
    2048 1000

end Iotex
