import Iotex.Proofs.Encoders
import Iotex.Spec.EncoderRuns

/-! # Runs on single values

The encoders of elementary values and of byte strings, on values of any size: when they read what is not there,
what they return otherwise, and which bytes they leave unwritten. Sizes are rounded to single precision on the
way to a number of words, and pass through an `int` on the way back.
-/

namespace Iotex

open Spec Contract

/-- A run faults or ends with a count and with so many bytes, which are all written if it is said so. -/
def RunsAs (defined : Bool) (count : Count) (length : ℕ) (set : Bool) (result : Exec (Count × Cells)) : Prop :=
  if defined then ∃ data, result = .ok (count, data) ∧ data.length = length ∧ (Initialized data ↔ set = true)
  else ∃ fault, result = .error fault

theorem runsAs_error {defined : Bool} {fault : Fault} {count : Count} {length : ℕ} {set : Bool}
    (undefined : defined = false) : RunsAs defined count length set (.error fault) := by
  rw [RunsAs, undefined]
  exact ⟨fault, rfl⟩

theorem runsAs_ok {defined : Bool} {count : Count} {data : Cells} {set : Bool} (known : defined = true)
    (written : Initialized data ↔ set = true) : RunsAs defined count data.length set (.ok (count, data)) := by
  rw [RunsAs, known]
  exact ⟨data, rfl, rfl, written⟩

/-- A run that returned is one of a readable parameter, with the foretold count and bytes. -/
theorem runsAs_of_ok {defined : Bool} {count returned : Count} {length : ℕ} {set : Bool} {data : Cells}
    (run : RunsAs defined count length set (.ok (returned, data))) :
    defined = true ∧ returned = count ∧ data.length = length ∧ (Initialized data ↔ set = true) := by
  rw [RunsAs] at run
  split_ifs at run with known
  · obtain ⟨_, same, length, written⟩ := run
    obtain ⟨rfl, rfl⟩ := Prod.mk.inj (Except.ok.inj same)
    exact ⟨known, rfl, length, written⟩
  · obtain ⟨fault, same⟩ := run
    cases same

theorem initialized_take {memory : Cells} (written : Initialized memory) (count : ℕ) :
    Initialized (memory.take count) := fun cell member => written cell (List.mem_of_mem_take member)

theorem initialized_iff_all {memory : Cells} : Initialized memory ↔ memory.all Option.isSome = true := by
  simp only [Initialized, List.all_eq_true, Option.isSome_iff_ne_none]

theorem initialized_reverse {memory : Cells} : Initialized memory.reverse ↔ Initialized memory := by
  simp only [Initialized, List.mem_reverse]

/-! ## Sizes in single precision -/

/-- Rounding does not go past the next power of two. -/
theorem floatOfSize_le_pow {size exponent : ℕ} (bound : size < 2 ^ exponent) : floatOfSize size ≤ 2 ^ exponent := by
  rw [floatOfSize]
  split_ifs with exact
  · exact bound.le
  dsimp only
  have nonzero : size ≠ 0 := by omega
  have below : Nat.log2 size + 1 ≤ exponent := (Nat.log2_lt nonzero).mpr bound
  have large : 24 ≤ Nat.log2 size := (Nat.le_log2 nonzero).mpr (not_lt.mp exact)
  have kept : size / 2 ^ (Nat.log2 size - 23) + 1 ≤ 2 ^ 24 := by
    rw [Nat.add_one_le_iff, Nat.div_lt_iff_lt_mul (by positivity), ← pow_add]
    have whole : 24 + (Nat.log2 size - 23) = Nat.log2 size + 1 := by omega
    rw [whole]
    exact Nat.lt_log2_self
  have most : (size / 2 ^ (Nat.log2 size - 23) + 1) * 2 ^ (Nat.log2 size - 23) ≤ 2 ^ exponent := by
    calc (size / 2 ^ (Nat.log2 size - 23) + 1) * 2 ^ (Nat.log2 size - 23)
        ≤ 2 ^ 24 * 2 ^ (Nat.log2 size - 23) := Nat.mul_le_mul_right _ kept
      _ = 2 ^ (Nat.log2 size + 1) := by
          rw [← pow_add]
          congr 1
          omega
      _ ≤ 2 ^ exponent := Nat.pow_le_pow_right (by omega) below
  split_ifs
  · exact le_trans (Nat.mul_le_mul_right _ (Nat.le_succ _)) most
  · exact most

/-- The sizes that stand for small negative numbers are rounded up to `2 ^ 64`. -/
theorem floatOfSize_of_large {size : ℕ} (low : 2 ^ 64 - 2 ^ 31 ≤ size) (high : size < 2 ^ 64) :
    floatOfSize size = 2 ^ 64 := by
  have log : Nat.log2 size = 63 := by
    rw [Nat.log2_eq_iff (by omega)]
    omega
  rw [floatOfSize, if_neg (by omega), log]
  dsimp only
  rw [if_neg (by omega)]
  omega

theorem n32ByteGroups_le {size exponent : ℕ} (bound : size < 2 ^ exponent) :
    32 * n32ByteGroups size ≤ 2 ^ exponent + 31 := by
  have rounded := floatOfSize_le_pow bound
  have above := blocks_le (floatOfSize size)
  rw [n32ByteGroups]
  omega

/-! ## Elementary values -/

theorem integerBytes_length {α : Type} (value : ValueUnion α) : (integerBytes value).length = 8 := by
  cases value <;> simp [integerBytes, cells_length, leBytes_length, uninitialized]

theorem not_initialized_uninitialized {count : ℕ} (some : 0 < count) : ¬Initialized (uninitialized count) := by
  intro written
  exact written none (List.mem_replicate.mpr ⟨by omega, rfl⟩) rfl

/-- The written bytes stand in front. -/
theorem initialized_integerBytes {α : Type} (value : ValueUnion α) {count : ℕ} (bound : count ≤ 8) :
    Initialized ((integerBytes value).take count) ↔ count ≤ writtenWidth value := by
  cases value with
  | plain written =>
    rw [integerBytes, writtenWidth, List.take_take, Nat.min_eq_left bound, List.take_append, cells_take,
      initialized_append, and_iff_right (initialized_cells _), cells_length, uninitialized, List.take_replicate]
    constructor
    · intro set
      by_contra beyond
      exact not_initialized_uninitialized (by omega) set
    · intro inside
      have none_left : min (count - written.length) 8 = 0 := by omega
      rw [none_left]
      exact initialized_cells []
  | _ =>
    rw [integerBytes, cells_take]
    exact iff_of_true (initialized_cells _) bound

private theorem readBytes_of_initialized {memory : Cells} {count : ℕ} (enough : count ≤ memory.length)
    (written : Initialized (memory.take count)) : ∃ bytes, readBytes memory count = .ok bytes := by
  obtain ⟨bytes, found⟩ := Option.isSome_iff_exists.mp (writtenBytes?_isSome.mpr written)
  rw [readBytes, readFirst_of_le enough, ok_bind, found]
  exact ⟨bytes, rfl⟩

private theorem readBytes_of_not_initialized {memory : Cells} {count : ℕ} (enough : count ≤ memory.length)
    (unwritten : ¬Initialized (memory.take count)) : readBytes memory count = .error .indeterminateValue := by
  have missing := Option.not_isSome_iff_eq_none.mp fun found => unwritten (writtenBytes?_isSome.mp found)
  rw [readBytes, readFirst_of_le enough, ok_bind, missing]
  rfl

/-- The sign of eight bytes at most is one of the number at the width that is read. -/
private theorem isNegative_of_le (pVal : Cells) {size : ℕ} (bound : size ≤ 8) :
    isNegative pVal size =
      (readBytes pVal (signWidth size)).map fun bytes => decide (0 < size ∧ 2 ^ (8 * signWidth size - 1) ≤ leNat bytes) := by
  have nothing : readBytes pVal 0 = .ok [] := readBytes_eq_ok.mpr ⟨Nat.zero_le _, rfl⟩
  interval_cases size <;> simp [isNegative, signWidth, nothing, Except.map] <;> rfl

/-- The signed encoder at a size of eight at most. -/
private theorem generateBytesForInt_run (value : ValueUnion ParameterValue) {size : ℕ} (out : Cells) (bound : size ≤ 8) :
    if signWidth size ≤ writtenWidth value then
      ∃ word : Bytes, word.length = 32 ∧ generateBytesForInt (integerBytes value) size out = .ok (32, cells word)
    else generateBytesForInt (integerBytes value) size out = .error .indeterminateValue := by
  have wide : size ≤ signWidth size ∧ signWidth size ≤ 8 := by
    rw [signWidth]
    split_ifs <;> omega
  have length := integerBytes_length value
  split_ifs with written
  · rw [generateBytesForInt, if_neg (by omega), isNegative_of_le _ bound]
    obtain ⟨bytes, read⟩ := readBytes_of_initialized (show signWidth size ≤ (integerBytes value).length by omega)
      ((initialized_integerBytes value wide.2).mpr written)
    obtain ⟨number, found⟩ := readBytes_of_initialized (show size ≤ (integerBytes value).length by omega)
      ((initialized_integerBytes value bound).mpr (wide.1.trans written))
    have count := congrArg List.length (readBytes_eq_ok.mp found).2
    rw [List.length_take, cells_length] at count
    rw [read, Except.map, ok_bind, if_neg (by omega), found, ok_bind]
    refine ⟨_, ?_, rfl⟩
    rw [List.length_append, List.length_replicate, List.length_reverse]
    omega
  · rw [generateBytesForInt, if_neg (by omega), isNegative_of_le _ bound, readBytes_of_not_initialized
      (show signWidth size ≤ (integerBytes value).length by omega) fun set =>
        written ((initialized_integerBytes value wide.2).mp set)]
    rfl

private theorem generateBytesForUint_run (value : ValueUnion ParameterValue) {size : ℕ} (out : Cells) (bound : size ≤ 8) :
    ∃ word : Cells, word.length = 32 ∧ (Initialized word ↔ size ≤ writtenWidth value) ∧
      generateBytesForUint (integerBytes value) size out = .ok (32, word) := by
  have length := integerBytes_length value
  rw [generateBytesForUint, if_neg (by omega), readFirst_of_le (by omega), ok_bind]
  refine ⟨_, ?_, ?_, rfl⟩
  · rw [List.length_append, cells_length, List.length_replicate, List.length_reverse, List.length_take]
    omega
  · rw [initialized_append, and_iff_right (initialized_cells _), initialized_reverse, initialized_integerBytes value bound]

/-- An encoder of an elementary value and the insertion of its buffer. -/
private theorem runsAs_word {defined set : Bool} {count : ℤ} {encoded : Exec (ℤ × Cells)}
    (run : if defined then ∃ buf : Cells, buf.length = 32 ∧ (Initialized buf ↔ set = true) ∧ encoded = .ok (count, buf)
      else ∃ fault, encoded = .error fault) :
    RunsAs defined (some count) 32 set (do
      let (bytes, buf) ← encoded
      return (some bytes, buf)) := by
  rw [RunsAs]
  split_ifs at run ⊢
  · obtain ⟨buf, length, written, rfl⟩ := run
    exact ⟨buf, rfl, length, written⟩
  · obtain ⟨fault, rfl⟩ := run
    exact ⟨fault, rfl⟩

/-- A size that the encoder of integers is called with, by its sign. -/
private theorem heldSize {size : Int32} (held : size.toInt ≤ 8) :
    (size.toInt < 0 ∧ 256 < toSizeT size.toInt) ∨
      (0 ≤ size.toInt ∧ toSizeT size.toInt = size.toNatClampNeg ∧ size.toNatClampNeg ≤ 8) := by
  have least := size.le_toInt
  rcases lt_or_ge size.toInt 0 with negative | nonneg
  · refine .inl ⟨negative, ?_⟩
    rw [toSizeT]
    omega
  · refine .inr ⟨nonneg, toSizeT_toInt nonneg, ?_⟩
    rw [Int32.toNatClampNeg]
    omega

private theorem unwritten_word : (uninitialized 32).length = 32 ∧ (Initialized (uninitialized 32) ↔ false = true) :=
  ⟨List.length_replicate, iff_of_false (not_initialized_uninitialized (by norm_num)) (by simp)⟩

/-- An integer that is not held in a member is skipped, and the local count is still zero then. -/
private theorem skippedSize {size : Int32} {isBigInt : Bool} (skipped : ¬(size.toInt ≤ 8 ∧ isBigInt = false)) :
    oversized size isBigInt = true ∧ integerCount size isBigInt = 0 := by
  rw [integerCount, oversized]
  cases isBigInt with
  | true => exact ⟨rfl, by simp⟩
  | false =>
    have large : 8 < size.toInt := by simpa using skipped
    exact ⟨by simp [large], by simp [large]⟩

/-- An integer of negative size is refused, and one that is held has a word. -/
private theorem heldSize_count {size : Int32} {isBigInt : Bool} (held : size.toInt ≤ 8 ∧ isBigInt = false) :
    (oversized size isBigInt = true ↔ size.toInt < 0) ∧
      integerCount size isBigInt = if size.toInt < 0 then -1 else 32 := by
  rw [integerCount, oversized, held.2, if_neg (by simp [held.1])]
  refine ⟨?_, rfl⟩
  simp [held.1]

theorem uint_runs (value : ValueUnion ParameterValue) (size : Int32) (isBigInt : Bool) (tag : EthereumTypeName) :
    RunsAs true (some (integerCount size isBigInt)) 32
      (!oversized size isBigInt && decide (size.toNatClampNeg ≤ writtenWidth value))
      (generateBytesForParameter ⟨value, size, isBigInt, tag⟩ .uint) := by
  apply runsAs_word
  rw [if_pos rfl, generateBytesForSimpleType]
  by_cases held : size.toInt ≤ 8 ∧ isBigInt = false
  · obtain ⟨wrong, returned⟩ := heldSize_count held
    rw [if_pos held, returned]
    rcases heldSize held.1 with ⟨negative, large⟩ | ⟨nonneg, same, small⟩
    · rw [wrong.mpr negative, if_pos negative, generateBytesForUint, if_pos (by omega)]
      exact ⟨_, unwritten_word.1, unwritten_word.2, rfl⟩
    · have fits : oversized size isBigInt = false := by
        rw [Bool.eq_false_iff, ne_eq, wrong]
        omega
      obtain ⟨word, length, written, ran⟩ := generateBytesForUint_run value (uninitialized 32) small
      rw [same, if_neg (by omega), fits]
      exact ⟨word, length, by simpa using written, ran⟩
  · obtain ⟨wrong, returned⟩ := skippedSize held
    rw [if_neg held, wrong, returned]
    exact ⟨_, unwritten_word.1, unwritten_word.2, rfl⟩

theorem int_runs (value : ValueUnion ParameterValue) (size : Int32) (isBigInt : Bool) (tag : EthereumTypeName) :
    RunsAs (intReadable value size isBigInt) (some (integerCount size isBigInt)) 32 (!oversized size isBigInt)
      (generateBytesForParameter ⟨value, size, isBigInt, tag⟩ .int) := by
  apply runsAs_word
  rw [generateBytesForSimpleType, intReadable]
  by_cases held : size.toInt ≤ 8 ∧ isBigInt = false
  · obtain ⟨wrong, returned⟩ := heldSize_count held
    rw [if_pos held, returned]
    rcases heldSize held.1 with ⟨negative, large⟩ | ⟨nonneg, same, small⟩
    · rw [wrong.mpr negative, Bool.true_or, if_pos rfl, if_pos negative, generateBytesForInt, if_pos (.inl large)]
      exact ⟨_, unwritten_word.1, unwritten_word.2, rfl⟩
    · have fits : oversized size isBigInt = false := by
        rw [Bool.eq_false_iff, ne_eq, wrong]
        omega
      have run := generateBytesForInt_run value (uninitialized 32) small
      rw [same, fits]
      simp only [Bool.false_or, decide_eq_true_eq, not_lt.mpr nonneg, ↓reduceIte]
      split_ifs at run ⊢
      · obtain ⟨word, length, ran⟩ := run
        exact ⟨cells word, by rwa [cells_length], iff_of_true (initialized_cells word) rfl, ran⟩
      · exact ⟨_, run⟩
  · obtain ⟨wrong, returned⟩ := skippedSize held
    rw [if_neg held, wrong, returned]
    exact ⟨_, unwritten_word.1, unwritten_word.2, rfl⟩

theorem address_runs (value : ValueUnion ParameterValue) (size : Int32) (isBigInt : Bool)
    (tag : EthereumTypeName) :
    RunsAs (addressReadable value) (some 32) 32 (bytesWritten value 20)
      (generateBytesForParameter ⟨value, size, isBigInt, tag⟩ .address) := by
  apply runsAs_word
  rw [generateBytesForSimpleType]
  cases value with
  | bytes pointer data =>
    simp only [addressReadable, bytesWritten, bytesMember, ok_bind, decide_eq_true_eq]
    split_ifs with enough
    · refine ⟨_, ?_, ?_, generateBytesForAddress_of_le _ enough⟩
      · rw [List.length_append, cells_length, List.length_replicate, List.length_take]
        omega
      · rw [initialized_append, and_iff_right (initialized_cells _), initialized_iff_all]
    · rw [generateBytesForAddress, readFirst, if_neg enough, error_bind]
      exact ⟨_, rfl⟩
  | _ => exact ⟨_, rfl⟩

theorem bool_runs (value : ValueUnion ParameterValue) (size : Int32) (isBigInt : Bool) (tag : EthereumTypeName) :
    RunsAs true (some 32) 32 true (generateBytesForParameter ⟨value, size, isBigInt, tag⟩ .bool) := by
  apply runsAs_word
  exact ⟨_, rfl, iff_of_true (initialized_cells _) rfl, rfl⟩

/-! ## Byte strings -/

theorem wordsLength_le (words : ℕ) : wordsLength words ≤ 32 * words := Nat.mod_le _ _

/-- The number of bytes of a buffer as an `int`, and back: the buffer is copied up to there. -/
private theorem pushBytes_words {buf : Cells} {words : ℕ} (length : buf.length = 32 * words)
    (bound : 32 * words < 2 ^ 64 - 2 ^ 31) :
    pushBytes buf (toInt32 ((32 * words : ℕ) : ℤ)) =
      if wordsLength words < 2 ^ 31 then .ok (buf.take (wordsLength words)) else .error .outOfBounds := by
  have size : toSizeT (toInt32 ((32 * words : ℕ) : ℤ)) =
      if wordsLength words < 2 ^ 31 then wordsLength words else 2 ^ 64 - 2 ^ 32 + wordsLength words := by
    rw [toSizeT, toInt32, Int.bmod_def, wordsLength]
    norm_num
    split_ifs <;> omega
  have inside := wordsLength_le words
  rw [pushBytes, size]
  split_ifs with fits
  · exact readFirst_of_le (by omega)
  · rw [readFirst, if_neg (by omega)]

/-- What is returned for the words of a buffer that was copied. -/
private theorem returned_words {words : ℕ} (fits : wordsLength words < 2 ^ 31) :
    toInt32 ((32 * words : ℕ) : ℤ) = wordsLength words := by
  rw [wordsLength] at fits
  rw [toInt32, Int.bmod_def, wordsLength]
  norm_num
  omega

/-- The bytes behind a pointer and the zeros up to the end of the buffer. -/
def paddedCells (pVal : Cells) (size : ℕ) : Cells :=
  pVal.take size ++ cells (List.replicate (32 * n32ByteGroups size - size) 0)

private theorem paddedCells_length {pVal : Cells} {size : ℕ} (enough : size ≤ pVal.length)
    (room : size ≤ 32 * n32ByteGroups size) : (paddedCells pVal size).length = 32 * n32ByteGroups size := by
  rw [paddedCells, List.length_append, List.length_take, cells_length, List.length_replicate]
  omega

private theorem generateBytesForStaticBytes_run (pVal : Cells) {size : ℕ} (bound : size < 2 ^ 63) :
    generateBytesForStaticBytes pVal size (32 * n32ByteGroups size) =
      if size ≤ 32 * n32ByteGroups size ∧ size ≤ pVal.length then
        .ok (toInt32 ((32 * n32ByteGroups size : ℕ) : ℤ), paddedCells pVal size)
      else .error .outOfBounds := by
  have groups := n32ByteGroups_le bound
  have total : n32ByteGroups size * 32 % 2 ^ 64 = 32 * n32ByteGroups size := by omega
  rw [generateBytesForStaticBytes, total]
  dsimp only
  by_cases room : size ≤ 32 * n32ByteGroups size
  · rw [if_neg (by omega)]
    by_cases enough : size ≤ pVal.length
    · rw [if_pos ⟨room, enough⟩, readFirst_of_le enough]
      rfl
    · rw [if_neg (by simp [enough]), readFirst, if_neg enough]
      rfl
  · rw [if_pos (by omega), if_neg (by simp [room])]
    rfl

theorem generateBytesForStaticData_run (pVal : Cells) {size : ℕ} (bound : size < 2 ^ 63) :
    generateBytesForStaticData pVal size =
      if dataReadable pVal.length size (n32ByteGroups size) then
        .ok (some (wordsLength (n32ByteGroups size)), (paddedCells pVal size).take (wordsLength (n32ByteGroups size)))
      else .error .outOfBounds := by
  have groups := n32ByteGroups_le bound
  have room : bufSize (n32ByteGroups size) = 32 * n32ByteGroups size := by
    rw [bufSize]
    omega
  rw [generateBytesForStaticData, room, generateBytesForStaticBytes_run pVal bound]
  simp only [dataReadable, Bool.and_eq_true, decide_eq_true_eq]
  by_cases inside : size ≤ 32 * n32ByteGroups size ∧ size ≤ pVal.length
  · rw [if_pos inside, ok_bind]
    dsimp only
    rw [pushBytes_words (paddedCells_length inside.2 inside.1) (by omega)]
    split_ifs with fits all all
    · rw [returned_words fits]
      rfl
    · omega
    · omega
    · rfl
  · rw [if_neg inside, if_neg fun all => inside ⟨all.1.2, all.1.1.2⟩]
    rfl

theorem generateBytesForDynamicData_run (pVal : Cells) {size : ℕ} (bound : size < 2 ^ 63) :
    generateBytesForDynamicData pVal size =
      if dataReadable pVal.length size (n32ByteGroups size + 1) then
        .ok (some (wordsLength (n32ByteGroups size + 1)),
          (cells (beBytes 32 size) ++ paddedCells pVal size).take (wordsLength (n32ByteGroups size + 1)))
      else .error .outOfBounds := by
  have groups := n32ByteGroups_le bound
  have room : bufSize (n32ByteGroups size + 1) - 32 = 32 * n32ByteGroups size := by
    rw [bufSize]
    omega
  have encoded := generateBytesForUint_leBytes 8 size [] (show 8 ≤ 32 by omega) (le_refl 8)
  rw [Nat.mod_eq_of_lt (by omega)] at encoded
  have sum : toInt32 ((toSizeT 32 : ℤ) + (toSizeT (toInt32 ((32 * n32ByteGroups size : ℕ) : ℤ)) : ℤ)) =
      toInt32 ((32 * (n32ByteGroups size + 1) : ℕ) : ℤ) := by
    rw [toInt32_toSizeT, toInt32, toInt32, toInt32, Int.add_bmod_bmod]
    congr 1
    omega
  rw [generateBytesForDynamicData, generateBytesForBytes, encoded, ok_bind]
  dsimp only
  rw [room, generateBytesForStaticBytes_run pVal bound]
  simp only [dataReadable, Bool.and_eq_true, decide_eq_true_eq]
  by_cases inside : size ≤ 32 * n32ByteGroups size ∧ size ≤ pVal.length
  · have length : (cells (beBytes 32 size) ++ paddedCells pVal size).length = 32 * (n32ByteGroups size + 1) := by
      rw [List.length_append, cells_length, beBytes_length, paddedCells_length inside.2 inside.1]
      omega
    rw [if_pos inside, ok_bind]
    simp only [pure_eq_ok, ok_bind, sum]
    rw [pushBytes_words length (by omega)]
    split_ifs with fits all all
    · rw [returned_words fits]
      rfl
    · omega
    · omega
    · rfl
  · rw [if_neg inside, if_neg fun all => inside ⟨all.1.2, all.1.1.2⟩]
    rfl

/-- The size of a negative number is one that no buffer has room for. -/
private theorem generateBytesForData_negative (pVal : Cells) {size : ℕ} (low : 2 ^ 64 - 2 ^ 31 ≤ size)
    (high : size < 2 ^ 64) :
    (∃ fault, generateBytesForStaticData pVal size = .error fault) ∧
      ∃ fault, generateBytesForDynamicData pVal size = .error fault := by
  have groups : n32ByteGroups size = 2 ^ 59 := by
    rw [n32ByteGroups, floatOfSize_of_large low high, blocks]
    norm_num
  have refused : generateBytesForStaticBytes pVal size 0 = .error .outOfBounds := by
    rw [generateBytesForStaticBytes]
    dsimp only
    rw [if_pos (.inr (by omega))]
    rfl
  have whole : bufSize (n32ByteGroups size) = 0 ∧ bufSize (n32ByteGroups size + 1) - 32 = 0 := by
    rw [bufSize, bufSize, groups]
    omega
  constructor
  · rw [generateBytesForStaticData, whole.1, refused, error_bind]
    exact ⟨_, rfl⟩
  · have encoded := generateBytesForUint_leBytes 8 size [] (show 8 ≤ 32 by omega) (le_refl 8)
    rw [generateBytesForDynamicData, generateBytesForBytes, encoded, ok_bind]
    dsimp only
    rw [whole.2, refused, error_bind, error_bind]
    exact ⟨_, rfl⟩

private theorem initialized_paddedCells {pVal : Cells} {size : ℕ} :
    Initialized (paddedCells pVal size) ↔ (pVal.take size).all Option.isSome = true := by
  rw [paddedCells, initialized_append, and_iff_left (initialized_cells _), initialized_iff_all]

private theorem toSizeT_cases (size : Int32) :
    toSizeT size.toInt < 2 ^ 31 ∨ (2 ^ 64 - 2 ^ 31 ≤ toSizeT size.toInt ∧ toSizeT size.toInt < 2 ^ 64) := by
  have least := size.le_toInt
  have most := size.toInt_lt
  rw [toSizeT]
  omega

theorem wordsLength_of_small {size words : ℕ} (small : size < 2 ^ 31)
    (few : words ≤ n32ByteGroups size + 1) : wordsLength words = 32 * words := by
  have groups := n32ByteGroups_le small
  rw [wordsLength]
  omega

theorem staticBytes_runs (value : ValueUnion ParameterValue) (size : Int32) :
    RunsAs (bytesReadable value (toSizeT size.toInt) (n32ByteGroups (toSizeT size.toInt)))
      (some (wordsLength (n32ByteGroups (toSizeT size.toInt)))) (wordsLength (n32ByteGroups (toSizeT size.toInt)))
      (bytesWritten value (toSizeT size.toInt))
      (do generateBytesForStaticData (← bytesMember value) (toSizeT size.toInt)) := by
  cases value with
  | bytes pointer data =>
    rw [bytesMember, ok_bind]
    simp only [bytesReadable, bytesWritten]
    rcases toSizeT_cases size with small | ⟨low, high⟩
    · generalize toSizeT size.toInt = size at small
      rw [generateBytesForStaticData_run data (by omega)]
      split_ifs with known
      · have ready := known
        simp only [dataReadable, Bool.and_eq_true, decide_eq_true_eq] at known
        have length := paddedCells_length known.1.1.2 known.1.2
        have whole := @wordsLength_of_small _ (n32ByteGroups size) small (by omega)
        rw [ready, whole, List.take_of_length_le length.le]
        have runs := @runsAs_ok true (some ((32 * n32ByteGroups size : ℕ) : ℤ)) (paddedCells data size) _ rfl
          initialized_paddedCells
        rwa [length] at runs
      · exact runsAs_error (Bool.eq_false_iff.mpr known)
    · obtain ⟨fault, same⟩ := (generateBytesForData_negative data low high).1
      rw [same]
      refine runsAs_error ?_
      rw [dataReadable, decide_eq_false (by omega)]
      rfl
  | _ => exact runsAs_error rfl

theorem dynamicBytes_runs (value : ValueUnion ParameterValue) (size : Int32) :
    RunsAs (bytesReadable value (toSizeT size.toInt) (n32ByteGroups (toSizeT size.toInt) + 1))
      (some (wordsLength (n32ByteGroups (toSizeT size.toInt) + 1)))
      (wordsLength (n32ByteGroups (toSizeT size.toInt) + 1)) (bytesWritten value (toSizeT size.toInt))
      (do generateBytesForDynamicData (← bytesMember value) (toSizeT size.toInt)) := by
  cases value with
  | bytes pointer data =>
    rw [bytesMember, ok_bind]
    simp only [bytesReadable, bytesWritten]
    rcases toSizeT_cases size with small | ⟨low, high⟩
    · generalize toSizeT size.toInt = size at small
      rw [generateBytesForDynamicData_run data (by omega)]
      split_ifs with known
      · have ready := known
        simp only [dataReadable, Bool.and_eq_true, decide_eq_true_eq] at known
        have length : (cells (beBytes 32 size) ++ paddedCells data size).length = 32 * (n32ByteGroups size + 1) := by
          rw [List.length_append, cells_length, beBytes_length, paddedCells_length known.1.1.2 known.1.2]
          omega
        have whole := @wordsLength_of_small _ (n32ByteGroups size + 1) small (le_refl _)
        rw [ready, whole, List.take_of_length_le length.le]
        have written : Initialized (cells (beBytes 32 size) ++ paddedCells data size) ↔
            (data.take size).all Option.isSome = true := by
          rw [initialized_append, and_iff_right (initialized_cells _), initialized_paddedCells]
        have runs := @runsAs_ok true (some ((32 * (n32ByteGroups size + 1) : ℕ) : ℤ)) _ _ rfl written
        rwa [length] at runs
      · exact runsAs_error (Bool.eq_false_iff.mpr known)
    · obtain ⟨fault, same⟩ := (generateBytesForData_negative data low high).2
      rw [same]
      refine runsAs_error ?_
      rw [dataReadable, decide_eq_false (by omega)]
      rfl
  | _ => exact runsAs_error rfl

theorem text_runs (value : ValueUnion ParameterValue) :
    RunsAs (textReadable value) (some (textLength value)) (textLength value) true (do
      let text ← stringMember value
      generateBytesForDynamicData (cells text) text.length) := by
  cases value with
  | string pointer text =>
    rw [stringMember, ok_bind]
    simp only [textReadable, textLength]
    have run := generateBytesForDynamicData_run (cells text.text) text.addressable
    rw [cells_length] at run
    rw [run]
    split_ifs with known
    · have ready := known
      simp only [dataReadable, Bool.and_eq_true, decide_eq_true_eq] at known
      have inside := wordsLength_le (n32ByteGroups text.text.length + 1)
      have length : ((cells (beBytes 32 text.text.length) ++ paddedCells (cells text.text) text.text.length).take
          (wordsLength (n32ByteGroups text.text.length + 1))).length =
          wordsLength (n32ByteGroups text.text.length + 1) := by
        rw [List.length_take, List.length_append, cells_length, beBytes_length,
          paddedCells_length (by rw [cells_length]) known.1.2]
        omega
      have written : Initialized ((cells (beBytes 32 text.text.length) ++
          paddedCells (cells text.text) text.text.length).take (wordsLength (n32ByteGroups text.text.length + 1))) := by
        apply initialized_take
        rw [paddedCells, cells_take, ← cells_append, ← cells_append]
        exact initialized_cells _
      have runs := @runsAs_ok true (some (wordsLength (n32ByteGroups text.text.length + 1) : ℤ)) _ true rfl
        (iff_of_true written rfl)
      rw [length] at runs
      rwa [ready]
    · exact runsAs_error (Bool.eq_false_iff.mpr known)
  | _ => exact runsAs_error rfl

end Iotex
