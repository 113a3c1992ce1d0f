import Iotex.Proofs.EncoderRuns
import Iotex.Spec.ReturnedSizes

/-! # Counts and appended words

A run of the encoder appends the words that are foretold for its parameter. Its count is never more than the
appended bytes, so that a sum of counts is right exactly when all of them are. The proof follows the recursion of
what is foretold of the run; the loop over static elements starts from any count.
-/

namespace Iotex

open Spec Contract

/-! ## Counts -/

/-- What is known of a count next to the words that were appended: it is set as foretold, an `int` that is
not above the appended bytes, and equal to them as foretold. -/
structure CountFor (count : Count) (words : ℕ) (returned agrees : Bool) : Prop where
  returned : count.isSome = returned
  least : ∀ value ∈ count, -2 ^ 31 ≤ value
  most : ∀ value ∈ count, value ≤ 32 * words
  agrees : count = some (32 * words : ℤ) ↔ agrees = true

theorem countFor_unset (words : ℕ) : CountFor none words false false := ⟨rfl, by simp, by simp, by simp⟩

theorem countFor_some {value : ℤ} {words : ℕ} {agrees : Bool} (least : -2 ^ 31 ≤ value) (most : value ≤ 32 * words)
    (same : value = 32 * words ↔ agrees = true) : CountFor (some value) words true agrees := by
  refine ⟨rfl, ?_, ?_, ?_⟩
  · intro other member
    rwa [← Option.mem_some_iff.mp member]
  · intro other member
    rwa [← Option.mem_some_iff.mp member]
  · rw [Option.some.injEq, same]

/-- A sum of counts is right exactly when both are, as neither is too large. -/
theorem CountFor.add {a b : Count} {wordsA wordsB : ℕ} {returnedA returnedB agreesA agreesB : Bool}
    (first : CountFor a wordsA returnedA agreesA) (second : CountFor b wordsB returnedB agreesB)
    (fits : countInRange (sumCounts a b) = true) :
    CountFor (sumCounts a b) (wordsA + wordsB) (returnedA && returnedB) (agreesA && agreesB) := by
  have wrong {count : Count} {words : ℕ} {returned agrees : Bool} (known : CountFor count words returned agrees)
      (unset : count = none) : agrees = false := by
    rw [← Bool.not_eq_true, ← known.agrees, unset]
    simp
  rw [← first.returned, ← second.returned]
  cases a with
  | none =>
    rw [wrong first rfl]
    exact countFor_unset _
  | some a =>
    cases b with
    | none =>
      rw [wrong second rfl, Bool.and_false, Option.isSome_none, Bool.and_false]
      exact countFor_unset _
    | some b =>
      have sum : sumCounts (some a) (some b) = some (a + b) := rfl
      rw [sum, countInRange, Option.all_some, Bool.and_eq_true, decide_eq_true_eq, decide_eq_true_eq] at fits
      have mostA := first.most a rfl
      have mostB := second.most b rfl
      refine countFor_some fits.1 (by push_cast; omega) ?_
      have agreesA := first.agrees
      have agreesB := second.agrees
      rw [Option.some.injEq] at agreesA agreesB
      rw [Bool.and_eq_true, ← agreesA, ← agreesB]
      push_cast
      omega

/-- The bytes of a run are the foretold words, and its count is as foretold. -/
def AsForetold (count : Count) (length words : ℕ) (returned agrees : Bool) : Prop :=
  length = 32 * words ∧ CountFor count words returned agrees

/-- The conversion of a number from the `int` range upwards is not above it. -/
private theorem toInt32_bounds {value : ℤ} (least : -2 ^ 31 ≤ value) :
    -2 ^ 31 ≤ toInt32 value ∧ toInt32 value ≤ value ∧ (toInt32 value = value ↔ value < 2 ^ 31) := by
  rw [toInt32, Int.bmod_def]
  norm_num
  omega

/-! ## Single values -/

private theorem word_foretold : AsForetold (some 32) 32 1 true true :=
  ⟨rfl, countFor_some (by norm_num) (by norm_num) (by norm_num)⟩

private theorem integer_foretold (size : Int32) (isBigInt : Bool) :
    AsForetold (some (integerCount size isBigInt)) 32 1 true !oversized size isBigInt := by
  refine ⟨rfl, ?_⟩
  rw [integerCount]
  by_cases held : isBigInt = true ∨ 8 < size.toInt
  · have wrong : oversized size isBigInt = true := by
      rcases held with big | large
      · simp [oversized, big]
      · simp [oversized, large]
    rw [if_pos held, wrong]
    exact countFor_some (by norm_num) (by norm_num) (by norm_num)
  · rw [if_neg held]
    simp only [not_or, Bool.not_eq_true, not_lt] at held
    split_ifs with negative
    · have wrong : oversized size isBigInt = true := by simp [oversized, negative]
      rw [wrong]
      exact countFor_some (by norm_num) (by norm_num) (by norm_num)
    · have fits : oversized size isBigInt = false := by simp [oversized, held, not_lt.mp negative]
      rw [fits]
      exact countFor_some (by norm_num) (by norm_num) (by norm_num)

/-- Fewer words than an `int` can count the bytes of. -/
private theorem words_foretold {words : ℕ} (few : words < 2 ^ 26) :
    AsForetold (some (wordsLength words)) (wordsLength words) words true true := by
  have whole : wordsLength words = 32 * words := by
    rw [wordsLength]
    omega
  rw [whole]
  exact ⟨rfl, countFor_some (by push_cast; omega) (by push_cast; omega) (by simp)⟩

private theorem groups_of_short {size : ℕ} (short : size < 2 ^ 24) :
    n32ByteGroups size = blocks 32 size ∧ blocks 32 size + 1 < 2 ^ 26 := by
  have above := blocks_le size
  exact ⟨n32ByteGroups_of_lt short, by omega⟩

/-! ## Parameters -/

private theorem nothing_foretold : AsForetold none 0 0 false false := ⟨rfl, countFor_unset 0⟩

/-- Without elements there is nothing. -/
private theorem fixedArray_zero (value : ValueUnion ParameterValue) :
    fixedArrayLength value 0 = 0 ∧ fixedArrayWords value 0 = 0 := by
  rcases value with _ | _ | _ | ⟨_, _ | ⟨first, rest⟩⟩
  all_goals simp [fixedArrayLength, staticElementsLength, dynamicElementsLength, fixedArrayWords, staticElementsWords,
    dynamicElementsWords]

private theorem dynamicArray_zero (value : ValueUnion ParameterValue) :
    dynamicArrayLength value 0 = 0 ∧ dynamicArrayWords value 0 = 0 := by
  rcases value with _ | _ | _ | ⟨_, _ | ⟨first, rest⟩⟩
  all_goals simp [dynamicArrayLength, dynamicArrayWords]

/-- A sum that is converted to an `int`. -/
private theorem converted_foretold {words : ℕ} :
    AsForetold (some (toInt32 (32 * words : ℤ))) (32 * words) words true (decide (32 * words < 2 ^ 31)) := by
  obtain ⟨least, most, same⟩ := @toInt32_bounds (32 * words : ℤ) (by omega)
  refine ⟨rfl, countFor_some least most ?_⟩
  rw [same, decide_eq_true_eq]
  omega

/-- A size word in front of static elements. -/
private theorem sizeWord_foretold {added : Count} {words : ℕ} {returned agrees : Bool}
    (known : CountFor added words returned agrees) :
    CountFor (added.map fun added => toInt32 (32 + added)) (1 + words) returned
      (agrees && decide (32 * (1 + words) < 2 ^ 31)) := by
  rw [← known.returned]
  cases added with
  | none =>
    have wrong : agrees = false := by
      rw [← Bool.not_eq_true, ← known.agrees]
      simp
    rw [wrong]
    exact countFor_unset _
  | some added =>
    have least := known.least added rfl
    have most := known.most added rfl
    have same := known.agrees
    rw [Option.some.injEq] at same
    obtain ⟨low, high, exactly⟩ := @toInt32_bounds (32 + added) (by omega)
    refine countFor_some low (by push_cast; omega) ?_
    rw [Bool.and_eq_true, ← same, decide_eq_true_eq]
    push_cast
    omega

mutual

/-- What is foretold of the run on a readable parameter, in words and by agreement of the counts. -/
private theorem encodedLength_foretold (param : ParameterValue) (type : EthereumTypeName)
    (short : shortData param type = true) (known : readable param type = true) :
    AsForetold (returnedCount param type) (encodedLength param type) (appendedWords param type)
      (countReturned param type) (countAgrees param type) := by
  obtain ⟨value, size, isBigInt, tag⟩ := param
  cases type with
  | uint => exact integer_foretold size isBigInt
  | int => exact integer_foretold size isBigInt
  | bool => exact word_foretold
  | address => exact word_foretold
  | bytesStatic =>
    cases value with
    | bytes pointer data =>
      simp only [readable, bytesReadable, dataReadable, Bool.and_eq_true, decide_eq_true_eq] at known
      simp only [shortData, ownBytes, Nat.min_eq_left known.1.1.2, decide_eq_true_eq] at short
      obtain ⟨groups, few⟩ := groups_of_short short
      rw [returnedCount, encodedLength, appendedWords, groups]
      exact words_foretold (by omega)
    | _ => cases known
  | bytesDynamic =>
    cases value with
    | bytes pointer data =>
      simp only [readable, bytesReadable, dataReadable, Bool.and_eq_true, decide_eq_true_eq] at known
      simp only [shortData, ownBytes, Nat.min_eq_left known.1.1.2, decide_eq_true_eq] at short
      obtain ⟨groups, few⟩ := groups_of_short short
      rw [returnedCount, encodedLength, appendedWords, groups, Nat.add_comm 1]
      exact words_foretold few
    | _ => cases known
  | string =>
    cases value with
    | string pointer text =>
      have few_bytes : text.text.length < 2 ^ 24 := of_decide_eq_true short
      obtain ⟨groups, few⟩ := groups_of_short few_bytes
      rw [returnedCount, encodedLength, appendedWords, textLength, ownBytes, groups, Nat.add_comm 1]
      exact words_foretold few
    | _ => cases known
  | arrayStatic =>
    rw [readable] at known
    rw [returnedCount, encodedLength, appendedWords, countReturned, countAgrees]
    split_ifs with empty
    · simpa [toNatClampNeg_of_not_pos empty, fixedArray_zero, not_lt.mpr empty] using nothing_foretold
    · simpa [not_le.mp empty] using fixedArrayLength_foretold value size.toNatClampNeg short (by simpa [empty] using known)
  | arrayDynamic =>
    rw [readable] at known
    rw [returnedCount, encodedLength, appendedWords, countReturned, countAgrees]
    split_ifs with empty
    · simpa [toNatClampNeg_of_not_pos empty, dynamicArray_zero, not_lt.mpr empty] using nothing_foretold
    · simpa [not_le.mp empty] using dynamicArrayLength_foretold value (toNatClampNeg_pos (not_le.mp empty)) short
        (by simpa [empty] using known)
  | fixed => exact nothing_foretold
  | ufixed => exact nothing_foretold
  | tupleStatic => exact nothing_foretold
  | tupleDynamic => exact nothing_foretold
  | unknown => exact nothing_foretold
termination_by structural param

private theorem fixedArrayLength_foretold (value : ValueUnion ParameterValue) (count : ℕ)
    (short : shortArrayData value count = true) (known : fixedArrayReadable value count = true) :
    AsForetold (fixedArrayCount value count) (fixedArrayLength value count) (fixedArrayWords value count)
      (arrayCountReturned value count) (fixedArrayCountAgrees value count) := by
  cases value with
  | elements pointer items =>
    cases items with
    | nil => cases known
    | cons first rest =>
      rw [fixedArrayReadable] at known
      rw [fixedArrayCount, fixedArrayLength, fixedArrayWords, arrayCountReturned, fixedArrayCountAgrees]
      split_ifs at known ⊢ with dynamic
      · rw [Bool.and_eq_true] at known
        have total : 32 * count + dynamicElementsLength (first :: rest) count =
            32 * (count + dynamicElementsWords (first :: rest) count) := by
          rw [dynamicElementsLength_foretold (first :: rest) count short known.2, Nat.mul_add]
        have cast : (32 * (count : ℤ) + (dynamicElementsLength (first :: rest) count : ℤ)) =
            32 * ((count + dynamicElementsWords (first :: rest) count : ℕ) : ℤ) := by
          exact_mod_cast total
        rw [total, cast, dynamic, Bool.true_or]
        exact converted_foretold
      · have start : CountFor (some 0) 0 true true := countFor_some (by norm_num) (by norm_num) (by norm_num)
        have foretold := staticElementsLength_foretold (first :: rest) count short start known
        simpa [dynamic, AsForetold] using foretold
  | _ => cases known
termination_by structural value

private theorem dynamicArrayLength_foretold (value : ValueUnion ParameterValue) {count : ℕ} (positive : 0 < count)
    (short : shortArrayData value count = true) (known : dynamicArrayReadable value count = true) :
    AsForetold (dynamicArrayCount value count) (dynamicArrayLength value count) (dynamicArrayWords value count)
      (arrayCountReturned value count) (dynamicArrayCountAgrees value count) := by
  obtain ⟨left, some_left⟩ := Nat.exists_eq_add_one.mpr positive
  cases value with
  | elements pointer items =>
    cases items with
    | nil => cases known
    | cons first rest =>
      rw [dynamicArrayReadable] at known
      rw [dynamicArrayCount, some_left, dynamicArrayLength, dynamicArrayWords, arrayCountReturned,
        dynamicArrayCountAgrees, ← some_left]
      split_ifs with dynamic
      · simp only [dynamic, Bool.true_or, Bool.not_true, Bool.false_and]
        exact ⟨rfl, countFor_some (by norm_num) (by norm_num) (by norm_num)⟩
      · rw [Bool.not_eq_true] at dynamic
        rw [dynamic, Bool.false_or] at known
        have start : CountFor (some 0) 0 true true := countFor_some (by norm_num) (by norm_num) (by norm_num)
        obtain ⟨length, counted⟩ := staticElementsLength_foretold (first :: rest) count short start known
        rw [Nat.zero_add, Bool.true_and, Bool.true_and] at counted
        refine ⟨by rw [length]; ring, ?_⟩
        simpa [dynamic] using sizeWord_foretold counted
  | _ => cases known
termination_by structural value

/-- The loop adds its counts to the one it starts from; an element of unknown type ends it. -/
private theorem staticElementsLength_foretold (items : List ParameterValue) (left : ℕ) {start : Count} {words : ℕ}
    {returned agrees : Bool} (short : shortElementData items left = true) (counted : CountFor start words returned agrees)
    (known : staticElementsReadable items left start = true) :
    staticElementsLength items left = 32 * staticElementsWords items left ∧
      CountFor (staticElementsCount items left start) (words + staticElementsWords items left)
        (returned && elementCountsReturned items left) (agrees && elementCountsAgree items left) := by
  cases left with
  | zero =>
    cases items <;>
      simpa [staticElementsLength, staticElementsWords, staticElementsCount, elementCountsReturned, elementCountsAgree]
        using counted
  | succ left =>
    cases items with
    | nil => cases known
    | cons item rest =>
      rw [staticElementsReadable] at known
      rw [staticElementsLength, staticElementsWords, staticElementsCount, elementCountsReturned, elementCountsAgree]
      by_cases unknown : item.type = .unknown
      · simpa [unknown] using counted
      · rw [beq_false_of_ne unknown, Bool.false_or, Bool.and_eq_true, Bool.and_eq_true] at known
        rw [shortElementData, Bool.and_eq_true] at short
        obtain ⟨length, first⟩ := encodedLength_foretold item item.type short.1 known.1.1
        obtain ⟨lengthRest, rest⟩ :=
          staticElementsLength_foretold rest left short.2 (counted.add first known.1.2) known.2
        rw [if_neg unknown, if_neg unknown, if_neg unknown, beq_false_of_ne unknown, Bool.false_or, Bool.false_or,
          length, lengthRest, ← Bool.and_assoc, ← Bool.and_assoc, ← Nat.add_assoc]
        exact ⟨by ring, rest⟩
termination_by structural items

private theorem dynamicElementsLength_foretold (items : List ParameterValue) (left : ℕ)
    (short : shortElementData items left = true) (known : dynamicElementsReadable items left = true) :
    dynamicElementsLength items left = 32 * dynamicElementsWords items left := by
  cases left with
  | zero => cases items <;> rfl
  | succ left =>
    cases items with
    | nil => cases known
    | cons item rest =>
      rw [dynamicElementsReadable, Bool.and_eq_true] at known
      rw [shortElementData, Bool.and_eq_true] at short
      rw [dynamicElementsLength, dynamicElementsWords, (encodedLength_foretold item item.type short.1 known.1).1,
        dynamicElementsLength_foretold rest left short.2 known.2, Nat.mul_add]
termination_by structural items

end

/-- The encoder of a parameter appends and returns what is foretold. -/
theorem generateBytesForParameter_foretold (param : ParameterValue) (type : EthereumTypeName) {count : Count}
    {data : Cells} (short : shortData param type = true)
    (ran : generateBytesForParameter param type = .ok (count, data)) :
    AsForetold count data.length (appendedWords param type) (countReturned param type) (countAgrees param type) := by
  have runs := generateBytesForParameter_runs param type
  rw [ran] at runs
  obtain ⟨known, rfl, length, -⟩ := runsAs_of_ok runs
  rw [length]
  exact encodedLength_foretold param type short known

end Iotex
