import Iotex.Proofs.ValueRuns

/-! # Runs of the encoder

The encoder of a parameter runs as the parameter says: with defined behavior exactly when it is readable, and
then to the count, the number of bytes and the unwritten bytes that are foretold. The proof follows the
encoder's recursion; the loop over static elements starts from any count.
-/

namespace Iotex

open Spec Contract

/-! ## Heads and size words -/

private theorem head_run (offset : Option ℕ) (out : Cells) :
    ∃ head : Cells, generateBytesForUint (sizeTBytes offset) 8 out = .ok (32, head) ∧ head.length = 32 ∧
      (Initialized head ↔ offset.isSome = true) := by
  have length : (sizeTBytes offset).length = 8 := by
    cases offset <;> simp [sizeTBytes, cells_length, leBytes_length, uninitialized]
  rw [generateBytesForUint, if_neg (by omega), readFirst_of_le length.ge, ok_bind, List.take_of_length_le length.le]
  refine ⟨_, rfl, ?_, ?_⟩
  · rw [List.length_append, cells_length, List.length_replicate, List.length_reverse, length]
  · rw [initialized_append, and_iff_right (initialized_cells _), initialized_reverse]
    cases offset with
    | some offset => exact iff_of_true (initialized_cells _) rfl
    | none => exact iff_of_false (not_initialized_uninitialized (by norm_num)) (by simp)

private theorem addSizeT_isSome (a b : Option ℕ) : (addSizeT a b).isSome = (a.isSome && b.isSome) := by
  cases a <;> cases b <;> rfl

/-- The heads are all set exactly when the first offset and all sizes but the last are. -/
private theorem buildHeads_run (offset : Option ℕ) (sizes : List Count) :
    ∃ heads, buildHeads offset sizes = .ok heads ∧ heads.length = 32 * sizes.length ∧
      (Initialized heads ↔ sizes = [] ∨ (offset.isSome = true ∧ sizes.dropLast.all Option.isSome = true)) := by
  induction sizes generalizing offset with
  | nil => exact ⟨[], rfl, rfl, by simp [Initialized]⟩
  | cons size rest ih =>
    obtain ⟨head, first, length, written⟩ := head_run offset (cells (List.replicate 32 0))
    obtain ⟨heads, later, lengthRest, writtenRest⟩ := ih (addSizeT offset size.toSizeT)
    refine ⟨head ++ heads, ?_, ?_, ?_⟩
    · rw [buildHeads, first, ok_bind]
      dsimp only
      rw [later, ok_bind, pure_eq_ok]
    · rw [List.length_append, length, lengthRest, List.length_cons]
      ring
    · rw [initialized_append, written, writtenRest, addSizeT_isSome, Count.toSizeT, Option.isSome_map]
      cases rest with
      | nil => simp
      | cons next rest =>
        simp only [reduceCtorEq, Bool.and_eq_true, false_or, List.dropLast_cons_cons, List.all_cons]
        tauto

/-- A run of the loop over dynamic elements: one count and one vector for each. -/
def ElementsRunAs (items : List ParameterValue) (left : ℕ) (result : Exec (List (Count × Cells))) : Prop :=
  if dynamicElementsReadable items left then
    ∃ encoded, result = .ok encoded ∧ left ≤ items.length ∧
      encoded.map Prod.fst = (items.take left).map (fun item => returnedCount item item.type) ∧
      (encoded.map Prod.snd).flatten.length = dynamicElementsLength items left ∧
      (Initialized (encoded.map Prod.snd).flatten ↔ dynamicElementsBytesSet items left = true)
  else ∃ fault, result = .error fault

/-- Heads and tails: the count is that of the vectors, whatever the elements returned. -/
private theorem withHeads_runs {items : List ParameterValue} {size : Int32} {elements : Exec (List (Count × Cells))}
    (positive : 0 < size.toInt) (run : ElementsRunAs items size.toNatClampNeg elements) :
    RunsAs (decide (32 * size.toNatClampNeg < 2 ^ 31) && dynamicElementsReadable items size.toNatClampNeg)
      (some (toInt32 (32 * size.toNatClampNeg + dynamicElementsLength items size.toNatClampNeg)))
      (32 * size.toNatClampNeg + dynamicElementsLength items size.toNatClampNeg)
      (dynamicElementsBytesSet items size.toNatClampNeg &&
        (items.take (size.toNatClampNeg - 1)).all fun item => (returnedCount item item.type).isSome)
      (withHeads size elements) := by
  have count := toNatClampNeg_cast positive.le
  rw [withHeads, mulInt]
  by_cases few : 32 * size.toNatClampNeg < 2 ^ 31
  swap
  · rw [if_neg (by omega), error_bind, decide_eq_false few]
    exact runsAs_error rfl
  rw [if_pos (by omega), ok_bind, decide_eq_true few, Bool.true_and]
  rw [ElementsRunAs] at run
  split_ifs at run with known
  swap
  · obtain ⟨fault, rfl⟩ := run
    exact runsAs_error (Bool.eq_false_iff.mpr known)
  obtain ⟨encoded, rfl, enough, counts, length, written⟩ := run
  have number : encoded.length = size.toNatClampNeg := by
    have lengths := congrArg List.length counts
    rwa [List.length_map, List.length_map, List.length_take, Nat.min_eq_left enough] at lengths
  obtain ⟨heads, built, headsLength, headsWritten⟩ :=
    buildHeads_run (some (toSizeT (32 * size.toInt))) (encoded.map Prod.fst)
  have sizes : (encoded.map Prod.fst).dropLast.all Option.isSome =
      (items.take (size.toNatClampNeg - 1)).all fun item => (returnedCount item item.type).isSome := by
    rw [counts, ← List.map_dropLast, List.dropLast_eq_take, List.length_take, Nat.min_eq_left enough,
      List.take_take, Nat.min_eq_left (Nat.sub_le _ _), List.all_map]
    rfl
  have nonempty : encoded.map Prod.fst ≠ [] := by
    have some := toNatClampNeg_pos positive
    rw [← List.length_pos_iff, List.length_map]
    omega
  rw [known, ok_bind]
  dsimp only
  rw [built, ok_bind, length, ← count]
  have whole : (heads ++ (encoded.map Prod.snd).flatten).length =
      32 * size.toNatClampNeg + dynamicElementsLength items size.toNatClampNeg := by
    rw [List.length_append, headsLength, length, List.length_map, number]
  rw [← whole]
  apply runsAs_ok rfl
  rw [initialized_append, headsWritten, written, sizes, or_iff_right nonempty, Bool.and_eq_true]
  simp [and_comm]

/-- A size word in front of static elements. -/
private theorem withSizeWord_runs {size : Int32} {defined set : Bool} {count : Count} {length : ℕ}
    {elements : Exec (Count × Cells)} (run : RunsAs defined count length set elements) :
    RunsAs defined (count.map fun added => toInt32 (32 + added)) (32 + length) set (withSizeWord size elements) := by
  have word := generateBytesForUint_leBytes 4 size.toUInt32.toNat (cells (List.replicate 32 0)) (show 4 ≤ 32 by omega)
    (le_refl 4)
  rw [withSizeWord, word, ok_bind]
  dsimp only
  rw [RunsAs] at run ⊢
  split_ifs at run ⊢
  · obtain ⟨data, rfl, same, written⟩ := run
    refine ⟨cells (beBytes 32 (size.toUInt32.toNat % 256 ^ 4)) ++ data, ?_, ?_, ?_⟩
    · rw [ok_bind]
      simp only [toInt32_toSizeT, pure_eq_ok]
    · rw [List.length_append, cells_length, beBytes_length, same]
    · rw [initialized_append, and_iff_right (initialized_cells _), written]
  · obtain ⟨fault, rfl⟩ := run
    exact ⟨fault, rfl⟩

/-! ## Parameters -/

private theorem addCount_eq (a b : Count) :
    addCount a b = if countInRange (sumCounts a b) then .ok (sumCounts a b) else .error .intOverflow := by
  cases a with
  | none => rfl
  | some a =>
    cases b with
    | none => rfl
    | some b =>
      rw [addCount_some]
      have sum : sumCounts (some a) (some b) = some (a + b) := rfl
      simp only [sum, countInRange, Option.all_some, Bool.and_eq_true, decide_eq_true_eq]

/-- Without elements there is nothing. -/
private theorem fixedArrayLength_zero (value : ValueUnion ParameterValue) : fixedArrayLength value 0 = 0 := by
  rcases value with _ | _ | _ | ⟨_, _ | ⟨first, rest⟩⟩
  all_goals simp [fixedArrayLength, staticElementsLength, dynamicElementsLength]

private theorem dynamicArrayLength_zero (value : ValueUnion ParameterValue) : dynamicArrayLength value 0 = 0 := by
  rcases value with _ | _ | _ | ⟨_, _ | ⟨first, rest⟩⟩
  all_goals simp [dynamicArrayLength]

private theorem nothing_runs : RunsAs true none 0 true (.ok (none, [])) :=
  runsAs_ok rfl (by simp [Initialized])

mutual

/-- The encoder of a parameter runs as the parameter says. -/
theorem generateBytesForParameter_runs (param : ParameterValue) (type : EthereumTypeName) :
    RunsAs (readable param type) (returnedCount param type) (encodedLength param type) (bytesSet param type)
      (generateBytesForParameter param type) := by
  obtain ⟨value, size, isBigInt, tag⟩ := param
  cases type with
  | uint => exact uint_runs value size isBigInt tag
  | int => exact int_runs value size isBigInt tag
  | bool => exact bool_runs value size isBigInt tag
  | address => exact address_runs value size isBigInt tag
  | bytesStatic => exact staticBytes_runs value size
  | bytesDynamic => exact dynamicBytes_runs value size
  | string => exact text_runs value
  | arrayStatic =>
    rw [generateBytesForParameter, readable, returnedCount, encodedLength, bytesSet]
    split_ifs with empty
    · simpa [toNatClampNeg_of_not_pos empty, empty, fixedArrayLength_zero] using nothing_runs
    · simpa [empty] using generateBytesForStaticArray_runs value size (not_le.mp empty)
  | arrayDynamic =>
    rw [generateBytesForParameter, readable, returnedCount, encodedLength, bytesSet]
    split_ifs with empty
    · simpa [toNatClampNeg_of_not_pos empty, empty, dynamicArrayLength_zero] using nothing_runs
    · simpa [empty] using generateBytesForDynamicArray_runs value size (not_le.mp empty)
  | fixed => exact nothing_runs
  | ufixed => exact nothing_runs
  | tupleStatic => exact nothing_runs
  | tupleDynamic => exact nothing_runs
  | unknown => exact nothing_runs
termination_by structural param

theorem generateBytesForStaticArray_runs (value : ValueUnion ParameterValue) (size : Int32)
    (positive : 0 < size.toInt) :
    RunsAs (fixedArrayReadable value size.toNatClampNeg) (fixedArrayCount value size.toNatClampNeg)
      (fixedArrayLength value size.toNatClampNeg) (fixedArrayBytesSet value size.toNatClampNeg)
      (generateBytesForStaticArray value size) := by
  cases value with
  | elements pointer items =>
    cases items with
    | nil => exact runsAs_error rfl
    | cons first rest =>
      rw [generateBytesForStaticArray, fixedArrayReadable, fixedArrayCount, fixedArrayLength, fixedArrayBytesSet]
      split_ifs with dynamic
      · exact withHeads_runs positive (generateBytesForElements_runs (first :: rest) size.toNatClampNeg)
      · exact generateBytesForStaticElements_runs (first :: rest) size.toNatClampNeg (some 0)
  | _ => exact runsAs_error rfl
termination_by structural value

theorem generateBytesForDynamicArray_runs (value : ValueUnion ParameterValue) (size : Int32)
    (positive : 0 < size.toInt) :
    RunsAs (dynamicArrayReadable value size.toNatClampNeg) (dynamicArrayCount value size.toNatClampNeg)
      (dynamicArrayLength value size.toNatClampNeg) (dynamicArrayBytesSet value size.toNatClampNeg)
      (generateBytesForDynamicArray value size) := by
  obtain ⟨left, some_left⟩ := Nat.exists_eq_add_one.mpr (toNatClampNeg_pos positive)
  cases value with
  | elements pointer items =>
    cases items with
    | nil => exact runsAs_error rfl
    | cons first rest =>
      rw [generateBytesForDynamicArray, dynamicArrayReadable, dynamicArrayCount, some_left, dynamicArrayLength,
        ← some_left, dynamicArrayBytesSet]
      split_ifs with dynamic
      · rw [dynamic]
        exact runsAs_ok rfl (by simp [Initialized])
      · rw [Bool.not_eq_true] at dynamic
        rw [dynamic]
        exact withSizeWord_runs (generateBytesForStaticElements_runs (first :: rest) size.toNatClampNeg (some 0))
  | _ => exact runsAs_error rfl
termination_by structural value

/-- The loop adds its counts to the one it starts from; an element of unknown type ends it. -/
theorem generateBytesForStaticElements_runs (items : List ParameterValue) (left : ℕ) (start : Count) :
    RunsAs (staticElementsReadable items left start) (staticElementsCount items left start)
      (staticElementsLength items left) (staticElementsBytesSet items left)
      (generateBytesForStaticElements items left start) := by
  cases left with
  | zero => cases items <;> exact runsAs_ok rfl (by simp [Initialized, staticElementsBytesSet])
  | succ left =>
    cases items with
    | nil => exact runsAs_error rfl
    | cons item rest =>
      rw [generateBytesForStaticElements, staticElementsReadable, staticElementsCount, staticElementsLength,
        staticElementsBytesSet]
      by_cases unknown : item.type = .unknown
      · rw [if_pos unknown, if_pos unknown, if_pos unknown, unknown]
        exact runsAs_ok rfl (by simp [Initialized])
      · rw [if_neg unknown, if_neg unknown, if_neg unknown, beq_false_of_ne unknown, Bool.false_or, Bool.false_or]
        have first := generateBytesForParameter_runs item item.type
        have later := generateBytesForStaticElements_runs rest left (sumCounts start (returnedCount item item.type))
        rw [RunsAs] at first
        split_ifs at first with known
        swap
        · obtain ⟨fault, same⟩ := first
          rw [same, error_bind]
          exact runsAs_error (by simp [Bool.eq_false_iff.mpr known])
        obtain ⟨data, encoded, length, written⟩ := first
        rw [encoded, ok_bind]
        dsimp only
        rw [addCount_eq]
        split_ifs with inRange
        swap
        · rw [error_bind]
          exact runsAs_error (by simp [Bool.eq_false_iff.mpr inRange])
        rw [ok_bind, known, inRange, Bool.true_and, Bool.true_and]
        rw [RunsAs] at later ⊢
        split_ifs at later ⊢
        · obtain ⟨more, loop, lengthRest, writtenRest⟩ := later
          rw [loop, ok_bind]
          refine ⟨data ++ more, rfl, by rw [List.length_append, length, lengthRest], ?_⟩
          rw [initialized_append, written, writtenRest, Bool.and_eq_true]
        · obtain ⟨fault, same⟩ := later
          rw [same, error_bind]
          exact ⟨fault, rfl⟩
termination_by structural items

theorem generateBytesForElements_runs (items : List ParameterValue) (left : ℕ) :
    ElementsRunAs items left (generateBytesForElements items left) := by
  cases left with
  | zero =>
    cases items <;>
      exact ⟨[], rfl, Nat.zero_le _, rfl, rfl, by simp [Initialized, dynamicElementsBytesSet]⟩
  | succ left =>
    cases items with
    | nil => exact ⟨_, rfl⟩
    | cons item rest =>
      have first := generateBytesForParameter_runs item item.type
      have later := generateBytesForElements_runs rest left
      rw [ElementsRunAs] at later ⊢
      rw [generateBytesForElements, dynamicElementsReadable, dynamicElementsLength, dynamicElementsBytesSet]
      rw [RunsAs] at first
      split_ifs at first with known
      swap
      · obtain ⟨fault, same⟩ := first
        rw [same, error_bind, if_neg (by simp [known])]
        exact ⟨fault, rfl⟩
      obtain ⟨data, encoded, length, written⟩ := first
      rw [encoded, ok_bind, known, Bool.true_and]
      split_ifs at later ⊢
      · obtain ⟨others, loop, enough, counts, lengthRest, writtenRest⟩ := later
        rw [loop, ok_bind]
        refine ⟨(returnedCount item item.type, data) :: others, rfl, by simpa using enough, ?_, ?_, ?_⟩
        · rw [List.map_cons, counts, List.take_succ_cons, List.map_cons]
        · rw [List.map_cons, List.flatten_cons, List.length_append, length, lengthRest]
        · rw [List.map_cons, List.flatten_cons, initialized_append, written, writtenRest, Bool.and_eq_true]
      · obtain ⟨fault, same⟩ := later
        rw [same, error_bind]
        exact ⟨fault, rfl⟩
termination_by structural items

end

end Iotex
