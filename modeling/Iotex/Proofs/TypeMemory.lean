import Iotex.Model.TypeMemory
import Iotex.Proofs.TypeStrings

/-! # Arrays and what was written to them

The parser with its arrays computes what the parser on lists of characters does: each array holds the
characters written so far and zeros behind them. A comparison that looks at all characters leaves a string
that is too short; otherwise it is the test for a prefix.
-/

namespace Iotex.TypeMemory

/-! ## Arrays of zeros -/

/-- The character goes behind those that were written. -/
private theorem store_next (written : Bytes) (left : ℕ) (char : UInt8) :
    store (written ++ zeroed (left + 1)) written.length char = .ok ((written ++ [char]) ++ zeroed left) := by
  have inside : written.length < (written ++ zeroed (left + 1)).length := by
    rw [zeroed, List.length_append, List.length_replicate]
    omega
  rw [store, if_pos inside, zeroed, List.replicate_succ, List.set_append_right _ _ (le_refl _), Nat.sub_self,
    List.set_cons_zero, List.append_assoc, List.singleton_append]
  rfl

/-- An array that is not full holds the number that was written to it. -/
private theorem atoiIn_partial (written : Bytes) (left : ℕ) : atoiIn (written ++ zeroed (left + 1)) = atoi written := by
  have front : cString (written ++ zeroed (left + 1)) = cString written := by
    have zero : cString (zeroed (left + 1)) = [] := by
      rw [cString, zeroed, List.replicate_succ, List.takeWhile_cons_of_neg (by simp)]
    rw [cString, List.takeWhile_append]
    split_ifs with whole
    · have plain : cString written = written := (List.takeWhile_prefix _).eq_of_length whole
      change written ++ cString (zeroed (left + 1)) = cString written
      rw [zero, List.append_nil, plain]
    · rfl
  have terminated : (0 : UInt8) ∈ written ++ zeroed (left + 1) := by
    simp [zeroed, List.replicate_succ]
  rw [atoiIn, stringIn, if_pos terminated, ok_bind, front, atoi_cString]

/-- A full array without a NUL. -/
private theorem atoiIn_full {written : Bytes} (noNul : (0 : UInt8) ∉ written) :
    atoiIn written = .error .outOfBounds := by
  rw [atoiIn, stringIn, if_neg noNul, error_bind]

/-! ## The loops -/

private theorem copySize_zeroed (str : Bytes) (left i pCurr : ℕ) (written : Bytes) (index : i = written.length) :
    copySize str left i pCurr (written ++ zeroed left) =
      (Iotex.copySize str left pCurr written).map
        (Option.map fun copied => (copied.1, copied.2 ++ zeroed (left + written.length - copied.2.length))) := by
  subst index
  induction left generalizing pCurr written with
  | zero => simp [copySize, Iotex.copySize, Except.map]
  | succ left ih =>
    rw [copySize, Iotex.copySize]
    cases read : charAt str pCurr with
    | error fault => rfl
    | ok char =>
      simp only [ok_bind]
      split_ifs with bracket other last
      · simp [Except.map]
      · rfl
      · simp [store_next, last, Except.map, Nat.add_right_comm]
      · have tail := ih (pCurr + 1) (written ++ [char])
        rw [List.length_append, List.length_singleton, ← Nat.add_assoc, Nat.add_right_comm] at tail
        simp only [store_next, ok_bind]
        exact tail

/-- The loop copies no NUL and at most one character in each iteration. -/
private theorem copySize_copied {str written copied : Bytes} {left pCurr stop : ℕ}
    (ran : Iotex.copySize str left pCurr written = .ok (some (stop, copied))) (noNul : (0 : UInt8) ∉ written) :
    (0 : UInt8) ∉ copied ∧ copied.length ≤ written.length + left := by
  induction left generalizing pCurr written with
  | zero =>
    simp only [Iotex.copySize, Except.ok.injEq, Option.some.injEq, Prod.mk.injEq] at ran
    rw [← ran.2]
    exact ⟨noNul, Nat.le_refl _⟩
  | succ left ih =>
    rw [Iotex.copySize] at ran
    obtain ⟨char, -, ran⟩ := bind_eq_ok.mp ran
    split_ifs at ran with bracket other last
    · simp only [pure_eq_ok, Except.ok.injEq, Option.some.injEq, Prod.mk.injEq] at ran
      rw [← ran.2]
      exact ⟨noNul, Nat.le_add_right _ _⟩
    · simp at ran
    all_goals
      have more : (0 : UInt8) ∉ written ++ [char] := by
        rw [List.mem_append, List.mem_singleton, not_or]
        refine ⟨noNul, ?_⟩
        rintro rfl
        exact other (.inl (by decide))
    · simp only [pure_eq_ok, Except.ok.injEq, Option.some.injEq, Prod.mk.injEq] at ran
      rw [← ran.2]
      refine ⟨more, ?_⟩
      rw [List.length_append, List.length_singleton]
      omega
    · obtain ⟨noNul, bound⟩ := ih ran more
      rw [List.length_append, List.length_singleton] at bound
      exact ⟨noNul, by omega⟩

private theorem copyArraySize_zeroed (str : Bytes) (left i pCurr : ℕ) (written : Bytes) (index : i = written.length) :
    copyArraySize str left i pCurr (written ++ zeroed left) =
      (Iotex.copyArraySize str left i pCurr written).map
        fun copied => (copied.1, copied.2 ++ zeroed (left + written.length - copied.2.length)) := by
  subst index
  induction left generalizing pCurr written with
  | zero => simp [copyArraySize, Iotex.copyArraySize, Except.map]
  | succ left ih =>
    rw [copyArraySize, Iotex.copyArraySize]
    cases read : charAt str pCurr with
    | error fault => rfl
    | ok char =>
      simp only [ok_bind]
      split_ifs with bracket
      · simp [Except.map]
      · cases second : charAt str (pCurr + written.length) with
        | error fault => rfl
        | ok char =>
          have tail := ih (pCurr + 1) (written ++ [char])
          rw [List.length_append, List.length_singleton, ← Nat.add_assoc, Nat.add_right_comm] at tail
          simp only [store_next, ok_bind]
          exact tail

/-- The pointer and the number of copied characters advance together. -/
private theorem copyArraySize_advance {str written copied : Bytes} {left i pCurr stop : ℕ}
    (ran : Iotex.copyArraySize str left i pCurr written = .ok (stop, copied)) :
    stop + written.length = pCurr + copied.length := by
  induction left generalizing i pCurr written with
  | zero =>
    obtain ⟨rfl, rfl⟩ := Prod.mk.inj (Except.ok.inj ran)
    rfl
  | succ left ih =>
    rw [Iotex.copyArraySize] at ran
    obtain ⟨char, -, ran⟩ := bind_eq_ok.mp ran
    split_ifs at ran
    · obtain ⟨rfl, rfl⟩ := Prod.mk.inj (Except.ok.inj ran)
      rfl
    · obtain ⟨char, -, ran⟩ := bind_eq_ok.mp ran
      have tail := ih ran
      rw [List.length_append, List.length_singleton] at tail
      omega

/-! ## The parser -/

/-- Continuations that agree on what the first computation returns. -/
private theorem bind_congr_ok {α β : Type} {first : Exec α} {next other : α → Exec β}
    (same : ∀ value, first = .ok value → next value = other value) : first >>= next = first >>= other := by
  cases ran : first with
  | error fault => rfl
  | ok value => exact same value ran

private theorem map_bind {α β γ : Type} (first : Exec α) (f : α → β) (next : β → Exec γ) :
    first.map f >>= next = first >>= fun value => next (f value) := by
  cases first <;> rfl

theorem checkIfArray_eq (str : Bytes) (pCurr : ℕ) (out : InputOutputAbi) :
    checkIfArray str pCurr out = Iotex.checkIfArray str pCurr out := by
  have zeros := copyArraySize_zeroed str str.length 0 (pCurr + 1) [] rfl
  simp only [List.nil_append, List.length_nil, Nat.add_zero] at zeros
  rw [checkIfArray, Iotex.checkIfArray, zeros]
  split_ifs
  · rfl
  refine bind_congr_ok fun char _ => ?_
  split_ifs
  · rfl
  refine bind_congr_ok fun char _ => ?_
  split_ifs
  · rfl
  simp only [map_bind]
  refine bind_congr_ok fun copied ran => ?_
  refine bind_congr_ok fun char read => ?_
  split_ifs with open_bracket
  · rfl
  -- the closing bracket is a character of the string, so the array is not full
  have advanced := copyArraySize_advance ran
  have inside : copied.1 ≤ str.length := charAt_eq_ok read
  rw [List.length_nil] at advanced
  have room : str.length - copied.2.length = (str.length - copied.2.length - 1) + 1 := by omega
  rw [room, atoiIn_partial]

theorem getSizeFromStringAndCheckIfArray_eq (str : Bytes) (out : InputOutputAbi) :
    getSizeFromStringAndCheckIfArray str out = Iotex.getSizeFromStringAndCheckIfArray str out := by
  rw [getSizeFromStringAndCheckIfArray, Iotex.getSizeFromStringAndCheckIfArray]
  refine bind_congr_ok fun typeText _ => ?_
  have zeros := copySize_zeroed str 4 0 typeText.length [] rfl
  simp only [List.nil_append, List.length_nil, Nat.add_zero] at zeros
  simp only [zeros, map_bind, checkIfArray_eq]
  by_cases bare : (out.type = .uint ∨ out.type = .int) ∧ typeText.length = str.length
  · rw [if_pos bare, if_pos bare]
  rw [if_neg bare, if_neg bare]
  by_cases sized : out.type = .uint ∨ out.type = .int ∨ out.type = .bytesStatic
  · rw [if_pos sized, if_pos sized]
    refine bind_congr_ok fun copied ran => ?_
    cases copied with
    | none => rfl
    | some copied =>
      obtain ⟨noNul, bound⟩ := copySize_copied ran (by simp)
      rw [List.length_nil, Nat.zero_add] at bound
      have read : atoiIn (copied.2 ++ zeroed (4 - copied.2.length)) = atoiSizeBuf copied.2 := by
        rw [atoiSizeBuf]
        split_ifs with full
        · rw [show 4 - copied.2.length = 0 by omega, zeroed, List.replicate_zero, List.append_nil]
          exact atoiIn_full noNul
        · rw [show 4 - copied.2.length = (3 - copied.2.length) + 1 by omega]
          exact atoiIn_partial _ _
      simp only [Option.map_some, read]
  · rw [if_neg sized, if_neg sized]

/-! ## Comparisons with literals -/

private theorem compareFrom_eq (before str : Bytes) {literal : Bytes} (noNul : (0 : UInt8) ∉ literal) :
    compareFrom (before ++ str) before.length literal = .ok (startsWith str literal) := by
  induction literal generalizing before str with
  | nil => rw [compareFrom, startsWith, List.isPrefixOf_nil_left]
  | cons expected literal ih =>
    rw [List.mem_cons, not_or] at noNul
    cases str with
    | nil =>
      have nul : charAt (before ++ []) before.length = .ok 0 := by
        rw [List.append_nil, charAt, if_neg (by omega), if_pos rfl]
      rw [compareFrom, nul, ok_bind, if_pos noNul.1, startsWith, List.isPrefixOf_cons_nil]
      rfl
    | cons char str =>
      rw [compareFrom, charAt_append, ok_bind]
      rcases eq_or_ne char expected with same | same
      · have tail := ih (before ++ [char]) str noNul.2
        rw [List.append_assoc, List.singleton_append, List.length_append, List.length_singleton] at tail
        rw [if_neg (by simp [same]), tail, startsWith, startsWith, List.isPrefixOf_cons_cons]
        simp [same]
      · rw [if_pos same, startsWith, List.isPrefixOf_cons_cons]
        simp [Ne.symm same]

/-- A comparison with a literal: all its characters are read, or those up to the first difference. -/
theorem memcmp_eq (whole : Bool) (str : Bytes) {literal : Bytes} (noNul : (0 : UInt8) ∉ literal) :
    memcmp whole str literal =
      if whole = true ∧ str.length + 1 < literal.length then .error .outOfBounds else .ok (startsWith str literal) := by
  cases whole with
  | false =>
    rw [memcmp, if_neg (by simp), if_neg (by simp)]
    exact compareFrom_eq [] str noNul
  | true =>
    rw [memcmp, if_pos rfl, readFirst, List.length_append, List.length_singleton]
    rcases Nat.lt_or_ge (str.length + 1) literal.length with long | short
    · rw [if_neg (by omega), if_pos ⟨rfl, long⟩, error_bind]
    · rw [if_pos short, if_neg (by omega), ok_bind, pure_eq_ok, Except.ok.injEq, Bool.eq_iff_iff]
      rw [beq_iff_eq, startsWith, List.isPrefixOf_iff_prefix, List.prefix_iff_eq_take]
      rcases le_or_gt literal.length str.length with fits | _
      · rw [List.take_append_of_le_length fits]
        exact eq_comm
      · -- the last of the characters is the NUL, which the literal does not have
        have all : (str ++ [0]).take literal.length = str ++ [0] := List.take_of_length_le (by simp; omega)
        rw [all, List.take_of_length_le (by omega)]
        constructor
        · rintro rfl
          simp at noNul
        · rintro rfl
          omega

end Iotex.TypeMemory
