import Iotex.Proofs.ReturnedSizes

/-! # Returned sizes and appended bytes

When is the number that an encoder returns the number of the bytes it appended? Exactly when the count is
foretold to agree, at every level that it is summed over; and for parameters that append nothing, like a
dynamic array of dynamic elements, a negative number is right as well.
-/

namespace Iotex

open Spec Contract

/-! ## Words of a value that is not empty -/

mutual

/-- A supported parameter that holds something takes up a word. -/
private theorem appendedWords_pos (param : ParameterValue) (type : EthereumTypeName)
    (supported : unencodable param type = false) (returned : countReturned param type = true)
    (holds : holdsSomething param type = true) : 0 < appendedWords param type := by
  obtain ⟨value, size, isBigInt, tag⟩ := param
  cases type with
  | bytesStatic =>
    have nonzero : size.toInt ≠ 0 := by simpa [holdsSomething] using holds
    have least := size.le_toInt
    have most := size.toInt_lt
    rw [appendedWords, blocks, toSizeT]
    omega
  | arrayStatic =>
    rw [countReturned, Bool.and_eq_true, decide_eq_true_eq] at returned
    rw [holdsSomething, Bool.and_eq_true, decide_eq_true_eq] at holds
    rw [unencodable] at supported
    rw [appendedWords]
    exact fixedArrayWords_pos value size.toNatClampNeg (toNatClampNeg_pos holds.1) supported returned.2 holds.2
  | arrayDynamic =>
    rw [countReturned, Bool.and_eq_true, decide_eq_true_eq] at returned
    rw [unencodable] at supported
    rw [appendedWords]
    obtain ⟨left, some_left⟩ := Nat.exists_eq_add_one.mpr (toNatClampNeg_pos returned.1)
    rw [some_left] at supported returned ⊢
    rcases value with _ | _ | _ | ⟨_, _ | ⟨first, rest⟩⟩
    case elements.cons =>
      rw [unencodableArray, unencodableElements] at supported
      simp only [Bool.true_and, Bool.or_eq_false_iff] at supported
      rw [dynamicArrayWords, if_neg (by simp [supported.1.1])]
      omega
    all_goals simp [arrayCountReturned] at returned
  | string => rw [appendedWords]; omega
  | bytesDynamic => rw [appendedWords]; omega
  | fixed => simp [countReturned] at returned
  | ufixed => simp [countReturned] at returned
  | tupleStatic => simp [countReturned] at returned
  | tupleDynamic => simp [countReturned] at returned
  | unknown => simp [countReturned] at returned
  | _ => simp [appendedWords]
termination_by structural param

private theorem fixedArrayWords_pos (value : ValueUnion ParameterValue) (count : ℕ) (positive : 0 < count)
    (supported : unencodableArray value false count = false) (returned : arrayCountReturned value count = true)
    (holds : arrayHoldsSomething value count = true) : 0 < fixedArrayWords value count := by
  rcases value with _ | _ | _ | ⟨_, _ | ⟨first, rest⟩⟩
  case elements.cons =>
    rw [fixedArrayWords]
    rw [arrayCountReturned] at returned
    rw [arrayHoldsSomething] at holds
    rw [unencodableArray] at supported
    split_ifs with dynamic
    · omega
    · rw [Bool.not_eq_true] at dynamic
      rw [dynamic, Bool.false_or] at returned holds
      exact staticElementsWords_pos (first :: rest) count supported returned holds
  all_goals simp [arrayCountReturned] at returned
termination_by structural value

private theorem staticElementsWords_pos (items : List ParameterValue) (count : ℕ) {isDynamicArray : Bool}
    (supported : unencodableElements items isDynamicArray count = false)
    (returned : elementCountsReturned items count = true) (holds : someElementHolds items count = true) :
    0 < staticElementsWords items count := by
  cases count with
  | zero => cases items <;> simp [someElementHolds] at holds
  | succ count =>
    cases items with
    | nil => simp [someElementHolds] at holds
    | cons item rest =>
      rw [unencodableElements] at supported
      simp only [Bool.or_eq_false_iff] at supported
      have known : ¬item.type = .unknown := by
        intro unknown
        rw [unknown, unencodable_unknown] at supported
        simp at supported
      rw [elementCountsReturned, beq_false_of_ne known, Bool.false_or, Bool.and_eq_true] at returned
      rw [someElementHolds, Bool.or_eq_true] at holds
      rw [staticElementsWords, if_neg known]
      rcases holds with first | later
      · have := appendedWords_pos item item.type supported.1.2 returned.1 first
        omega
      · have := staticElementsWords_pos rest count supported.2 returned.2 later
        omega
termination_by structural items

end

/-! ## The numbers that come back -/

theorem not_mayReturn_both {param : ParameterValue} {type : EthereumTypeName} {data after : Cells}
    (reports : ∀ number, MayReturn none number → Reports param type data after number) : False := by
  obtain ⟨none_added, same, length⟩ := (reports 0 (by simp [MayReturn])).appended (le_refl 0)
  obtain ⟨one_added, other, length'⟩ := (reports 1 (by simp [MayReturn])).appended (by norm_num)
  obtain rfl := List.append_cancel_left (same.symm.trans other)
  omega

/-- A run returns the number of the bytes it appended exactly when its count is foretold to agree; a run that
appends nothing may also return a negative number. -/
theorem generateBytesForParameter_reports_iff (param : ParameterValue) (type : EthereumTypeName) (data : Cells)
    {count : Count} {after : Cells} (short : shortData param type = true)
    (ran : insertedInto data (generateBytesForParameter param type) = .ok (count, after)) :
    (∀ number, MayReturn count number → Reports param type data after number) ↔
      countAgrees param type = true ∨ countReturned param type = true ∧ appendedWords param type = 0 := by
  obtain ⟨⟨returned, added⟩, encoded, same⟩ := map_eq_ok.mp ran
  obtain ⟨rfl, rfl⟩ := Prod.mk.inj same
  obtain ⟨length, known⟩ := generateBytesForParameter_foretold param type short encoded
  rw [← known.agrees, ← known.returned]
  constructor
  · intro reports
    cases returned with
    | none => exact (not_mayReturn_both reports).elim
    | some number =>
      have report := reports number (by simp [MayReturn])
      rcases lt_or_ge number 0 with negative | nonneg
      · have nothing : added = [] := List.append_right_eq_self.mp (report.unchanged negative)
        rw [nothing, List.length_nil] at length
        exact .inr ⟨rfl, by omega⟩
      · obtain ⟨other, joined, size⟩ := report.appended nonneg
        obtain rfl := List.append_cancel_left joined
        left
        rw [← size, length]
        push_cast
        rfl
  · intro right number may
    have positive (supported : unencodable param type = false) (holds : holdsSomething param type = true)
        (set : returned.isSome = true) : 0 < appendedWords param type :=
      appendedWords_pos param type supported (known.returned.symm.trans set) holds
    rcases right with agrees | ⟨set, nothing⟩
    · have number_eq : 32 * (appendedWords param type : ℤ) = number := may _ agrees
      refine ⟨fun _ => ⟨added, rfl, by rw [length, ← number_eq]; push_cast; rfl⟩, ?_, ?_⟩
      · intro _ supported holds
        have := positive supported holds (by rw [agrees]; rfl)
        exact ⟨by omega, ⟨_, number_eq.symm⟩⟩
      · intro negative
        omega
    · obtain ⟨value, rfl⟩ := Option.isSome_iff_exists.mp set
      obtain rfl := may value rfl
      have most := known.most value rfl
      rw [nothing] at most length
      obtain rfl := List.length_eq_zero_iff.mp length
      refine ⟨fun nonneg => ⟨[], rfl, ?_⟩, ?_, fun _ => List.append_nil data⟩
      · rw [List.length_nil]
        omega
      · intro _ supported holds
        have := positive supported holds rfl
        omega

namespace MixedElements

/-- An integer, a fixed array of a boolean and an address, and static bytes of more than a word. -/
def param : ParameterValue where
  value := .elements 0x1000
    [makeParamUint 7,
      { value := .elements 0x2000 [{ value := .boolean true, type := .bool },
          makeParamAddress 0x3000 (Vector.replicate 20 0xab)], size := 2, type := .arrayStatic },
      makeParamBytes 0x4000 (cells (List.replicate 40 1)) 33 false]
  size := 3
  type := .arrayDynamic

def block : Bytes :=
  beBytes 32 3 ++ beBytes 32 7 ++ beBytes 32 1 ++ (List.replicate 12 0 ++ List.replicate 20 0xab) ++
    (List.replicate 33 1 ++ List.replicate 31 0)

end MixedElements

theorem mixedElements_reports :
    insertedInto [some 1] (generateBytesForParameter MixedElements.param .arrayDynamic) =
        .ok (some 192, some 1 :: cells MixedElements.block) ∧
      ∀ number, MayReturn (some 192) number → Reports MixedElements.param .arrayDynamic [some 1]
        (some 1 :: cells MixedElements.block) number := by
  have ran : insertedInto [some 1] (generateBytesForParameter MixedElements.param .arrayDynamic) =
      .ok (some 192, some 1 :: cells MixedElements.block) := by decide +kernel
  exact ⟨ran, (generateBytesForParameter_reports_iff MixedElements.param .arrayDynamic [some 1] (by decide) ran).mpr
    (.inl (by decide))⟩

/-- An integer whose size was left at its default is refused, but a word that was never written is appended. -/
theorem defaultSize_appends :
    insertedInto [] (generateBytesForParameter { value := .integer 8 5, type := .uint } .uint) =
        .ok (some (-1), uninitialized 32) ∧
      ¬Reports { value := .integer 8 5, type := .uint } .uint [] (uninitialized 32) (-1) := by
  refine ⟨by decide, ?_⟩
  intro reports
  exact absurd (reports.unchanged (by norm_num)) (by decide)

end Iotex
