import Iotex.Proofs.EncoderRuns

/-! # Widths of encoded parameters

How many bytes the encoder appends for a parameter of any size and with any element types. The
widths follow the sizes and the types that the parameter itself carries: an elementary type has one
word, static bytes have whole words, and the elements of an array stand one behind the other.
-/

namespace Iotex

open Spec Contract

/-- What is appended for an element, whose type is its own. -/
def EncodedElement (item : ParameterValue) (piece : Cells) : Prop :=
  ∃ bytes, generateBytesForParameter item item.type = .ok (bytes, piece)

/-- The loop over elements of known types appends what each of them is encoded as. -/
theorem generateBytesForStaticElements_pieces {items : List ParameterValue} {left : ℕ} {start bytes : Count}
    {data : Cells} (known : ∀ item ∈ items.take left, item.type ≠ .unknown)
    (ran : generateBytesForStaticElements items left start = .ok (bytes, data)) :
    left ≤ items.length ∧ ∃ pieces, List.Forall₂ EncodedElement (items.take left) pieces ∧ data = pieces.flatten := by
  induction left generalizing items start bytes data with
  | zero =>
    rw [generateBytesForStaticElements] at ran
    obtain ⟨-, rfl⟩ := Prod.mk.inj (Except.ok.inj ran)
    exact ⟨Nat.zero_le _, [], .nil, rfl⟩
  | succ left ih =>
    cases items with
    | nil => simp [generateBytesForStaticElements] at ran
    | cons item rest =>
      rw [List.take_succ_cons] at known ⊢
      rw [generateBytesForStaticElements, if_neg (known item List.mem_cons_self)] at ran
      obtain ⟨⟨added, piece⟩, encoded, ran⟩ := bind_eq_ok.mp ran
      obtain ⟨next, -, ran⟩ := bind_eq_ok.mp ran
      obtain ⟨⟨total, more⟩, loop, ran⟩ := bind_eq_ok.mp ran
      obtain ⟨-, rfl⟩ := Prod.mk.inj (Except.ok.inj ran)
      obtain ⟨enough, pieces, each, rfl⟩ := ih (fun other member => known other (List.mem_cons_of_mem _ member)) loop
      refine ⟨by simpa using enough, piece :: pieces, .cons ⟨added, encoded⟩ each, rfl⟩

variable {param : ParameterValue} {bytes : Count} {head : Cells}

private theorem length_of_encoded {type : EthereumTypeName}
    (ran : generateBytesForParameter param type = .ok (bytes, head)) :
    readable param type = true ∧ head.length = encodedLength param type := by
  have runs := generateBytesForParameter_runs param type
  rw [ran] at runs
  obtain ⟨known, -, length, -⟩ := runsAs_of_ok runs
  exact ⟨known, length⟩

/-- An elementary input has one word whatever is supplied. -/
theorem generateBytesForParameter_word {type : EthereumTypeName} (elementary : type ∈ [.uint, .int, .bool, .address])
    (ran : generateBytesForParameter param type = .ok (bytes, head)) : head.length = 32 := by
  obtain ⟨-, length⟩ := length_of_encoded ran
  obtain ⟨value, size, isBigInt, tag⟩ := param
  simp only [List.mem_cons, List.not_mem_nil, or_false] at elementary
  rcases elementary with rfl | rfl | rfl | rfl <;> exact length

/-- Static bytes have one word exactly for the sizes that do. -/
theorem generateBytesForParameter_bytesStatic (ran : generateBytesForParameter param .bytesStatic = .ok (bytes, head)) :
    head.length = 32 ↔ 1 ≤ param.size.toInt ∧ param.size.toInt ≤ 32 := by
  obtain ⟨known, length⟩ := length_of_encoded ran
  obtain ⟨value, size, isBigInt, tag⟩ := param
  rw [encodedLength] at length
  cases value with
  | bytes pointer data =>
    simp only [readable, bytesReadable, dataReadable, Bool.and_eq_true, decide_eq_true_eq] at known
    obtain ⟨⟨⟨addressable, -⟩, room⟩, -⟩ := known
    have nonneg : 0 ≤ size.toInt := by
      have least := size.le_toInt
      by_contra negative
      rw [toSizeT] at addressable
      omega
    have most := size.toInt_lt
    have same : (toSizeT size.toInt : ℤ) = size.toInt := by
      rw [toSizeT]
      omega
    dsimp only
    rw [← same]
    generalize toSizeT size.toInt = count at length room same
    have short : count < 2 ^ 24 → n32ByteGroups count = blocks 32 count := n32ByteGroups_of_lt
    rw [length, wordsLength_of_small (show count < 2 ^ 31 by omega) (Nat.le_succ _)]
    constructor
    · intro one
      have nonzero : count ≠ 0 := by
        rintro rfl
        rw [short (by norm_num), blocks] at one
        omega
      omega
    · intro inside
      rw [short (by omega), blocks]
      omega
  | _ => cases known

/-- The elements of a fixed array stand one behind the other, each as its own type says. -/
theorem generateBytesForParameter_elements {pointer : UInt64} {items : List ParameterValue}
    (holds : param.value = .elements pointer items)
    (known : ∀ item ∈ items.take param.size.toNatClampNeg, item.type ≠ .unknown ∧ item.isDynamic = false)
    (ran : generateBytesForParameter param .arrayStatic = .ok (bytes, head)) :
    param.size.toNatClampNeg ≤ items.length ∧
      ∃ pieces, List.Forall₂ EncodedElement (items.take param.size.toNatClampNeg) pieces ∧ head = pieces.flatten := by
  obtain ⟨value, size, isBigInt, tag⟩ := param
  simp only at holds known ⊢
  subst holds
  rw [generateBytesForParameter] at ran
  split_ifs at ran with empty
  · obtain ⟨-, rfl⟩ := Prod.mk.inj (Except.ok.inj ran)
    rw [toNatClampNeg_of_not_pos empty]
    exact ⟨Nat.zero_le _, [], .nil, rfl⟩
  · cases items with
    | nil => simp [generateBytesForStaticArray] at ran
    | cons first rest =>
      have some : 0 < size.toNatClampNeg := toNatClampNeg_pos (not_le.mp empty)
      have member : first ∈ (first :: rest).take size.toNatClampNeg := by
        obtain ⟨left, same⟩ := Nat.exists_eq_succ_of_ne_zero some.ne'
        rw [same, List.take_succ_cons]
        exact List.mem_cons_self
      rw [generateBytesForStaticArray, if_neg (by simp [(known first member).2])] at ran
      exact generateBytesForStaticElements_pieces (fun item member => (known item member).1) ran

end Iotex
