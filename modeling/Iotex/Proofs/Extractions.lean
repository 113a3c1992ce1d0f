import Iotex.Spec.Responses

/-! # Extractions read what the response says

Each kind of extraction stores the value that its member denotes, or returns an error without one.
-/

namespace Iotex

open Spec

variable {json : Option Json}

theorem continueOn_success : continueOn .success = none := rfl

/-- Text into a cleared array that has room for the longest text allowed and a NUL. -/
theorem extractCString_reads (maxSize : ℕ) (positive : 0 < maxSize) {target : Cells}
    (clear : target = cleared (maxSize + 1)) :
    (extractCString json maxSize).Reads .success target (charArrayOf? (maxSize + 1) json) memoryOf := by
  subst clear
  rw [charArrayOf?.eq_def]
  split
  · rename_i text
    split_ifs with fits
    · change extractCString _ _ _ = _
      have room : (cleared (maxSize + 1)).length = maxSize + 1 := by simp [cleared]
      have kept : ¬(0 < maxSize ∧ maxSize < (cString text).length) := by omega
      have inside : ¬(cleared (maxSize + 1)).length < (cString text).length := by omega
      have rest : (cleared (maxSize + 1)).drop (cString text).length =
          cells (List.replicate (maxSize + 1 - (cString text).length) 0) := by
        rw [cleared, cells, cells, ← List.map_drop, List.drop_replicate]
      rw [extractCString]
      simp only [setCStringFromJsonObject, kept, inside, ↓reduceIte, ok_bind, rest, continueOn_success, pure_eq_ok,
        memoryOf, cells_append]
    · refine ⟨.errorJsonParse, cleared (maxSize + 1), by decide, ?_⟩
      have long : 0 < maxSize ∧ maxSize < (cString text).length := by omega
      rw [extractCString]
      simp only [setCStringFromJsonObject, long, and_self, ↓reduceIte, ok_bind]
      rfl
  · rename_i other
    refine ⟨.errorJsonParse, cleared (maxSize + 1), by decide, ?_⟩
    have refused : setCStringFromJsonObject json (cleared (maxSize + 1)) maxSize =
        .ok (.errorJsonParse, cleared (maxSize + 1)) := by
      rw [setCStringFromJsonObject.eq_def]
      split
      · exact absurd rfl (other _)
      · rfl
    rw [extractCString, refused]
    rfl

/-- A string of any length. -/
theorem setStringFromJsonObject_eq (json : Option Json) (target : Bytes) :
    setStringFromJsonObject json target 0 =
      match charsOf? json with
      | some text => (.success, text)
      | none => (.errorJsonParse, target) := by
  cases json with
  | none => rfl
  | some value => cases value <;> rfl

theorem charsOf?_noNul {text : Bytes} (given : charsOf? json = some text) : (0 : UInt8) ∉ text := by
  rw [charsOf?.eq_def] at given
  split at given
  · rw [← Option.some.inj given]
    exact cString_noNul _
  · simp at given

theorem extractString_reads {target : Bytes} : (extractString json).Reads .success target (charsOf? json) id := by
  have read := setStringFromJsonObject_eq json target
  cases given : charsOf? json with
  | some text =>
    rw [given] at read
    change extractString json target = _
    rw [extractString, read]
    rfl
  | none =>
    rw [given] at read
    refine ⟨.errorJsonParse, target, by decide, ?_⟩
    rw [extractString, read]
    rfl

theorem extractBool_reads {target : Bool} : (extractBool json).Reads .success target (boolOf? json) id := by
  rw [boolOf?.eq_def]
  split
  · rfl
  · rename_i other
    refine ⟨.errorJsonParse, target, by decide, ?_⟩
    have refused : setBoolFromJsonObject json target = (.errorJsonParse, target) := by
      rw [setBoolFromJsonObject.eq_def]
      split
      · exact absurd rfl (other _)
      · rfl
    rw [extractBool, refused]
    rfl

/-- A string that fits an array is text. -/
theorem charsOf?_of_charArrayOf? {size : ℕ} {array : CharArray size} (given : charArrayOf? size json = some array) :
    charsOf? json = some array.text := by
  rw [charArrayOf?.eq_def] at given
  split at given
  · split_ifs at given
    rw [← Option.some.inj given]
    rfl
  · simp at given

theorem getObject_eq : getObject = objectOf? := rfl

/-- The extractions from the account's member on cleared arrays. -/
theorem accountSteps_deliver {body accountMeta : Json} (found : objectOf? body (ascii "accountMeta") = some accountMeta)
    (object : AccountMeta) :
    Step.Delivers .success (Step.run .success (accountSteps accountMeta)
        { object with address := cleared 42, balance := cleared 31 })
      ((accountOf? body).map AccountValues.stored) := by
  rw [accountOf?, found, Option.bind_eq_bind, Option.bind_some]
  refine Step.delivers_cons (Step.Reads.on _ (extractCString_reads 41 (by omega) rfl)) ?_
  intro address
  refine Step.delivers_cons (Step.Reads.on _ (extractCString_reads 30 (by omega) rfl)) ?_
  intro balance
  refine Step.delivers_cons (Step.Reads.on _ extractString_reads) ?_
  intro nonce
  refine Step.delivers_cons (Step.Reads.on _ extractString_reads) ?_
  intro pendingNonce
  refine Step.delivers_cons (Step.Reads.on _ extractString_reads) ?_
  intro numActions
  refine Step.delivers_cons (Step.Reads.on _ extractBool_reads) ?_
  intro isContract
  exact Step.delivers_nil rfl

end Iotex
