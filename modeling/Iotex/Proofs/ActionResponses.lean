import Iotex.Proofs.Extractions
import Iotex.Spec.ActionResponses

/-! # Extractions from the response about an action

The extractions that a look-up adds: the version as a number, the nonce and the gas limit as text,
and the members behind them in one run.
-/

namespace Iotex

open Spec Response

/-! ## Numbers -/

/-- A natural number keeps its value below the largest `int`. -/
theorem valueint_of_natural {mantissa exponent : ℤ} {value : ℕ}
    (same : mantissa * 10 ^ exponent.toNat = value * 10 ^ (-exponent).toNat) :
    valueint mantissa exponent = min (value : ℤ) (2 ^ 31 - 1) := by
  have truncated : (if 0 ≤ exponent then mantissa * 10 ^ exponent.toNat
      else mantissa.tdiv (10 ^ (-exponent).toNat)) = value := by
    split_ifs with whole
    · have none : (-exponent).toNat = 0 := by omega
      rwa [none, pow_zero, mul_one] at same
    · have none : exponent.toNat = 0 := by omega
      rw [none, pow_zero, mul_one] at same
      rw [same]
      exact Int.mul_tdiv_cancel _ (by positivity)
  rw [valueint, truncated]
  omega

/-- The stored version equals the number exactly for the naturals in the range of `int`. -/
theorem version_exact_iff (mantissa exponent : ℤ) :
    NumberIs (some (.num mantissa exponent)) (UInt32.ofNat (valueint mantissa exponent % 2 ^ 32).toNat).toNat ↔
      ∃ version < 2 ^ 31, NumberIs (some (.num mantissa exponent)) version := by
  have stored {value : ℕ} (same : mantissa * 10 ^ exponent.toNat = value * 10 ^ (-exponent).toNat) :
      (UInt32.ofNat (valueint mantissa exponent % 2 ^ 32).toNat).toNat = min value (2 ^ 31 - 1) := by
    rw [valueint_of_natural same, UInt32.toNat_ofNat']
    omega
  constructor
  · intro exact
    obtain ⟨m, e, given, same⟩ := exact
    obtain ⟨rfl, rfl⟩ := Json.num.inj (Option.some.inj given)
    have value := stored same
    refine ⟨_, ?_, _, _, rfl, same⟩
    omega
  · rintro ⟨version, bound, m, e, given, same⟩
    obtain ⟨rfl, rfl⟩ := Json.num.inj (Option.some.inj given)
    have value := stored same
    rw [Nat.min_eq_left (by omega)] at value
    rw [value]
    exact ⟨_, _, rfl, same⟩

theorem extractUint32_reads {json : Option Json} {target : UInt32} :
    (extractUint32 json).Reads .success target
      (match json with
        | some (.num mantissa exponent) => some (valueint mantissa exponent)
        | _ => none)
      fun number => UInt32.ofNat (number % 2 ^ 32).toNat := by
  cases json with
  | none => exact ⟨.errorJsonParse, target, by decide, rfl⟩
  | some value =>
    cases value with
    | num mantissa exponent => rfl
    | _ => exact ⟨.errorJsonParse, target, by decide, rfl⟩

/-! ## Decimal text -/

/-- `atol` on digits only. -/
theorem atol_digits {text : Bytes} (noNul : (0 : UInt8) ∉ text) (digits : text.all isDigit = true) :
    atol text = if decimalValue text < 2 ^ 63 then .ok (decimalValue text : ℤ) else .error .intOverflow := by
  have whole : text.takeWhile isDigit = text := by
    rw [List.takeWhile_eq_self_iff]
    exact List.all_eq_true.mp digits
  have start : ∀ char, text.head? = some char → isDigit char = true := by
    intro char first
    exact List.all_eq_true.mp digits char (List.mem_of_mem_head? first)
  have noSpace : text.dropWhile isSpaceChar = text := by
    cases text with
    | nil => rfl
    | cons char rest =>
      have digit := start char rfl
      simp only [isDigit, Bool.and_eq_true, decide_eq_true_eq] at digit
      apply List.dropWhile_cons_of_neg
      have other : char ≠ 32 := by
        rintro rfl
        simp at digit
      simp only [isSpaceChar, Bool.or_eq_true, beq_iff_eq, other, Bool.and_eq_true, decide_eq_true_eq, false_or]
      omega
  have minus : text.head? ≠ some 45 := fun first => by simpa [isDigit] using start 45 first
  have plus : text.head? ≠ some 43 := fun first => by simpa [isDigit] using start 43 first
  rw [atol, cString_of_noNul noNul, noSpace]
  simp only [minus, plus, or_self, ↓reduceIte, whole]
  split_ifs <;> first | rfl | omega

/-- The conversion of a number in the range of `long` to `uint64_t`. -/
theorem toUint64_of_lt {value : ℕ} (bound : value < 2 ^ 63) : (toUint64 value).toNat = value := by
  rw [toUint64, UInt64.toNat_ofNat']
  omega

variable {json : Option Json} {target : UInt64} {text : Bytes}

/-- Whatever is not a string ends the extraction of the nonce and of the gas limit with an error. -/
theorem extractIntegers_missing (missing : charsOf? json = none) :
    extractNonce json target = .ok (some .errorJsonParse, target) ∧
      extractGasLimit json target = .ok (some .errorJsonParse, target) := by
  have read := setStringFromJsonObject_eq json []
  rw [missing] at read
  constructor
  · rw [extractNonce, read]
    rfl
  · rw [extractGasLimit, read]
    rfl

/-- A nonce with another character than digits ends the extraction with a success. -/
theorem extractNonce_other (given : charsOf? json = some text) (other : ¬text.all isDigit = true) :
    extractNonce json target = .ok (some .success, target) := by
  have read := setStringFromJsonObject_eq json []
  rw [given] at read
  rw [extractNonce, read]
  simp [isNumeric, other]

theorem extractNonce_digits (given : charsOf? json = some text) (digits : text.all isDigit = true) :
    extractNonce json target =
      if decimalValue text < 2 ^ 63 then .ok (none, toUint64 (decimalValue text)) else .error .intOverflow := by
  have read := setStringFromJsonObject_eq json []
  rw [given] at read
  rw [extractNonce, read]
  simp only [ne_eq, not_true_eq_false, isNumeric, digits, reduceCtorEq, or_self, ↓reduceIte,
    atol_digits (charsOf?_noNul given) digits]
  split_ifs <;> rfl

theorem extractGasLimit_given (given : charsOf? json = some text) :
    extractGasLimit json target = (do
      let gasLimit ← atol text
      return (none, toUint64 gasLimit)) := by
  have read := setStringFromJsonObject_eq json []
  rw [given] at read
  rw [extractGasLimit, read]
  rfl

/-! ## The members behind the gas limit -/

variable {Chain Part Value : Type}

/-- The extractions of a core's member store what the description says, in front of any others. -/
structure ParserReads (parser : ActionParser Part) (partOf? : Json → Option Part) : Prop where
  delivers : ∀ {Chain Value : Type} {json : Json} {info : ActionInfo Chain Part} {memory : Part}
    {rest : List (Step Fault ResultCode (ActionInfo Chain Part))} {others : Part → Option Value}
    {build : Value → ActionInfo Chain Part}, info.action.core.part = parser.clear memory →
    (∀ part, Step.Delivers .success (Step.run .success rest { info with action.core.part := part })
      (Option.map build (others part))) →
    Step.Delivers .success (Step.run .success ((parser.steps json).map (Step.on (fun info => info.action.core.part)
        fun info value => { info with action.core.part := value }) ++ rest) info)
      (Option.map build ((partOf? json).bind others))

theorem transferParser_reads : ParserReads transferParser transferDescription.partOf? where
  delivers := by
    intro Chain Value json info memory rest others build clear goes
    obtain ⟨⟨⟨version, nonce, gasLimit, gasPrice, chainId, part⟩, senderPublicKey, signature⟩, actHash, blkHash,
      timestamp, blkHeight, sender, gasFee⟩ := info
    obtain rfl : part = _ := clear
    simp only [transferDescription, Option.bind_eq_bind, Option.bind_assoc, Option.bind_some]
    refine Step.delivers_cons (Step.Reads.on _ (Step.Reads.on _ (extractCString_reads 30 (by omega) rfl))) ?_
    intro amount
    refine Step.delivers_cons (Step.Reads.on _ (Step.Reads.on _ (extractCString_reads 41 (by omega) rfl))) ?_
    intro recipient
    refine Step.delivers_cons (Step.Reads.on _ (Step.Reads.on _ extractString_reads)) ?_
    intro payload
    exact goes ⟨memoryOf amount, memoryOf recipient, payload⟩

theorem executionParser_reads : ParserReads executionParser executionDescription.partOf? where
  delivers := by
    intro Chain Value json info memory rest others build clear goes
    obtain ⟨⟨⟨version, nonce, gasLimit, gasPrice, chainId, part⟩, senderPublicKey, signature⟩, actHash, blkHash,
      timestamp, blkHeight, sender, gasFee⟩ := info
    obtain rfl : part = _ := clear
    simp only [executionDescription, Option.bind_eq_bind, Option.bind_assoc, Option.bind_some]
    refine Step.delivers_cons (Step.Reads.on _ (Step.Reads.on _ (extractCString_reads 30 (by omega) rfl))) ?_
    intro amount
    refine Step.delivers_cons (Step.Reads.on _ (Step.Reads.on _ (extractCString_reads 41 (by omega) rfl))) ?_
    intro contract
    refine Step.delivers_cons (Step.Reads.on _ (Step.Reads.on _ extractString_reads)) ?_
    intro data
    exact goes ⟨memoryOf amount, memoryOf contract, data⟩

/-- The cleared object with the members up to the gas limit. -/
def openedActionInfo (parser : ActionParser Part) (info : ActionInfo Chain Part) (senderPublicKey signature : Cells)
    (version : UInt32) (nonce gasLimit : UInt64) : ActionInfo Chain Part :=
  { clearActionInfo parser info with
    action.senderPublicKey := senderPublicKey
    action.signature := signature
    action.core.version := version
    action.core.nonce := nonce
    action.core.gasLimit := gasLimit }

/-- The extractions behind the gas limit on cleared arrays. -/
theorem closingSteps_deliver {parser : ActionParser Part} {partOf? : Json → Option Part}
    (reads : ParserReads parser partOf?) (json : ActionJson) (info : ActionInfo Chain Part)
    (senderPublicKey signature : Cells) (version : UInt32) (nonce gasLimit : UInt64) :
    Step.Delivers .success (Step.run .success (closingSteps parser json)
        (openedActionInfo parser info senderPublicKey signature version nonce gasLimit))
      ((closingOf? partOf? json).map fun values =>
        values.store (openedActionInfo parser info senderPublicKey signature version nonce gasLimit)) := by
  rw [closingOf?]
  refine Step.delivers_cons (Step.Reads.on _ (extractCString_reads 30 (by omega) rfl)) ?_
  intro gasPrice
  refine @ParserReads.delivers _ _ _ reads _ _ _ _ info.action.core.part _ _ _ rfl ?_
  intro part
  refine Step.delivers_cons (Step.Reads.on _ (extractCString_reads 64 (by omega) rfl)) ?_
  intro actHash
  refine Step.delivers_cons (Step.Reads.on _ (extractCString_reads 64 (by omega) rfl)) ?_
  intro blkHash
  refine Step.delivers_cons (Step.Reads.on _ (extractCString_reads 21 (by omega) rfl)) ?_
  intro timestamp
  refine Step.delivers_cons (Step.Reads.on _ extractString_reads) ?_
  intro blkHeight
  refine Step.delivers_cons (Step.Reads.on _ (extractCString_reads 41 (by omega) rfl)) ?_
  intro sender
  refine Step.delivers_cons (Step.Reads.on _ (extractCString_reads 30 (by omega) rfl)) ?_
  intro gasFee
  exact Step.delivers_nil rfl

end Iotex
