import Iotex.Model.Signer

/-! # Signed messages

What the hash of a message is computed from. The digits of the length come from one division for each
decimal place, which is made only if the length reaches the place; together they are the decimal text
of the length, so that the hashed bytes determine the message.
-/

namespace Iotex

open Signer

/-- The bytes that stand for a message: a marker, a title, the length of the message and the message. -/
def ethereumMessage (message : Bytes) : Bytes :=
  0x19 :: (ascii "Ethereum Signed Message:\n" ++ (decimal message.length ++ message))

/-! ## The digits of the length -/

/-- A digit of a number is the digit one place lower of its tenth. -/
theorem absorbDigit_tenfold (length : ℕ) (ctx : Bytes) (place : ℕ) :
    absorbDigit length ctx (10 * place) = absorbDigit (length / 10) ctx place := by
  have reaches : 10 * place ≤ length ↔ place ≤ length / 10 := by omega
  rw [absorbDigit, absorbDigit, ← Nat.div_div_eq_div_mul]
  simp only [reaches]

/-- The decimal text of a number, and nothing for zero. -/
private def digitsOf (value : ℕ) : Bytes := if value = 0 then [] else decimal value

/-- The last digit stands behind the digits of the tenth. -/
private theorem decimal_digitsOf (value : ℕ) : decimal value = digitsOf (value / 10) ++ [digitChar (value % 10)] := by
  rw [digitsOf]
  split_ifs with short
  · rw [decimal_of_lt (by omega), Nat.mod_eq_of_lt (by omega), List.nil_append]
  · exact decimal_append (by omega)

private theorem absorbDigit_one (length : ℕ) (ctx : Bytes) :
    absorbDigit length ctx 1 = if length = 0 then ctx else ctx ++ [digitChar (length % 10)] := by
  rw [absorbDigit, Nat.div_one]
  split_ifs with reaches zero zero
  · omega
  · rfl
  · rfl
  · omega

/-- The decimal places up to the given one, the highest first. -/
private def places : ℕ → List ℕ
  | 0 => [1]
  | highest + 1 => (places highest).map (10 * ·) ++ [1]

/-- The places above the last absorb the digits of the tenth. -/
private theorem foldl_tenfold (highest length : ℕ) (ctx : Bytes) :
    ((places highest).map (10 * ·)).foldl (absorbDigit length) ctx =
      (places highest).foldl (absorbDigit (length / 10)) ctx := by
  simp only [List.foldl_map, absorbDigit_tenfold]

/-- All places together absorb the digits of a number. -/
private theorem absorb_places {highest length : ℕ} (bound : length < 10 ^ (highest + 1)) (ctx : Bytes) :
    (places highest).foldl (absorbDigit length) ctx = ctx ++ digitsOf length := by
  induction highest generalizing length with
  | zero =>
    rw [places, List.foldl_cons, List.foldl_nil, absorbDigit_one, digitsOf]
    split_ifs with zero
    · rw [List.append_nil]
    · rw [decimal_of_lt (by omega), Nat.mod_eq_of_lt (by omega)]
  | succ highest ih =>
    rw [pow_succ] at bound
    rw [places, List.foldl_append, foldl_tenfold, ih (by omega), List.foldl_cons, List.foldl_nil, absorbDigit_one]
    split_ifs with zero
    · rw [zero]
    · rw [List.append_assoc, ← decimal_digitsOf, digitsOf, if_neg zero]

/-- The guarded digits and the last one are the decimal text of the length. -/
theorem absorb_length {length : ℕ} (bound : length < 10 ^ 10) (ctx : Bytes) :
    sha3Update ([1000000000, 100000000, 10000000, 1000000, 100000, 10000, 1000, 100, 10].foldl (absorbDigit length) ctx)
      [UInt8.ofNat (48 + length % 10)] 1 = ctx ++ decimal length := by
  have tenfold : [1000000000, 100000000, 10000000, 1000000, 100000, 10000, 1000, 100, 10] =
      (places 8).map (10 * ·) := by decide
  rw [tenfold, foldl_tenfold, absorb_places (by omega), decimal_digitsOf length, ← List.append_assoc]
  rfl

/-! ## Messages -/

/-- The length of the hashed bytes grows with the length of the message. -/
theorem ethereumMessage_inj {a b : Bytes} (same : ethereumMessage a = ethereumMessage b) : a = b := by
  have behind : decimal a.length ++ a = decimal b.length ++ b :=
    List.append_cancel_left (List.cons.inj same).2
  have lengths := congrArg List.length behind
  rw [List.length_append, List.length_append] at lengths
  have equal : a.length = b.length := by
    rcases Nat.lt_trichotomy a.length b.length with less | equal | more
    · have digits := decimal_length_mono less.le
      omega
    · exact equal
    · have digits := decimal_length_mono more.le
      omega
  rw [equal] at behind
  exact List.append_cancel_left behind

/-- A message is hashed behind its title and its length in decimal, and no other message as the same bytes. -/
theorem absorbedMessage_exact (message : Bytes) (bound : message.length < 10 ^ 10) :
    absorbedMessage message = ethereumMessage message ∧
      ∀ other : Bytes, other.length < 10 ^ 10 → absorbedMessage other = absorbedMessage message → other = message := by
  have exact (pMsg : Bytes) (small : pMsg.length < 10 ^ 10) : absorbedMessage pMsg = ethereumMessage pMsg := by
    rw [absorbedMessage, absorb_length small, sha3Update, List.take_length, List.append_assoc]
    rfl
  refine ⟨exact message bound, ?_⟩
  intro other small same
  rw [exact other small, exact message bound] at same
  exact ethereumMessage_inj same

/-- A message of twelve characters. -/
theorem hello_absorbed :
    absorbedMessage (ascii "Hello, IoTeX") = ethereumMessage (ascii "Hello, IoTeX") ∧
      ∀ other : Bytes, other.length < 10 ^ 10 →
        absorbedMessage other = absorbedMessage (ascii "Hello, IoTeX") → other = ascii "Hello, IoTeX" :=
  absorbedMessage_exact (ascii "Hello, IoTeX") (by decide)

end Iotex
