import Iotex.Lib.Bytes

/-! # Standard base64

The encoding with padding of RFC 4648, its decoder, and the fact that the decoder inverts the
encoding. Groups are taken apart by division, without shifts.
-/

namespace Iotex.Base64

/-- The character of a six-bit value. -/
def sextetChar (value : ℕ) : UInt8 :=
  UInt8.ofNat
    (if value < 26 then 65 + value
    else if value < 52 then 71 + value
    else if value < 62 then value - 4
    else if value = 62 then 43
    else 47)

/-- The six-bit value of a character; the padding character has none. -/
def sextet? (char : UInt8) : Option ℕ :=
  if 65 ≤ char.toNat ∧ char.toNat ≤ 90 then some (char.toNat - 65)
  else if 97 ≤ char.toNat ∧ char.toNat ≤ 122 then some (char.toNat - 71)
  else if 48 ≤ char.toNat ∧ char.toNat ≤ 57 then some (char.toNat + 4)
  else if char.toNat = 43 then some 62
  else if char.toNat = 47 then some 63
  else none

def encode : Bytes → Bytes
  | [] => []
  | [a] => [sextetChar (a.toNat / 4), sextetChar (a.toNat % 4 * 16), 61, 61]
  | [a, b] =>
    [sextetChar (a.toNat / 4), sextetChar (a.toNat % 4 * 16 + b.toNat / 16),
      sextetChar (b.toNat % 16 * 4), 61]
  | a :: b :: c :: rest =>
    sextetChar (a.toNat / 4) :: sextetChar (a.toNat % 4 * 16 + b.toNat / 16) ::
      sextetChar (b.toNat % 16 * 4 + c.toNat / 64) :: sextetChar (c.toNat % 64) :: encode rest

def decode? : Bytes → Option Bytes
  | [] => some []
  | p :: q :: r :: s :: rest => do
    let p ← sextet? p
    let q ← sextet? q
    if r = 61 then
      if s = 61 ∧ rest = [] then some [UInt8.ofNat (p * 4 + q / 16)] else none
    else
      let r ← sextet? r
      if s = 61 then
        if rest = [] then some [UInt8.ofNat (p * 4 + q / 16), UInt8.ofNat (q % 16 * 16 + r / 4)] else none
      else
        let s ← sextet? s
        let tail ← decode? rest
        some (UInt8.ofNat (p * 4 + q / 16) :: UInt8.ofNat (q % 16 * 16 + r / 4) ::
          UInt8.ofNat (r % 4 * 64 + s) :: tail)
  | _ => none

theorem sextet?_sextetChar {value : ℕ} (bound : value < 64) : sextet? (sextetChar value) = some value := by
  have all : ∀ n : Fin 64, sextet? (sextetChar n.val) = some n.val := by decide
  exact all ⟨value, bound⟩

/-- No sextet is written as the padding character. -/
theorem sextetChar_ne_pad {value : ℕ} (bound : value < 64) : sextetChar value ≠ 61 := by
  intro pad
  have read := sextet?_sextetChar bound
  rw [pad] at read
  contradiction

private theorem ofNat_eq {value : ℕ} (byte : UInt8) (same : value = byte.toNat) : UInt8.ofNat value = byte := by
  rw [same, UInt8.ofNat_toNat]

theorem decode?_encode (bytes : Bytes) : decode? (encode bytes) = some bytes := by
  induction bytes using encode.induct with
  | case1 => rfl
  | case2 a =>
    have := a.toNat_lt
    simp only [encode, decode?, sextet?_sextetChar (show a.toNat / 4 < 64 by omega),
      sextet?_sextetChar (show a.toNat % 4 * 16 < 64 by omega), bind, Option.bind_some, and_self,
      ↓reduceIte]
    rw [ofNat_eq a (by omega)]
  | case3 a b =>
    have := a.toNat_lt
    have := b.toNat_lt
    simp only [encode, decode?, sextet?_sextetChar (show a.toNat / 4 < 64 by omega),
      sextet?_sextetChar (show a.toNat % 4 * 16 + b.toNat / 16 < 64 by omega),
      sextet?_sextetChar (show b.toNat % 16 * 4 < 64 by omega),
      if_neg (sextetChar_ne_pad (show b.toNat % 16 * 4 < 64 by omega)), bind, Option.bind_some,
      ↓reduceIte]
    rw [ofNat_eq a (by omega), ofNat_eq b (by omega)]
  | case4 a b c rest ih =>
    have := a.toNat_lt
    have := b.toNat_lt
    have := c.toNat_lt
    simp only [encode, decode?, sextet?_sextetChar (show a.toNat / 4 < 64 by omega),
      sextet?_sextetChar (show a.toNat % 4 * 16 + b.toNat / 16 < 64 by omega),
      sextet?_sextetChar (show b.toNat % 16 * 4 + c.toNat / 64 < 64 by omega),
      sextet?_sextetChar (show c.toNat % 64 < 64 by omega),
      if_neg (sextetChar_ne_pad (show b.toNat % 16 * 4 + c.toNat / 64 < 64 by omega)),
      if_neg (sextetChar_ne_pad (show c.toNat % 64 < 64 by omega)), ih, bind, Option.bind_some]
    rw [ofNat_eq a (by omega), ofNat_eq b (by omega), ofNat_eq c (by omega)]

/-- Four characters for each started group of three bytes. -/
theorem encode_length (bytes : Bytes) : (encode bytes).length = 4 * blocks 3 bytes.length := by
  induction bytes using encode.induct with
  | case1 => rfl
  | case2 a => simp only [encode, List.length_cons, List.length_nil, blocks]
  | case3 a b => simp only [encode, List.length_cons, List.length_nil, blocks]
  | case4 a b c rest ih =>
    simp only [encode, List.length_cons, ih, blocks]
    omega

/-- Every character is a letter, a digit, `+`, `/` or the padding. -/
theorem mem_encode {bytes : Bytes} {char : UInt8} (member : char ∈ encode bytes) :
    (∃ value < 64, char = sextetChar value) ∨ char = 61 := by
  induction bytes using encode.induct with
  | case1 => simp [encode] at member
  | case2 a =>
    have := a.toNat_lt
    simp only [encode, List.mem_cons, List.not_mem_nil, or_false] at member
    rcases member with rfl | rfl | rfl | rfl
    · exact .inl ⟨_, by omega, rfl⟩
    · exact .inl ⟨_, by omega, rfl⟩
    · exact .inr rfl
    · exact .inr rfl
  | case3 a b =>
    have := a.toNat_lt
    have := b.toNat_lt
    simp only [encode, List.mem_cons, List.not_mem_nil, or_false] at member
    rcases member with rfl | rfl | rfl | rfl
    · exact .inl ⟨_, by omega, rfl⟩
    · exact .inl ⟨_, by omega, rfl⟩
    · exact .inl ⟨_, by omega, rfl⟩
    · exact .inr rfl
  | case4 a b c rest ih =>
    have := a.toNat_lt
    have := b.toNat_lt
    have := c.toNat_lt
    simp only [encode, List.mem_cons] at member
    rcases member with rfl | rfl | rfl | rfl | member
    · exact .inl ⟨_, by omega, rfl⟩
    · exact .inl ⟨_, by omega, rfl⟩
    · exact .inl ⟨_, by omega, rfl⟩
    · exact .inl ⟨_, by omega, rfl⟩
    · exact ih member

example : encode (ascii "Man is") = ascii "TWFuIGlz" := by decide

end Iotex.Base64
