import Iotex.Lib.Bytes

/-! # Hexadecimal text

Lower-case hexadecimal text of a byte string, and the nibble a hexadecimal character denotes.
-/

namespace Iotex

/-- The lower-case character of a nibble. -/
def hexChar (nibble : ℕ) : UInt8 := UInt8.ofNat (if nibble < 10 then 48 + nibble else 87 + nibble)

/-- The nibble of a hexadecimal character of either case. -/
def hexVal? (char : UInt8) : Option ℕ :=
  if 48 ≤ char.toNat ∧ char.toNat ≤ 57 then some (char.toNat - 48)
  else if 97 ≤ char.toNat ∧ char.toNat ≤ 102 then some (char.toNat - 87)
  else if 65 ≤ char.toNat ∧ char.toNat ≤ 70 then some (char.toNat - 55)
  else none

/-- The bytes of a text of hexadecimal digits of either case, two for each byte. -/
def unhex? : Bytes → Option Bytes
  | [] => some []
  | [_] => none
  | high :: low :: rest => do
    let high ← hexVal? high
    let low ← hexVal? low
    let bytes ← unhex? rest
    some (UInt8.ofNat (16 * high + low) :: bytes)

/-- Two characters for each byte, the high nibble first. -/
def hexByte (byte : UInt8) : Bytes := [hexChar (byte.toNat / 16), hexChar (byte.toNat % 16)]

def hex (bytes : Bytes) : Bytes := bytes.flatMap hexByte

@[simp] theorem hex_nil : hex [] = [] := rfl

theorem hex_cons (byte : UInt8) (rest : Bytes) : hex (byte :: rest) = hexByte byte ++ hex rest := rfl

theorem hexVal?_hexChar {nibble : ℕ} (bound : nibble < 16) : hexVal? (hexChar nibble) = some nibble := by
  have all : ∀ n : Fin 16, hexVal? (hexChar n.val) = some n.val := by decide
  exact all ⟨nibble, bound⟩

private theorem hexChar_inj {a b : ℕ} (boundA : a < 16) (boundB : b < 16)
    (same : hexChar a = hexChar b) : a = b := by
  have values := congrArg hexVal? same
  rwa [hexVal?_hexChar boundA, hexVal?_hexChar boundB, Option.some.injEq] at values

theorem hexByte_inj {a b : UInt8} (same : hexByte a = hexByte b) : a = b := by
  have boundA := a.toNat_lt
  have boundB := b.toNat_lt
  simp only [hexByte, List.cons.injEq, and_true] at same
  have high := hexChar_inj (by omega) (by omega) same.1
  have low := hexChar_inj (by omega) (by omega) same.2
  apply UInt8.toNat_inj.mp
  omega

/-- Different byte strings have different texts. -/
theorem hex_inj {a b : Bytes} (same : hex a = hex b) : a = b := by
  induction a generalizing b with
  | nil =>
    cases b with
    | nil => rfl
    | cons byte rest => simp [hex_cons, hexByte] at same
  | cons byte rest ih =>
    cases b with
    | nil => simp [hex_cons, hexByte] at same
    | cons other others =>
      rw [hex_cons, hex_cons] at same
      obtain ⟨head, tail⟩ := List.append_inj same rfl
      rw [hexByte_inj head, ih tail]

theorem hexVal?_lt {char : UInt8} {nibble : ℕ} (read : hexVal? char = some nibble) : nibble < 16 := by
  simp only [hexVal?] at read
  split_ifs at read <;> · simp only [Option.some.injEq] at read; omega

/-- Two characters in front of a text are the first byte. -/
theorem unhex?_cons {high low : UInt8} {rest bytes : Bytes} (read : unhex? (high :: low :: rest) = some bytes) :
    ∃ a b tail, hexVal? high = some a ∧ hexVal? low = some b ∧ unhex? rest = some tail ∧
      bytes = UInt8.ofNat (16 * a + b) :: tail := by
  simp only [unhex?, Option.bind_eq_bind, Option.bind_eq_some_iff, Option.some.injEq] at read
  obtain ⟨a, first, b, second, tail, others, same⟩ := read
  exact ⟨a, b, tail, first, second, others, same.symm⟩

theorem unhex?_length {text bytes : Bytes} (read : unhex? text = some bytes) : text.length = 2 * bytes.length := by
  induction text using unhex?.induct generalizing bytes with
  | case1 =>
    obtain rfl : bytes = [] := by simpa [unhex?] using read.symm
    rfl
  | case2 => simp [unhex?] at read
  | case3 high low rest ih =>
    obtain ⟨a, b, tail, -, -, others, rfl⟩ := unhex?_cons read
    have := ih others
    simp only [List.length_cons]
    omega

/-- A text denotes bytes exactly when it is an even number of hexadecimal characters. -/
theorem unhex?_isSome_iff (text : Bytes) :
    (unhex? text).isSome ↔ text.length % 2 = 0 ∧ ∀ c ∈ text, (hexVal? c).isSome := by
  induction text using unhex?.induct with
  | case1 => simp [unhex?]
  | case2 c => simp [unhex?]
  | case3 high low rest ih =>
    have parity : (high :: low :: rest).length % 2 = rest.length % 2 := by
      simp only [List.length_cons]
      omega
    rw [parity, List.forall_mem_cons, List.forall_mem_cons, unhex?]
    cases first : hexVal? high with
    | none => simp
    | some a =>
      cases second : hexVal? low with
      | none => simp
      | some b =>
        simp only [Option.bind_eq_bind, Option.bind_some, Option.isSome_some, true_and, ← ih]
        cases unhex? rest with
        | none => simp
        | some tail => simp

/-- The text of bytes denotes them. -/
theorem unhex?_hex (bytes : Bytes) : unhex? (hex bytes) = some bytes := by
  induction bytes with
  | nil => rfl
  | cons byte rest ih =>
    have bound := byte.toNat_lt
    have value : 16 * (byte.toNat / 16) + byte.toNat % 16 = byte.toNat := by omega
    rw [hex_cons, hexByte, List.cons_append, List.singleton_append, unhex?, hexVal?_hexChar (by omega),
      hexVal?_hexChar (by omega), ih]
    simp only [Option.bind_eq_bind, Option.bind_some, value, UInt8.ofNat_toNat]

example : hex [0xde, 0xad, 0x0b] = ascii "dead0b" := by decide

end Iotex
