import Iotex.Lib.Decimal

/-! # JSON texts

Values and a parser for the JSON grammar, over bytes. A number keeps its decimal mantissa and
exponent, so that no rounding is implied. The parser is total: its fuel is the length of the
text, and each nested call of it consumes a character.
-/

namespace Iotex

inductive Json where
  | null
  | bool (value : Bool)
  | num (mantissa exponent : ℤ)
  | str (text : Bytes)
  | arr (items : List Json)
  | obj (members : List (Bytes × Json))
deriving Repr, Inhabited

namespace Json

/-- The first member of an object with the given name, which ends at its first NUL. -/
def get? (name : Bytes) : Json → Option Json
  | obj members => (members.find? fun member => member.1.takeWhile (· != 0) == name).map Prod.snd
  | _ => none

def isSpace (char : UInt8) : Bool := char == 32 || char == 9 || char == 10 || char == 13

def skipSpace (text : Bytes) : Bytes := text.dropWhile isSpace

/-- A character that stands for itself inside a string literal. -/
def isPlain (char : UInt8) : Bool := 32 ≤ char.toNat && char != 34 && char != 92

/-- Text of which no character must be escaped. -/
def PlainText (text : Bytes) : Prop := ∀ char ∈ text, isPlain char = true

instance (text : Bytes) : Decidable (PlainText text) :=
  decidable_of_iff (text.all isPlain = true) List.all_eq_true

def hexDigit? (char : UInt8) : Option ℕ :=
  if isDigit char then some (char.toNat - 48)
  else if 97 ≤ char.toNat && char.toNat ≤ 102 then some (char.toNat - 87)
  else if 65 ≤ char.toNat && char.toNat ≤ 70 then some (char.toNat - 55)
  else none

def codeUnit? (a b c d : UInt8) : Option ℕ := do
  let a ← hexDigit? a
  let b ← hexDigit? b
  let c ← hexDigit? c
  let d ← hexDigit? d
  some (4096 * a + 256 * b + 16 * c + d)

def utf8 (point : ℕ) : Bytes :=
  (if point < 0x80 then [point]
  else if point < 0x800 then [0xc0 + point / 0x40, 0x80 + point % 0x40]
  else if point < 0x10000 then
    [0xe0 + point / 0x1000, 0x80 + point / 0x40 % 0x40, 0x80 + point % 0x40]
  else [0xf0 + point / 0x40000, 0x80 + point / 0x1000 % 0x40, 0x80 + point / 0x40 % 0x40,
    0x80 + point % 0x40]).map UInt8.ofNat

/-- The character of a two-character escape. -/
def escape? (char : UInt8) : Option UInt8 :=
  if char = 34 then some 34
  else if char = 92 then some 92
  else if char = 47 then some 47
  else if char = 98 then some 8
  else if char = 102 then some 12
  else if char = 110 then some 10
  else if char = 114 then some 13
  else if char = 116 then some 9
  else none

/-- The rest of a string literal behind its opening quote, and what follows the literal. -/
def parseChars : Bytes → Option (Bytes × Bytes)
  | [] => none
  | char :: rest =>
    if char = 34 then some ([], rest)
    else if char = 92 then
      match rest with
      | [] => none
      | kind :: rest =>
        if kind = 117 then
          match rest with
          | a :: b :: c :: d :: rest => do
            let unit ← codeUnit? a b c d
            if 0xd800 ≤ unit ∧ unit < 0xdc00 then
              -- a high surrogate needs the low one right behind it
              match rest with
              | backslash :: u :: a :: b :: c :: d :: rest => do
                let low ← codeUnit? a b c d
                if backslash = 92 ∧ u = 117 ∧ 0xdc00 ≤ low ∧ low < 0xe000 then
                  let (text, after) ← parseChars rest
                  some (utf8 (0x10000 + (unit - 0xd800) * 0x400 + (low - 0xdc00)) ++ text, after)
                else none
              | _ => none
            else if 0xdc00 ≤ unit ∧ unit < 0xe000 then none
            else
              let (text, after) ← parseChars rest
              some (utf8 unit ++ text, after)
          | _ => none
        else do
          let escaped ← escape? kind
          let (text, after) ← parseChars rest
          some (escaped :: text, after)
    else if char.toNat < 32 then none
    else do
      let (text, after) ← parseChars rest
      some (char :: text, after)

/-- The fraction of a number, if there is one. -/
def parseFraction (text : Bytes) : Option (Bytes × Bytes) :=
  match text with
  | 46 :: rest => if (rest.takeWhile isDigit) = [] then none else some (rest.span isDigit)
  | _ => some ([], text)

/-- The exponent of a number, if there is one. -/
def parseExponent (text : Bytes) : Option (ℤ × Bytes) :=
  match text with
  | char :: rest =>
    if char = 101 ∨ char = 69 then
      let negative := rest.head? = some 45
      let digits := if rest.head? = some 45 ∨ rest.head? = some 43 then rest.tail else rest
      if (digits.takeWhile isDigit) = [] then none
      else
        let value : ℤ := decimalValue (digits.takeWhile isDigit)
        some (if negative then -value else value, digits.dropWhile isDigit)
    else some (0, text)
  | [] => some (0, [])

def parseNumber (text : Bytes) : Option (Json × Bytes) :=
  let negative := text.head? = some 45
  let (whole, rest) := (if negative then text.tail else text).span isDigit
  if whole = [] ∨ (whole.head? = some 48 ∧ 1 < whole.length) then none
  else do
    let (fraction, rest) ← parseFraction rest
    let (exponent, rest) ← parseExponent rest
    let magnitude : ℤ := decimalValue (whole ++ fraction)
    some (.num (if negative then -magnitude else magnitude) (exponent - fraction.length), rest)

mutual

def parseValue : ℕ → Bytes → Option (Json × Bytes)
  | 0, _ => none
  | fuel + 1, text =>
    match skipSpace text with
    | [] => none
    | char :: rest =>
      if char = 34 then (parseChars rest).map fun (text, after) => (.str text, after)
      else if char = 123 then
        if (skipSpace rest).head? = some 125 then some (.obj [], (skipSpace rest).tail)
        else (parseMembers fuel rest).map fun (members, after) => (.obj members, after)
      else if char = 91 then
        if (skipSpace rest).head? = some 93 then some (.arr [], (skipSpace rest).tail)
        else (parseItems fuel rest).map fun (items, after) => (.arr items, after)
      else if (ascii "true").isPrefixOf (char :: rest) then some (.bool true, rest.drop 3)
      else if (ascii "false").isPrefixOf (char :: rest) then some (.bool false, rest.drop 4)
      else if (ascii "null").isPrefixOf (char :: rest) then some (.null, rest.drop 3)
      else parseNumber (char :: rest)

/-- The members of an object behind its opening brace, up to and with the closing one. -/
def parseMembers : ℕ → Bytes → Option (List (Bytes × Json) × Bytes)
  | 0, _ => none
  | fuel + 1, text =>
    match skipSpace text with
    | 34 :: rest => do
      let (name, rest) ← parseChars rest
      match skipSpace rest with
      | 58 :: rest => do
        let (value, rest) ← parseValue fuel rest
        match skipSpace rest with
        | 44 :: rest => do
          let (members, rest) ← parseMembers fuel rest
          some ((name, value) :: members, rest)
        | 125 :: rest => some ([(name, value)], rest)
        | _ => none
      | _ => none
    | _ => none

/-- The items of an array behind its opening bracket, up to and with the closing one. -/
def parseItems : ℕ → Bytes → Option (List Json × Bytes)
  | 0, _ => none
  | fuel + 1, text => do
    let (value, rest) ← parseValue fuel text
    match skipSpace rest with
    | 44 :: rest => do
      let (items, rest) ← parseItems fuel rest
      some (value :: items, rest)
    | 93 :: rest => some ([value], rest)
    | _ => none

end

/-- A text is one value with nothing but space around it. -/
def parse (text : Bytes) : Option Json := do
  let (value, rest) ← parseValue (text.length + 1) text
  if skipSpace rest = [] then some value else none

end Json

end Iotex
