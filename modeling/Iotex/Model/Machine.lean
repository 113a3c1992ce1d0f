import Mathlib.Data.Int.Basic
import Mathlib.Data.List.TakeWhile
import Iotex.Lib.Decimal

/-! # The machine the library runs on

The parts of C++ that the sources rely on, for the 64-bit little-endian operating-system build:
result codes, undefined behavior as a fault, bytes whose content may be indeterminate, the integer
conversions between `int`, `int32_t` and `size_t`, `(float)` of a size, and NUL-terminated text.
-/

namespace Iotex

inductive ResultCode where
  | success
  | errorHttp
  | errorJsonParse
  | errorBadParameter
  | errorSignature
  | errorUnknown
  | errorStorageOpen
  | errorStorageBadRead
  | errorStorageEmpty
  | errorGrpc
  | errorWrongType
  | valuesCount
deriving DecidableEq, Repr

/-- The kinds of undefined behavior the sources can run into. -/
inductive Fault where
  | outOfBounds
  | inactiveMember
  | indeterminateValue
  | intOverflow
deriving DecidableEq, Repr

/-- A computation of the program: a result, or undefined behavior. -/
abbrev Exec := Except Fault

instance {α : Type} [DecidableEq α] : DecidableEq (Exec α)
  | .error a, .error b => decidable_of_iff (a = b) (by simp)
  | .ok a, .ok b => decidable_of_iff (a = b) (by simp)
  | .error _, .ok _ => isFalse (by simp)
  | .ok _, .error _ => isFalse (by simp)

@[simp] theorem ok_bind {α β : Type} (value : α) (next : α → Exec β) : (Except.ok value >>= next) = next value := (rfl)

@[simp] theorem error_bind {α β : Type} (fault : Fault) (next : α → Exec β) :
    ((.error fault : Exec α) >>= next) = .error fault := (rfl)

@[simp] theorem pure_eq_ok {α : Type} (value : α) : (pure value : Exec α) = .ok value := (rfl)

@[simp] theorem throw_eq_error {α : Type} (fault : Fault) : (throw fault : Exec α) = .error fault := (rfl)

/-- A computation returns through a step that returned. -/
theorem bind_eq_ok {α β : Type} {first : Exec α} {next : α → Exec β} {result : β} :
    first >>= next = .ok result ↔ ∃ value, first = .ok value ∧ next value = .ok result := by
  cases first with
  | error fault => simp
  | ok value => simp

/-- A mapped computation returns through the computation that returned. -/
theorem map_eq_ok {α β : Type} {first : Exec α} {f : α → β} {result : β} :
    first.map f = .ok result ↔ ∃ value, first = .ok value ∧ f value = result := by
  cases first with
  | error fault => simp [Except.map]
  | ok value => simp [Except.map]

/-! ## Memory -/

/-- A byte of memory; `none` is a byte that was never written. -/
abbrev Cell := Option UInt8

abbrev Cells := List Cell

/-- Memory that holds the given bytes. -/
def cells (bytes : Bytes) : Cells := bytes.map some

@[simp] theorem cells_length (bytes : Bytes) : (cells bytes).length = bytes.length := List.length_map _

theorem cells_append (a b : Bytes) : cells (a ++ b) = cells a ++ cells b := List.map_append

theorem cells_inj {a b : Bytes} (same : cells a = cells b) : a = b :=
  List.map_injective_iff.mpr (Option.some_injective _) same

theorem cells_take (bytes : Bytes) (count : ℕ) : (cells bytes).take count = cells (bytes.take count) :=
  List.map_take.symm

theorem cells_reverse (bytes : Bytes) : (cells bytes).reverse = cells bytes.reverse := List.map_reverse.symm

theorem cells_flatten (pieces : List Bytes) : (pieces.map cells).flatten = cells pieces.flatten := by
  rw [cells, List.map_flatten]
  rfl

/-- An array that no statement has written to yet. -/
def uninitialized (size : ℕ) : Cells := List.replicate size none

/-- Memory of which every byte was written. -/
def Initialized (memory : Cells) : Prop := ∀ cell ∈ memory, cell ≠ none

theorem initialized_cells (bytes : Bytes) : Initialized (cells bytes) := by
  intro cell member
  obtain ⟨byte, _, rfl⟩ := List.mem_map.mp member
  simp

theorem initialized_append {a b : Cells} : Initialized (a ++ b) ↔ Initialized a ∧ Initialized b := by
  simp only [Initialized, List.mem_append]
  exact ⟨fun all => ⟨fun c m => all c (.inl m), fun c m => all c (.inr m)⟩,
    fun both c m => m.elim (both.1 c) (both.2 c)⟩

/-- The first `count` elements of the array behind a pointer. -/
def readFirst {α : Type} (memory : List α) (count : ℕ) : Exec (List α) :=
  if count ≤ memory.length then .ok (memory.take count) else .error .outOfBounds

theorem readFirst_of_le {α : Type} {memory : List α} {count : ℕ} (bound : count ≤ memory.length) :
    readFirst memory count = .ok (memory.take count) := if_pos bound

theorem readFirst_eq_ok {α : Type} {memory result : List α} {count : ℕ} :
    readFirst memory count = .ok result ↔ count ≤ memory.length ∧ result = memory.take count := by
  rw [readFirst]
  split
  · rename_i bound
    simp only [Except.ok.injEq, bound, true_and, eq_comm]
  · rename_i bound
    simp only [reduceCtorEq, bound, false_and]

/-- The contents of memory of which every byte was written. -/
def writtenBytes? : Cells → Option Bytes
  | [] => some []
  | none :: _ => none
  | some byte :: rest => (writtenBytes? rest).map (byte :: ·)

theorem writtenBytes?_eq_some {memory : Cells} {bytes : Bytes} :
    writtenBytes? memory = some bytes ↔ memory = cells bytes := by
  induction memory generalizing bytes with
  | nil => cases bytes <;> simp [writtenBytes?, cells]
  | cons cell rest ih =>
    cases cell with
    | none => cases bytes <;> simp [writtenBytes?, cells]
    | some byte =>
      simp only [writtenBytes?, Option.map_eq_some_iff, ih]
      constructor
      · rintro ⟨bytes, rfl, rfl⟩
        rfl
      · intro same
        cases bytes with
        | nil => simp [cells] at same
        | cons first others =>
          obtain ⟨head, tail⟩ := List.cons.inj same
          obtain rfl := Option.some.inj head
          exact ⟨others, tail, rfl⟩

@[simp] theorem writtenBytes?_cells (bytes : Bytes) : writtenBytes? (cells bytes) = some bytes :=
  writtenBytes?_eq_some.mpr rfl

theorem writtenBytes?_isSome {memory : Cells} : (writtenBytes? memory).isSome = true ↔ Initialized memory := by
  constructor
  · intro written
    obtain ⟨bytes, found⟩ := Option.isSome_iff_exists.mp written
    rw [writtenBytes?_eq_some.mp found]
    exact initialized_cells bytes
  · intro written
    induction memory with
    | nil => rfl
    | cons cell rest ih =>
      cases cell with
      | none => exact absurd rfl (written none List.mem_cons_self)
      | some byte =>
        rw [writtenBytes?, Option.isSome_map]
        exact ih fun other member => written other (List.mem_cons_of_mem _ member)

/-- The first `count` bytes of the array behind a pointer, for an operation that depends on their values. -/
def readBytes (memory : Cells) (count : ℕ) : Exec Bytes := do
  match writtenBytes? (← readFirst memory count) with
  | some bytes => return bytes
  | none => throw .indeterminateValue

theorem readBytes_eq_ok {memory : Cells} {count : ℕ} {bytes : Bytes} :
    readBytes memory count = .ok bytes ↔ count ≤ memory.length ∧ memory.take count = cells bytes := by
  rw [readBytes, bind_eq_ok]
  simp only [readFirst_eq_ok]
  constructor
  · rintro ⟨read, ⟨bound, rfl⟩, found⟩
    refine ⟨bound, writtenBytes?_eq_some.mp ?_⟩
    cases written : writtenBytes? (memory.take count) with
    | none => simp [written] at found
    | some other =>
      simp only [written, pure_eq_ok, Except.ok.injEq] at found
      rw [found]
  · rintro ⟨bound, same⟩
    refine ⟨_, ⟨bound, rfl⟩, ?_⟩
    rw [same, writtenBytes?_cells]
    rfl

/-! ## Integers -/

/-- Conversion to `int32_t`. -/
def toInt32 (value : ℤ) : ℤ := value.bmod (2 ^ 32)

/-- Conversion to `size_t`. -/
def toSizeT (value : ℤ) : ℕ := (value % 2 ^ 64).toNat

/-- Conversion to `uint64_t`. -/
def toUint64 (value : ℤ) : UInt64 := UInt64.ofNat (value % 2 ^ 64).toNat

/-- The sum of two `int` values; overflow is undefined. -/
def addInt (a b : ℤ) : Exec ℤ :=
  if -2 ^ 31 ≤ a + b ∧ a + b < 2 ^ 31 then .ok (a + b) else .error .intOverflow

/-- The product of two `int` values; overflow is undefined. -/
def mulInt (a b : ℤ) : Exec ℤ :=
  if -2 ^ 31 ≤ a * b ∧ a * b < 2 ^ 31 then .ok (a * b) else .error .intOverflow

/-- An `int` that is counted up from zero to a number; counting past its range is undefined. -/
def countInt (count : ℕ) : Exec Unit := if count < 2 ^ 31 then .ok () else .error .intOverflow

theorem countInt_of_lt {count : ℕ} (bound : count < 2 ^ 31) : countInt count = .ok () := if_pos bound

theorem countInt_of_le {count : ℕ} (bound : 2 ^ 31 ≤ count) : countInt count = .error .intOverflow :=
  if_neg (Nat.not_lt.mpr bound)

theorem toInt32_of_lt {value : ℕ} (bound : value < 2 ^ 31) : toInt32 value = value := by
  rw [toInt32, Int.bmod_def]
  norm_num
  omega

/-- Counts that do not differ by a multiple of the range are told apart. -/
theorem toInt32_inj {a b : ℕ} (less : a < b + 2 ^ 32) (more : b < a + 2 ^ 32) (same : toInt32 a = toInt32 b) :
    a = b := by
  simp only [toInt32, Int.bmod_def] at same
  omega

theorem toSizeT_of_lt {value : ℕ} (bound : value < 2 ^ 64) : toSizeT value = value := by
  rw [toSizeT]
  omega

/-- The value of `(float)size`: 24 significant bits, ties to even. -/
def floatOfSize (size : ℕ) : ℕ :=
  if size < 2 ^ 24 then size
  else
    let unit := 2 ^ (Nat.log2 size - 23)
    let kept := size / unit
    let rest := size % unit
    if 2 * rest < unit ∨ (2 * rest = unit ∧ kept % 2 = 0) then kept * unit else (kept + 1) * unit

/-- The value of `ceil((float)size / 32.0)`; the division and the rounding up are exact. -/
def n32ByteGroups (size : ℕ) : ℕ := blocks 32 (floatOfSize size)

theorem n32ByteGroups_of_lt {size : ℕ} (bound : size < 2 ^ 24) : n32ByteGroups size = blocks 32 size := by
  rw [n32ByteGroups, floatOfSize, if_pos bound]

example : floatOfSize 16777217 = 16777216 := by decide

/-! ## Text -/

/-- The C string that starts at the first character of a text. -/
def cString (text : Bytes) : Bytes := text.takeWhile (· != 0)

/-- The C string in an array; looking for its end goes on behind an array without NUL. -/
def stringIn (array : Bytes) : Exec Bytes := if 0 ∈ array then .ok (cString array) else .error .outOfBounds

/-- The C string in memory; its characters and the NUL behind them must have been written. -/
def readString : Cells → Exec Bytes
  | [] => .error .outOfBounds
  | none :: _ => .error .indeterminateValue
  | some char :: rest => if char = 0 then .ok [] else (readString rest).map (char :: ·)

/-- The contents of a NUL-terminated character array of the given size. -/
structure CharArray (size : ℕ) where
  text : Bytes
  noNul : (0 : UInt8) ∉ text
  fits : text.length < size

/-- A string object, whose characters fit into the address space. -/
structure IotexString where
  text : Bytes
  addressable : text.length < 2 ^ 63
deriving Repr

def IotexString.empty : IotexString := ⟨[], by norm_num⟩

theorem cString_of_noNul {text : Bytes} (noNul : (0 : UInt8) ∉ text) : cString text = text := by
  rw [cString, List.takeWhile_eq_self_iff]
  intro char member
  simp only [bne_iff_ne, ne_eq]
  rintro rfl
  exact noNul member

/-- Text in front of the first NUL of an array. -/
theorem cString_terminated {text : Bytes} (noNul : (0 : UInt8) ∉ text) (rest : Bytes) :
    cString (text ++ 0 :: rest) = text := by
  have plain := cString_of_noNul noNul
  rw [cString, List.takeWhile_eq_self_iff] at plain
  rw [cString, List.takeWhile_append_of_pos plain, List.takeWhile_cons_of_neg (by simp), List.append_nil]

theorem stringIn_terminated {text : Bytes} (noNul : (0 : UInt8) ∉ text) (rest : Bytes) :
    stringIn (text ++ 0 :: rest) = .ok text := by
  rw [stringIn, if_pos (by simp), cString_terminated noNul]

theorem readString_terminated {text : Bytes} (noNul : (0 : UInt8) ∉ text) (rest : Cells) :
    readString (cells text ++ some 0 :: rest) = .ok text := by
  induction text with
  | nil => rfl
  | cons char text ih =>
    obtain ⟨other, absent⟩ := not_or.mp (fun member => noNul (List.mem_cons.mpr member))
    rw [cells, List.map_cons, List.cons_append, readString, if_neg (Ne.symm other)]
    exact congrArg (Except.map (char :: ·)) (ih absent)

@[simp] theorem CharArray.cString_text {size : ℕ} (array : CharArray size) : cString array.text = array.text :=
  cString_of_noNul array.noNul

theorem cString_noNul (text : Bytes) : (0 : UInt8) ∉ cString text := by
  intro member
  have := List.mem_takeWhile_imp member
  simp at this

def isSpaceChar (char : UInt8) : Bool := char == 32 || (9 ≤ char.toNat && char.toNat ≤ 13)

/-- Decimal text after optional white space and sign; a value outside `int` is undefined. -/
def atoi (text : Bytes) : Exec ℤ :=
  let body := (cString text).dropWhile isSpaceChar
  let negative := body.head? = some 45
  let digits := if body.head? = some 45 ∨ body.head? = some 43 then body.tail else body
  let value : ℤ := decimalValue (digits.takeWhile isDigit)
  let value := if negative then -value else value
  if -2 ^ 31 ≤ value ∧ value < 2 ^ 31 then .ok value else .error .intOverflow

/-- Decimal text after optional white space and sign; a value outside `long` is undefined. -/
def atol (text : Bytes) : Exec ℤ :=
  let body := (cString text).dropWhile isSpaceChar
  let negative := body.head? = some 45
  let digits := if body.head? = some 45 ∨ body.head? = some 43 then body.tail else body
  let value : ℤ := decimalValue (digits.takeWhile isDigit)
  let value := if negative then -value else value
  if -2 ^ 63 ≤ value ∧ value < 2 ^ 63 then .ok value else .error .intOverflow

example : atoi (ascii "256") = .ok 256 := by decide

end Iotex
