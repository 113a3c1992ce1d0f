import Iotex.Lib.Bytes

/-! # The protocol-buffer wire format

Base-128 varints, keys and length-delimited payloads: a writer for a list of fields and a reader
that takes a byte string apart into fields. The reader follows the format, so it accepts varints
that are longer than needed and reduces them modulo `2 ^ 64`; groups are rejected.
-/

namespace Iotex.Wire

/-! ## Varints -/

/-- Groups of seven bits, low group first, for a number of at most `groups + 1` groups. -/
def varintGroups : ℕ → ℕ → Bytes
  | 0, value => [UInt8.ofNat (value % 128)]
  | groups + 1, value =>
    if value < 128 then [UInt8.ofNat value]
    else UInt8.ofNat (value % 128 + 128) :: varintGroups groups (value / 128)

/-- The shortest varint of a number; one step divides it by 128. -/
def varint (value : ℕ) : Bytes := varintGroups value value

/-- A varint of at most `groups` bytes, and what follows it. -/
def readGroups : ℕ → Bytes → Option (ℕ × Bytes)
  | groups + 1, byte :: rest =>
    if byte.toNat < 128 then some (byte.toNat, rest)
    else (readGroups groups rest).map fun read => (byte.toNat - 128 + 128 * read.1, read.2)
  | _, _ => none

/-- A varint of at most ten bytes, as a 64-bit number. -/
def readVarint (text : Bytes) : Option (ℕ × Bytes) :=
  (readGroups 10 text).map fun read => (read.1 % 2 ^ 64, read.2)

private theorem varintGroups_eq {groups value : ℕ} (more : ℕ) (bound : value ≤ groups) :
    varintGroups (groups + more) value = varintGroups groups value := by
  induction groups generalizing value with
  | zero =>
    obtain rfl : value = 0 := by omega
    cases more <;> rfl
  | succ groups ih =>
    rw [show groups + 1 + more = (groups + more) + 1 by omega, varintGroups, varintGroups,
      ih (show value / 128 ≤ groups by omega)]

theorem varint_small {value : ℕ} (bound : value < 128) : varint value = [UInt8.ofNat value] := by
  cases value with
  | zero => rfl
  | succ value => rw [varint, varintGroups, if_pos bound]

theorem varint_step {value : ℕ} (bound : 128 ≤ value) :
    varint value = UInt8.ofNat (value % 128 + 128) :: varint (value / 128) := by
  obtain ⟨groups, rfl⟩ : ∃ n, value = n + 1 := ⟨value - 1, by omega⟩
  have enough := varintGroups_eq (groups - (groups + 1) / 128) (le_refl ((groups + 1) / 128))
  rw [show (groups + 1) / 128 + (groups - (groups + 1) / 128) = groups by omega] at enough
  rw [varint, varintGroups, if_neg (by omega), enough, varint]

theorem varint_ne_nil (value : ℕ) : varint value ≠ [] := by
  by_cases bound : value < 128
  · simp [varint_small bound]
  · simp [varint_step (not_lt.mp bound)]

/-- A number of at most `count` seven-bit groups takes at most `count` bytes. -/
theorem varint_length_le (count : ℕ) {value : ℕ} (positive : 0 < count) (bound : value < 128 ^ count) :
    (varint value).length ≤ count := by
  induction count generalizing value with
  | zero => omega
  | succ count ih =>
    by_cases small : value < 128
    · rw [varint_small small]
      simp
    · rw [varint_step (not_lt.mp small), List.length_cons]
      have rest : value / 128 < 128 ^ count := by
        rw [pow_succ] at bound
        exact Nat.div_lt_of_lt_mul (by omega)
      have nonzero : 0 < count := by
        by_contra zero
        obtain rfl : count = 0 := by omega
        simp only [Nat.zero_add, pow_one] at bound
        omega
      have := ih nonzero rest
      omega

theorem readGroups_varint {groups value : ℕ} (rest : Bytes) (positive : 0 < groups)
    (bound : value < 128 ^ groups) : readGroups groups (varint value ++ rest) = some (value, rest) := by
  induction groups generalizing value with
  | zero => omega
  | succ groups ih =>
    by_cases small : value < 128
    · have low : (UInt8.ofNat value).toNat = value := by simp; omega
      rw [varint_small small, List.singleton_append, readGroups, low, if_pos small]
    · have low : (UInt8.ofNat (value % 128 + 128)).toNat = value % 128 + 128 := by simp; omega
      have tail : value / 128 < 128 ^ groups := by
        rw [pow_succ] at bound
        exact Nat.div_lt_of_lt_mul (by omega)
      have nonzero : 0 < groups := by
        by_contra zero
        obtain rfl : groups = 0 := by omega
        simp only [Nat.zero_add, pow_one] at bound
        omega
      rw [varint_step (not_lt.mp small), List.cons_append, readGroups, low, if_neg (by omega), ih nonzero tail]
      simp only [Option.map_some, Option.some.injEq, Prod.mk.injEq, and_true]
      omega

/-- The reader inverts the writer on 64-bit numbers. -/
theorem readVarint_varint {value : ℕ} (rest : Bytes) (bound : value < 2 ^ 64) :
    readVarint (varint value ++ rest) = some (value, rest) := by
  have groups : value < 128 ^ 10 := lt_of_lt_of_le bound (by decide)
  rw [readVarint, readGroups_varint rest (by norm_num) groups, Option.map_some, Nat.mod_eq_of_lt bound]

/-! ## Fields -/

inductive Payload where
  | varint (value : ℕ)
  | fixed64 (body : Bytes)
  | delimited (body : Bytes)
  | fixed32 (body : Bytes)
deriving DecidableEq, Repr

namespace Payload

def wireType : Payload → ℕ
  | varint _ => 0
  | fixed64 _ => 1
  | delimited _ => 2
  | fixed32 _ => 5

def write : Payload → Bytes
  | varint value => Wire.varint value
  | fixed64 body => body
  | delimited body => Wire.varint body.length ++ body
  | fixed32 body => body

/-- Payloads that the format can carry. -/
def WellFormed : Payload → Prop
  | varint value => value < 2 ^ 64
  | fixed64 body => body.length = 8
  | delimited body => body.length < 2 ^ 64
  | fixed32 body => body.length = 4

end Payload

structure Field where
  number : ℕ
  payload : Payload
deriving DecidableEq, Repr

namespace Field

def write (field : Field) : Bytes := varint (field.number * 8 + field.payload.wireType) ++ field.payload.write

def WellFormed (field : Field) : Prop := 0 < field.number ∧ field.number < 2 ^ 29 ∧ field.payload.WellFormed

end Field

def writeFields (fields : List Field) : Bytes := fields.flatMap Field.write

def takeExact (count : ℕ) (text : Bytes) : Option (Bytes × Bytes) :=
  if count ≤ text.length then some (text.take count, text.drop count) else none

def readPayload (wireType : ℕ) (text : Bytes) : Option (Payload × Bytes) :=
  match wireType with
  | 0 => (readVarint text).map fun read => (.varint read.1, read.2)
  | 1 => (takeExact 8 text).map fun read => (.fixed64 read.1, read.2)
  | 2 => do
    let (length, body) ← readVarint text
    (takeExact length body).map fun read => (.delimited read.1, read.2)
  | 5 => (takeExact 4 text).map fun read => (.fixed32 read.1, read.2)
  | _ => none

def readField (text : Bytes) : Option (Field × Bytes) := do
  let (key, rest) ← readVarint text
  if 0 < key / 8 ∧ key / 8 < 2 ^ 29 then
    (readPayload (key % 8) rest).map fun read => (⟨key / 8, read.1⟩, read.2)
  else none

/-- The fields of a text, given one unit of fuel for each. -/
def readFieldsFuel : ℕ → Bytes → Option (List Field)
  | _, [] => some []
  | 0, _ => none
  | fuel + 1, text => do
    let (field, rest) ← readField text
    let fields ← readFieldsFuel fuel rest
    some (field :: fields)

theorem readFieldsFuel_succ (fuel : ℕ) {text : Bytes} (some : text ≠ []) :
    readFieldsFuel (fuel + 1) text =
      (readField text).bind fun read => (readFieldsFuel fuel read.2).map (read.1 :: ·) := by
  obtain ⟨byte, rest, rfl⟩ := List.exists_cons_of_ne_nil some
  rw [readFieldsFuel]
  · cases readField (byte :: rest) with
    | none => rfl
    | some read => cases tail : readFieldsFuel fuel read.2 <;> simp [tail]
  · simp

/-- The fields of a text; every field takes at least one byte. -/
def readFields (text : Bytes) : Option (List Field) := readFieldsFuel text.length text

theorem takeExact_append (body rest : Bytes) : takeExact body.length (body ++ rest) = some (body, rest) := by
  rw [takeExact, if_pos (by simp), List.take_left, List.drop_left]

theorem readPayload_write {payload : Payload} (rest : Bytes) (wellFormed : payload.WellFormed) :
    readPayload payload.wireType (payload.write ++ rest) = some (payload, rest) := by
  cases payload with
  | varint value =>
    simp only [Payload.wireType, readPayload, Payload.write, readVarint_varint rest wellFormed, Option.map_some]
  | fixed64 body =>
    have take := takeExact_append body rest
    rw [show body.length = 8 from wellFormed] at take
    simp only [Payload.wireType, readPayload, Payload.write, take, Option.map_some]
  | delimited body =>
    simp only [Payload.wireType, readPayload, Payload.write, List.append_assoc,
      readVarint_varint (body ++ rest) wellFormed, Option.bind_eq_bind, Option.bind_some,
      takeExact_append, Option.map_some]
  | fixed32 body =>
    have take := takeExact_append body rest
    rw [show body.length = 4 from wellFormed] at take
    simp only [Payload.wireType, readPayload, Payload.write, take, Option.map_some]

theorem Payload.wireType_lt (payload : Payload) : payload.wireType < 8 := by
  cases payload <;> simp [wireType]

theorem readField_write {field : Field} (rest : Bytes) (wellFormed : field.WellFormed) :
    readField (field.write ++ rest) = some (field, rest) := by
  obtain ⟨positive, bound, payload⟩ := wellFormed
  have wire := field.payload.wireType_lt
  have number : (field.number * 8 + field.payload.wireType) / 8 = field.number := by omega
  have kind : (field.number * 8 + field.payload.wireType) % 8 = field.payload.wireType := by omega
  rw [readField, Field.write, List.append_assoc, readVarint_varint _ (by omega)]
  simp only [Option.bind_eq_bind, Option.bind_some, number, kind, positive, bound, and_self, ↓reduceIte,
    readPayload_write rest payload, Option.map_some]

theorem Field.write_ne_nil (field : Field) : field.write ≠ [] := by
  rw [Field.write, Ne, List.append_eq_nil_iff]
  intro empty
  exact varint_ne_nil _ empty.1

/-- Written fields are read first, each for one unit of fuel. -/
theorem readFieldsFuel_append {fields : List Field} (wellFormed : ∀ field ∈ fields, field.WellFormed) (rest : Bytes)
    {fuel : ℕ} (enough : fields.length ≤ fuel) :
    readFieldsFuel fuel (writeFields fields ++ rest) =
      (readFieldsFuel (fuel - fields.length) rest).map (fields ++ ·) := by
  induction fields generalizing fuel with
  | nil => simp [writeFields]
  | cons field others ih =>
    obtain ⟨fuel, rfl⟩ : ∃ n, fuel = n + 1 := ⟨fuel - 1, by simp at enough; omega⟩
    have text : writeFields (field :: others) ++ rest = field.write ++ (writeFields others ++ rest) := by
      rw [writeFields, List.flatMap_cons, List.append_assoc]
      rfl
    have nonempty : field.write ++ (writeFields others ++ rest) ≠ [] := by
      rw [Ne, List.append_eq_nil_iff]
      intro empty
      exact field.write_ne_nil empty.1
    have read := readField_write (writeFields others ++ rest) (wellFormed field List.mem_cons_self)
    have fueled : others.length ≤ fuel := by simpa using enough
    have tail := ih (fun f member => wellFormed f (List.mem_cons_of_mem _ member)) fueled
    rw [text, readFieldsFuel_succ fuel nonempty, read, Option.bind_some, tail, Option.map_map, List.length_cons,
      Nat.add_sub_add_right]
    rfl

theorem writeFields_length (fields : List Field) :
    (writeFields fields).length = (fields.map fun field => field.write.length).sum := by
  rw [writeFields, List.length_flatMap]

/-- A field with a short key takes one byte more than the length and the bytes it counts. -/
theorem delimited_length (number : ℕ) (small : number < 16) (body : Bytes) :
    (⟨number, .delimited body⟩ : Field).write.length = 1 + (varint body.length).length + body.length := by
  simp only [Field.write, Payload.write, Payload.wireType, List.length_append]
  rw [varint_small (by omega), List.length_singleton]
  omega

theorem length_le_writeFields (fields : List Field) : fields.length ≤ (writeFields fields).length := by
  induction fields with
  | nil => rfl
  | cons field rest ih =>
    have := List.length_pos_iff.mpr field.write_ne_nil
    rw [writeFields, List.flatMap_cons, List.length_append, List.length_cons]
    simp only [writeFields] at ih
    omega

/-- The reader takes a written list of fields apart. -/
theorem readFields_writeFields {fields : List Field} (wellFormed : ∀ field ∈ fields, field.WellFormed) :
    readFields (writeFields fields) = some fields := by
  have read := readFieldsFuel_append wellFormed [] (length_le_writeFields fields)
  rw [List.append_nil] at read
  rw [readFields, read, readFieldsFuel, Option.map_some, List.append_nil]

/-- Different lists of fields have different texts. -/
theorem writeFields_inj {a b : List Field} (wellFormedA : ∀ field ∈ a, field.WellFormed)
    (wellFormedB : ∀ field ∈ b, field.WellFormed) (same : writeFields a = writeFields b) : a = b := by
  have read := readFields_writeFields wellFormedA
  rw [same, readFields_writeFields wellFormedB, Option.some.injEq] at read
  exact read.symm

/-- Fields followed by something that is no field are not a list of fields. -/
theorem readFields_broken {fields : List Field} (wellFormed : ∀ field ∈ fields, field.WellFormed) {rest : Bytes}
    (some : rest ≠ []) (broken : readField rest = none) : readFields (writeFields fields ++ rest) = none := by
  have count := length_le_writeFields fields
  rw [readFields, readFieldsFuel_append wellFormed rest (by rw [List.length_append]; omega), Option.map_eq_none_iff]
  cases (writeFields fields ++ rest).length - fields.length with
  | zero => cases rest with
    | nil => exact absurd rfl some
    | cons byte rest => rfl
  | succ fuel =>
    rw [readFieldsFuel_succ fuel some, broken, Option.bind_none]

/-- A key and a length without the bytes that are counted. -/
theorem readField_cut {number length : ℕ} (positive : 0 < number) (bound : number < 2 ^ 29) (nonempty : 0 < length)
    (small : length < 2 ^ 64) : readField (varint (number * 8 + 2) ++ varint length) = none := by
  have count : readVarint (varint length ++ []) = some (length, []) := readVarint_varint [] small
  rw [List.append_nil] at count
  have quotient : (number * 8 + 2) / 8 = number := by omega
  have kind : (number * 8 + 2) % 8 = 2 := by omega
  rw [readField, readVarint_varint _ (by omega)]
  simp only [Option.bind_eq_bind, Option.bind_some, quotient, kind, positive, bound, and_self, ↓reduceIte, readPayload,
    count, takeExact, List.length_nil, show ¬length ≤ 0 by omega, Option.map_none]

example : (⟨2, .varint 300⟩ : Field).write = [0x10, 0xac, 0x02] := by decide

end Iotex.Wire
