import Iotex.Lib.Runs
import Iotex.Model.Storage

/-! # Stored keys

Sequences of calls of the storage, on an EEPROM that ignores what is outside of its size. Every call
reports a success: a key comes back as far as its cells are inside, with zeros for the others, and a
read of cells that were never saved is not told apart from that of a key.
-/

namespace Iotex

open Runs

/-! ## The EEPROM -/

/-- What the library documents: `begin` gives a number of cells, a written cell is read back, writes
outside are ignored and reads there return zero. -/
structure EepromLibrary.Lawful {Eeprom : Type} (library : EepromLibrary Eeprom) (size : Eeprom → ℕ) : Prop where
  size_begin : ∀ eeprom count, size (library.begin eeprom count) = count.toNat
  size_write : ∀ eeprom address value, size (library.write eeprom address value) = size eeprom
  size_commit : ∀ eeprom, size (library.commit eeprom) = size eeprom
  read_write : ∀ eeprom address value, address.toNat < size eeprom →
    library.read (library.write eeprom address value) address = value
  read_write_other : ∀ eeprom address other value, other ≠ address →
    library.read (library.write eeprom address value) other = library.read eeprom other
  read_commit : ∀ eeprom address, library.read (library.commit eeprom) address = library.read eeprom address
  read_outside : ∀ eeprom address, size eeprom ≤ address.toNat → library.read eeprom address = 0

/-- The cell at an offset from an address. -/
def cellAt (address : UInt32) (i : Fin 32) : UInt32 := address + UInt32.ofNat i

/-- One of the 32 cells at an address. -/
def Covers (address cell : UInt32) : Prop := ∃ i, cell = cellAt address i

/-- Addresses at a distance of at most 31, in the arithmetic of 32 bits. -/
def Within31 (address other : UInt32) : Prop := (other - address).toNat ≤ 31 ∨ (address - other).toNat ≤ 31

theorem cellAt_toNat (address : UInt32) (i : Fin 32) : (cellAt address i).toNat = (address.toNat + i) % 2 ^ 32 := by
  have bound := i.isLt
  rw [cellAt, UInt32.toNat_add, UInt32.toNat_ofNat']
  omega

theorem cellAt_inj {address : UInt32} {i j : Fin 32} (same : cellAt address i = cellAt address j) : i = j := by
  have cells := congrArg UInt32.toNat same
  rw [cellAt_toNat, cellAt_toNat] at cells
  have boundI := i.isLt
  have boundJ := j.isLt
  have bound := address.toNat_lt
  apply Fin.ext
  omega

/-- Keys at distant addresses share no cell. -/
theorem cellAt_ne {address other : UInt32} (distant : ¬Within31 address other) (i j : Fin 32) :
    cellAt address i ≠ cellAt other j := by
  intro same
  have cells := congrArg UInt32.toNat same
  rw [cellAt_toNat, cellAt_toNat] at cells
  have boundI := i.isLt
  have boundJ := j.isLt
  have bound := address.toNat_lt
  have otherBound := other.toNat_lt
  apply distant
  rw [Within31, UInt32.toNat_sub, UInt32.toNat_sub]
  omega

/-! ## Calls -/

section

variable {Eeprom : Type} (library : EepromLibrary Eeprom)

/-- The storage behind a sequence of calls, which starts without a size. -/
def storageAfter (eeprom : Eeprom) (calls : List StorageCall) : Storage Eeprom :=
  calls.foldl (Storage.step library) ⟨eeprom, false⟩

/-- A key was saved at the address, and no later save used an address close to it; every save reports a
success. -/
def LastSaved (calls : List StorageCall) (address : UInt32) (key : Vector UInt8 32) : Prop :=
  ∃ before after, calls = before ++ .savePrivateKey address key :: after ∧
    ∀ other otherKey, .savePrivateKey other otherKey ∈ after → ¬Within31 address other

/-- A save wrote to the cell. -/
def Saved (calls : List StorageCall) (cell : UInt32) : Prop :=
  ∃ address key, .savePrivateKey address key ∈ calls ∧ Covers address cell

/-- A read returns the key that was last saved at its address, and no success when none of its cells was
ever saved. -/
def KeysComeBack (eeprom : Eeprom) (prior : List StorageCall) : StorageCall → Prop
  | .readPrivateKey address =>
    let result := (storageAfter library eeprom prior).readPrivateKey library address
    (∀ key, LastSaved prior address key → result.1 = .success ∧ result.2.1 = key) ∧
      ((∀ cell, Covers address cell → ¬Saved prior cell) → result.1 ≠ .success)
  | _ => True

/-- The number of cells, which the first call sets. -/
def sizeBehind (calls : List StorageCall) : ℕ :=
  match calls.head? with
  | some (.initializeStorage storageSize) => storageSize.toNat
  | _ => 512

/-- A read touches a saved cell, and the key that it is to return has zeros outside of the EEPROM. -/
def Recoverable (prior : List StorageCall) : StorageCall → Prop
  | .readPrivateKey address => (∃ cell, Covers address cell ∧ Saved prior cell) ∧
    ∀ key, LastSaved prior address key → ∀ i : Fin 32, sizeBehind prior ≤ (cellAt address i).toNat → key.get i = 0
  | _ => True

/-- The last key at an address behind one more call. -/
theorem lastSaved_concat {prior : List StorageCall} {call : StorageCall} {address : UInt32} {key : Vector UInt8 32} :
    LastSaved (prior ++ [call]) address key ↔ call = .savePrivateKey address key ∨
      (LastSaved prior address key ∧
        ∀ other otherKey, call = .savePrivateKey other otherKey → ¬Within31 address other) := by
  constructor
  · rintro ⟨before, after, same, distant⟩
    rcases List.eq_nil_or_concat after with rfl | ⟨after, last, rfl⟩
    · exact .inl (List.head_eq_of_cons_eq (List.append_inj' same rfl).2)
    · rw [List.concat_eq_append, ← List.cons_append, ← List.append_assoc] at same
      obtain ⟨rfl, ends⟩ := List.append_inj' same rfl
      obtain rfl := List.head_eq_of_cons_eq ends
      refine .inr ⟨⟨before, after, rfl, ?_⟩, ?_⟩
      · intro other otherKey member
        exact distant other otherKey (by simp [member])
      · rintro other otherKey rfl
        exact distant other otherKey (by simp)
  · rintro (rfl | ⟨⟨before, after, rfl, distant⟩, last⟩)
    · exact ⟨prior, [], rfl, by simp⟩
    · refine ⟨before, after ++ [call], by simp, ?_⟩
      intro other otherKey member
      rcases List.mem_append.mp member with member | member
      · exact distant other otherKey member
      · exact last other otherKey (List.mem_singleton.mp member).symm

theorem lastSaved_ne_nil {calls : List StorageCall} {address : UInt32} {key : Vector UInt8 32}
    (last : LastSaved calls address key) : calls ≠ [] := by
  obtain ⟨before, after, rfl, -⟩ := last
  simp

/-- Only the first call decides about the size. -/
theorem sizeBehind_concat (prior : List StorageCall) (call : StorageCall) :
    sizeBehind (prior ++ [call]) = if prior = [] then sizeBehind [call] else sizeBehind prior := by
  cases prior with
  | nil => rfl
  | cons first rest => simp [sizeBehind]

/-! ## The state behind a run -/

variable {library} {size : Eeprom → ℕ} (lawful : library.Lawful size)

include lawful in
theorem writeKey_size (address : UInt32) (key : Vector UInt8 32) (indices : List (Fin 32)) (eeprom : Eeprom) :
    size (Storage.writeKey library address key indices eeprom) = size eeprom := by
  induction indices generalizing eeprom with
  | nil => rfl
  | cons i rest ih => exact (ih _).trans (lawful.size_write _ _ _)

include lawful in
theorem read_writeKey_other {address cell : UInt32} (key : Vector UInt8 32) {indices : List (Fin 32)}
    (other : ∀ i ∈ indices, cell ≠ cellAt address i) (eeprom : Eeprom) :
    library.read (Storage.writeKey library address key indices eeprom) cell = library.read eeprom cell := by
  induction indices generalizing eeprom with
  | nil => rfl
  | cons i rest ih =>
    have behind := ih (fun j member => other j (List.mem_cons_of_mem _ member))
    exact (behind _).trans (lawful.read_write_other _ _ _ _ (other i List.mem_cons_self))

include lawful in
/-- The loop leaves each byte of the key in its cell, as far as the cell is inside. -/
theorem read_writeKey (address : UInt32) (key : Vector UInt8 32) {indices : List (Fin 32)} (distinct : indices.Nodup)
    {i : Fin 32} (member : i ∈ indices) {eeprom : Eeprom} (inside : (cellAt address i).toNat < size eeprom) :
    library.read (Storage.writeKey library address key indices eeprom) (cellAt address i) = key.get i := by
  induction indices generalizing eeprom with
  | nil => simp at member
  | cons j rest ih =>
    obtain ⟨fresh, distinct⟩ := List.nodup_cons.mp distinct
    change library.read
      (Storage.writeKey library address key rest (library.write eeprom (cellAt address j) (key.get j))) _ = _
    rcases List.mem_cons.mp member with rfl | member
    · rw [read_writeKey_other lawful key, lawful.read_write _ _ _ inside]
      intro k later same
      exact fresh (cellAt_inj same ▸ later)
    · apply ih distinct member
      rwa [lawful.size_write]

/-- What is known of the storage behind some calls: its size was set by the first of them, and the last
keys are in it as far as they are inside. -/
structure Behind (library : EepromLibrary Eeprom) (size : Eeprom → ℕ) (prior : List StorageCall)
    (storage : Storage Eeprom) : Prop where
  init : storage.init = true ↔ prior ≠ []
  sized : prior ≠ [] → size storage.eeprom = sizeBehind prior
  keys : ∀ address key, LastSaved prior address key → ∀ i : Fin 32,
    library.read storage.eeprom (cellAt address i) =
      if (cellAt address i).toNat < sizeBehind prior then key.get i else 0

include lawful in
/-- `Initialize` sets the size in front of the first call only. -/
theorem Behind.initialized {prior : List StorageCall} {storage : Storage Eeprom}
    (behind : Behind library size prior storage) {call : StorageCall} {storageSize : UInt32}
    (asked : sizeBehind [call] = storageSize.toNat) :
    (storage.initializeStorage library storageSize).init = true ∧
      size (storage.initializeStorage library storageSize).eeprom = sizeBehind (prior ++ [call]) ∧
      (prior ≠ [] → storage.initializeStorage library storageSize = storage) := by
  rw [Storage.initializeStorage, sizeBehind_concat]
  by_cases first : prior = []
  · have fresh : ¬storage.init = true := fun set => behind.init.mp set first
    rw [if_neg fresh, if_pos first, asked]
    exact ⟨rfl, lawful.size_begin _ _, fun later => absurd first later⟩
  · have set := behind.init.mpr first
    rw [if_pos set, if_neg first]
    exact ⟨set, behind.sized first, fun _ => rfl⟩

include lawful in
/-- A call that saves nothing. -/
theorem Behind.unsaved {prior : List StorageCall} {storage : Storage Eeprom}
    (behind : Behind library size prior storage) {call : StorageCall} {storageSize : UInt32}
    (asked : sizeBehind [call] = storageSize.toNat) (quiet : ∀ address key, call ≠ .savePrivateKey address key) :
    Behind library size (prior ++ [call]) (storage.initializeStorage library storageSize) := by
  obtain ⟨init, sized, same⟩ := behind.initialized lawful asked
  refine ⟨by simp [init], fun _ => sized, ?_⟩
  intro address key last
  rcases lastSaved_concat.mp last with saves | ⟨last, -⟩
  · exact absurd saves (quiet address key)
  · have later := lastSaved_ne_nil last
    rw [same later, sizeBehind_concat, if_neg later]
    exact behind.keys address key last

include lawful in
/-- A call that saves a key: the cells of the keys far from it are as they were. -/
theorem Behind.saved {prior : List StorageCall} {storage : Storage Eeprom}
    (behind : Behind library size prior storage) (address : UInt32) (key : Vector UInt8 32) :
    Behind library size (prior ++ [.savePrivateKey address key])
      (storage.savePrivateKey library address key).2 := by
  obtain ⟨init, sized, same⟩ := behind.initialized lawful
    (show sizeBehind [.savePrivateKey address key] = Storage.iotexDefaultEepromSize.toNat from rfl)
  rw [Storage.savePrivateKey]
  have sizedAfter := (lawful.size_commit _).trans ((writeKey_size lawful address key (List.finRange 32)
    (storage.initializeStorage library Storage.iotexDefaultEepromSize).eeprom).trans sized)
  refine ⟨by simp [init], fun _ => sizedAfter, ?_⟩
  intro other otherKey last i
  rcases lastSaved_concat.mp last with saves | ⟨last, distant⟩
  · obtain ⟨rfl, rfl⟩ := StorageCall.savePrivateKey.inj saves
    split_ifs with inside
    · dsimp only
      rw [lawful.read_commit]
      apply read_writeKey lawful address key (List.nodup_finRange 32) (List.mem_finRange i)
      rwa [sized]
    · apply lawful.read_outside
      rw [sizedAfter]
      exact Nat.not_lt.mp inside
  · have later := lastSaved_ne_nil last
    dsimp only
    rw [lawful.read_commit, read_writeKey_other lawful key
      (fun j _ => cellAt_ne (distant address key rfl) i j), same later, sizeBehind_concat, if_neg later]
    exact behind.keys other otherKey last i

include lawful in
/-- What a call leaves behind. -/
theorem Behind.step {prior : List StorageCall} {storage : Storage Eeprom}
    (behind : Behind library size prior storage) (call : StorageCall) :
    Behind library size (prior ++ [call]) (storage.step library call) := by
  cases call with
  | initializeStorage storageSize => exact behind.unsaved lawful rfl (by simp)
  | savePrivateKey address key => exact behind.saved lawful address key
  | readPrivateKey address => exact behind.unsaved lawful rfl (by simp)

include lawful in
theorem behind_storageAfter (eeprom : Eeprom) (calls : List StorageCall) :
    Behind library size calls (storageAfter library eeprom calls) := by
  apply @foldl_invariant _ _ calls (Storage.step library) ⟨eeprom, false⟩ (Behind library size)
  · refine ⟨by simp, fun later => absurd rfl later, ?_⟩
    intro address key last
    exact absurd rfl (lastSaved_ne_nil last)
  · intro prior storage call behind
    exact behind.step lawful call

/-! ## Reads -/

theorem ofFn_eq_iff {count : ℕ} {f : Fin count → UInt8} {bytes : Vector UInt8 count} :
    Vector.ofFn f = bytes ↔ ∀ i, f i = bytes.get i := by
  constructor
  · rintro rfl i
    exact (Vector.getElem_ofFn i.isLt).symm
  · intro each
    apply Vector.ext
    intro i inside
    rw [Vector.getElem_ofFn]
    exact each ⟨i, inside⟩

include lawful in
/-- A read behind some calls is right exactly when it touches a saved cell and the last key at its
address has zeros outside. -/
theorem keysComeBack_iff (eeprom : Eeprom) (prior : List StorageCall) (call : StorageCall) :
    KeysComeBack library eeprom prior call ↔ Recoverable prior call := by
  cases call with
  | initializeStorage storageSize => exact Iff.rfl
  | savePrivateKey address key => exact Iff.rfl
  | readPrivateKey address =>
    have behind := behind_storageAfter lawful eeprom prior
    rw [KeysComeBack, Recoverable, and_comm]
    apply and_congr
    · simp only [Storage.readPrivateKey, ne_eq, not_true_eq_false, imp_false, not_forall, not_not]
      exact exists_congr fun cell => exists_prop
    · apply forall₂_congr
      intro key last
      have later := lastSaved_ne_nil last
      obtain ⟨-, -, same⟩ := behind.initialized lawful
        (show sizeBehind [.readPrivateKey address] = Storage.iotexDefaultEepromSize.toNat from rfl)
      have read := behind.keys address key last
      simp only [Storage.readPrivateKey, same later, true_and]
      rw [ofFn_eq_iff]
      apply forall_congr'
      intro i
      change library.read _ (cellAt address i) = _ ↔ _
      rw [read i]
      split_ifs with inside
      · exact iff_of_true rfl fun outside => absurd inside (Nat.not_lt.mpr outside)
      · rw [eq_comm]
        exact (imp_iff_right (Nat.not_lt.mp inside)).symm

include lawful in
/-- In a run every read is right exactly when each of them touches a saved cell and the last key at its
address has zeros outside of the EEPROM. -/
theorem storage_keysComeBack_iff (eeprom : Eeprom) (calls : List StorageCall) :
    AtEach (KeysComeBack library eeprom) calls ↔ AtEach Recoverable calls := by
  apply atEach_congr
  intro prior call _ _
  exact keysComeBack_iff lawful eeprom prior call

end

/-! ## An EEPROM in flash memory -/

/-- The flash memory, the copy in memory that is worked on, and its size. -/
structure FlashEeprom where
  flash : UInt32 → UInt8
  buffer : UInt32 → UInt8
  size : ℕ

def flashLibrary : EepromLibrary FlashEeprom where
  begin eeprom count := { eeprom with buffer := eeprom.flash, size := count.toNat }
  write eeprom address value :=
    { eeprom with
      buffer := fun cell => if cell = address ∧ address.toNat < eeprom.size then value else eeprom.buffer cell }
  read eeprom address := if address.toNat < eeprom.size then eeprom.buffer address else 0
  commit eeprom := { eeprom with flash := eeprom.buffer }

theorem flashLibrary_lawful : flashLibrary.Lawful FlashEeprom.size where
  size_begin _ _ := rfl
  size_write _ _ _ := rfl
  size_commit _ := rfl
  read_write eeprom address value inside := by simp [flashLibrary, inside]
  read_write_other eeprom address other value different := by simp [flashLibrary, different]
  read_commit _ _ := rfl
  read_outside eeprom address outside := if_neg (Nat.not_lt.mpr outside)

namespace KeyStore

/-- An erased flash memory, without a size. -/
def erased : FlashEeprom := ⟨fun _ => 255, fun _ => 255, 0⟩

def key : Vector UInt8 32 := Vector.replicate 32 1

/-- A key at the end of an EEPROM of 64 cells, and its read. -/
def atEnd : List StorageCall := [.initializeStorage 64, .savePrivateKey 32 key]

/-- A key that starts twelve cells in front of the end of an EEPROM of the default size. -/
def acrossEnd : List StorageCall := [.savePrivateKey 500 key]

theorem recoverable_atEnd : AtEach Recoverable (atEnd ++ [.readPrivateKey 32]) := by
  have calls : atEnd = [] ++ [.initializeStorage 64] ++ [.savePrivateKey 32 key] := rfl
  rw [atEach_concat, calls, atEach_concat, atEach_concat, ← calls]
  refine ⟨⟨⟨atEach_nil, trivial⟩, trivial⟩, ⟨32, ⟨0, rfl⟩, 32, key, by simp [atEnd], ⟨0, rfl⟩⟩, ?_⟩
  intro key last i outside
  have cell := cellAt_toNat 32 i
  have small := i.isLt
  have size : sizeBehind atEnd = 64 := rfl
  have start : (32 : UInt32).toNat = 32 := rfl
  omega

end KeyStore

open KeyStore

theorem keyAtEnd_comesBack : AtEach (KeysComeBack flashLibrary erased) (atEnd ++ [.readPrivateKey 32]) :=
  (storage_keysComeBack_iff flashLibrary_lawful erased _).mpr recoverable_atEnd

/-- A read of an erased memory is a success, and a key across the end loses its last twenty bytes. -/
theorem erased_read_succeeds :
    ((storageAfter flashLibrary erased []).readPrivateKey flashLibrary 0).1 = .success ∧
      ¬AtEach (KeysComeBack flashLibrary erased) [.readPrivateKey 0] ∧
      ((storageAfter flashLibrary erased acrossEnd).readPrivateKey flashLibrary 500).2.1.toList =
        List.replicate 12 1 ++ List.replicate 20 0 ∧
      ¬AtEach (KeysComeBack flashLibrary erased) (acrossEnd ++ [.readPrivateKey 500]) := by
  refine ⟨rfl, ?_, by decide +kernel, ?_⟩
  · intro each
    have first := each [] (.readPrivateKey 0) [] rfl
    obtain ⟨⟨cell, -, address, key, member, -⟩, -⟩ := (keysComeBack_iff flashLibrary_lawful erased _ _).mp first
    simp at member
  · intro each
    have last := (atEach_concat.mp each).2
    obtain ⟨-, zeros⟩ := (keysComeBack_iff flashLibrary_lawful erased _ _).mp last
    have zero := zeros key ⟨[], [], rfl, by simp⟩ 12 (by decide)
    exact absurd zero (by decide)

end Iotex
