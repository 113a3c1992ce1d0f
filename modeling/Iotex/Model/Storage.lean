import Iotex.Model.Machine

/-! # Private keys in the EEPROM

The storage of the ESP boards. The EEPROM library of the board is a parameter, whose one object is
passed along; the flag tells whether its size was set. A storage ID is an address in the EEPROM, and
addresses wrap around at 32 bits.
-/

namespace Iotex

/-- The EEPROM library, on the state of its object. -/
structure EepromLibrary (Eeprom : Type) where
  begin : Eeprom → UInt32 → Eeprom
  write : Eeprom → UInt32 → UInt8 → Eeprom
  read : Eeprom → UInt32 → UInt8
  commit : Eeprom → Eeprom

/-- The EEPROM and `Storage::_init`. -/
structure Storage (Eeprom : Type) where
  eeprom : Eeprom
  init : Bool := false

namespace Storage

def iotexDefaultEepromSize : UInt32 := 512

variable {Eeprom : Type} (library : EepromLibrary Eeprom)

/-- `Initialize`: only the first call has an effect. -/
def initializeStorage (storage : Storage Eeprom) (storageSize : UInt32) : Storage Eeprom :=
  if storage.init then storage else ⟨library.begin storage.eeprom storageSize, true⟩

/-- The loop of `savePrivateKey` over the given indices. -/
def writeKey (eepromAddress : UInt32) (privateKey : Vector UInt8 32) (indices : List (Fin 32)) (eeprom : Eeprom) :
    Eeprom :=
  indices.foldl (fun eeprom (i : Fin 32) => library.write eeprom (eepromAddress + UInt32.ofNat i) privateKey[i]) eeprom

def savePrivateKey (storage : Storage Eeprom) (eepromAddress : UInt32) (privateKey : Vector UInt8 32) :
    ResultCode × Storage Eeprom :=
  let storage := storage.initializeStorage library iotexDefaultEepromSize
  let eeprom := writeKey library eepromAddress privateKey (List.finRange 32) storage.eeprom
  (.success, { storage with eeprom := library.commit eeprom })

/-- `readPrivateKey`: the result, the caller's array and the storage. -/
def readPrivateKey (storage : Storage Eeprom) (eepromAddress : UInt32) :
    ResultCode × Vector UInt8 32 × Storage Eeprom :=
  let storage := storage.initializeStorage library iotexDefaultEepromSize
  (.success, Vector.ofFn fun (i : Fin 32) => library.read storage.eeprom (eepromAddress + UInt32.ofNat i), storage)

end Storage

/-- A call of the storage. -/
inductive StorageCall where
  | initializeStorage (storageSize : UInt32)
  | savePrivateKey (eepromAddress : UInt32) (privateKey : Vector UInt8 32)
  | readPrivateKey (eepromAddress : UInt32)
deriving DecidableEq

/-- The storage behind a call. -/
def Storage.step {Eeprom : Type} (library : EepromLibrary Eeprom) (storage : Storage Eeprom) :
    StorageCall → Storage Eeprom
  | .initializeStorage storageSize => storage.initializeStorage library storageSize
  | .savePrivateKey eepromAddress privateKey => (storage.savePrivateKey library eepromAddress privateKey).2
  | .readPrivateKey eepromAddress => (storage.readPrivateKey library eepromAddress).2.2

end Iotex
