import Iotex.Model.Machine

/-! # Random bytes on the ESP8266

The generator of private keys on this board, where `int`, `long` and `size_t` all have 32 bits. The loops
run on the bits that the hardware register has delivered so far, and wait when these are used up.
-/

namespace Iotex

/-- A computation that draws random bits: its result and the bits behind those it used, or nothing while
it waits for more. -/
def Draw (α : Type) := List Bool → Exec (Option (α × List Bool))

namespace Draw

variable {α β : Type}

instance : Monad Draw where
  pure value bits := .ok (some (value, bits))
  bind first next bits := do
    match ← first bits with
    | none => return none
    | some (value, bits) => next value bits

/-- A computation that draws no bits. -/
def exec (computation : Exec α) : Draw α := fun bits => computation.map fun value => some (value, bits)

/-- A loop over the bits. -/
def loop (result : List Bool → Option (α × List Bool)) : Draw α := fun bits => .ok (result bits)

/-- The draw has the result on the bits and leaves the rest of them. -/
def Returns (draw : Draw α) (bits : List Bool) (value : α) (rest : List Bool) : Prop :=
  draw bits = .ok (some (value, rest))

theorem returns_pure {bits rest : List Bool} {value result : α} :
    Returns (pure value) bits result rest ↔ value = result ∧ bits = rest := by
  simp only [Returns, pure, Except.ok.injEq, Option.some.injEq, Prod.mk.injEq]

theorem returns_exec {computation : Exec α} {bits rest : List Bool} {result : α} :
    Returns (exec computation) bits result rest ↔ computation = .ok result ∧ bits = rest := by
  rw [Returns, exec, map_eq_ok]
  simp only [Option.some.injEq, Prod.mk.injEq]
  constructor
  · rintro ⟨value, returned, rfl, left⟩
    exact ⟨returned, left⟩
  · rintro ⟨returned, left⟩
    exact ⟨result, returned, rfl, left⟩

theorem returns_loop {run : List Bool → Option (α × List Bool)} {bits rest : List Bool} {result : α} :
    Returns (loop run) bits result rest ↔ run bits = some (result, rest) := by
  rw [Returns, loop, Except.ok.injEq]

/-- A draw returns through a draw that returned. -/
theorem returns_bind {first : Draw α} {next : α → Draw β} {bits rest : List Bool} {result : β} :
    Returns (first >>= next) bits result rest ↔
      ∃ value between, Returns first bits value between ∧ Returns (next value) between result rest := by
  change (first bits >>= _) = _ ↔ _
  rw [bind_eq_ok]
  constructor
  · rintro ⟨drawn, ran, later⟩
    cases drawn with
    | none => simp at later
    | some drawn => exact ⟨drawn.1, drawn.2, ran, later⟩
  · rintro ⟨value, between, ran, later⟩
    exact ⟨some (value, between), ran, later⟩

end Draw

namespace ESP8266TrueRandom

/-- The loop of `randomBitRaw2` and of `randomBit`: two bits at a time, until they differ. -/
def whiten : List Bool → List Bool
  | a :: b :: bits => if a = b then whiten bits else b :: whiten bits
  | _ => []

/-- The results of `randomBit`, call by call, on the results of `randomBitRaw`. -/
def randomBits (raw : List Bool) : List Bool := whiten (whiten raw)

/-- The loop for a range that is not a power of two; its test comes after its body. -/
def drawBelow (howBig topBit : ℕ) : List Bool → ℕ → ℕ → Option (ℕ × List Bool)
  | [], _, _ => none
  | bit :: bits, randomValue, bitPosition =>
    let randomValue := if bit then randomValue ||| bitPosition else randomValue
    -- a number over the top limit starts again
    let (randomValue, bitPosition) := if howBig ≤ randomValue then (0, topBit) else (randomValue, bitPosition >>> 1)
    if bitPosition = 0 then some (randomValue, bits) else drawBelow howBig topBit bits randomValue bitPosition

/-- The loop for a power of two; its test comes before its body. -/
def drawBits : List Bool → ℕ → ℕ → Option (ℕ × List Bool)
  | [], randomValue, bitPosition => if bitPosition = 0 then some (randomValue, []) else none
  | bit :: bits, randomValue, bitPosition =>
    if bitPosition = 0 then some (randomValue, bit :: bits)
    else drawBits bits (if bit then randomValue ||| bitPosition else randomValue) (bitPosition >>> 1)

/-- `topBit` after the assignments that set all bits below its highest. -/
def fillTopBit (topBit : ℕ) : ℕ :=
  let topBit := topBit ||| topBit >>> 1
  let topBit := topBit ||| topBit >>> 2
  let topBit := topBit ||| topBit >>> 4
  let topBit := topBit ||| topBit >>> 8
  topBit ||| topBit >>> 16

/-- `random` of a bound that is not negative; the other overload passes no other. -/
def random (howBig : ℕ) : Draw ℕ :=
  if howBig = 0 then pure 0
  else if howBig &&& (howBig - 1) ≠ 0 then do
    let topBit ← Draw.exec (addInt (fillTopBit (howBig - 1)) 1)
    let topBit := topBit.toNat >>> 1
    Draw.loop fun bits => drawBelow howBig topBit bits 0 topBit
  else Draw.loop fun bits => drawBits bits 0 (howBig >>> 1)

/-- `random` of two bounds, of which the upper one is left out. -/
def randomBetween (howSmall howBig : ℤ) : Draw ℤ :=
  if howBig ≤ howSmall then pure howSmall
  else do
    let diff ← Draw.exec (addInt howBig (-howSmall))
    let value ← random diff.toNat
    Draw.exec (addInt value howSmall)

end ESP8266TrueRandom

namespace Random

/-- The loop of `fillRandom`; the number is converted to the type of the element. -/
def fillBytes : ℕ → Draw Bytes
  | 0 => pure []
  | size + 1 => do
    let value ← ESP8266TrueRandom.randomBetween 1 255
    let buf ← fillBytes size
    return UInt8.ofNat (value % 2 ^ 8).toNat :: buf

/-- `fillRandom` on the results of `randomBit`: the contents of the buffer. The counter is an `int`. -/
def fillRandom (size : ℕ) : Draw Bytes := do
  Draw.exec (countInt size)
  fillBytes size

end Random

end Iotex
