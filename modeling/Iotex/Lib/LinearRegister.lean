import Mathlib.Data.List.Basic

/-! # Checksums computed by a linear register

A register that absorbs symbols one by one and is linear under exclusive or, in its state and in
the symbols. Symbols in place of zeros change the final state by what they alone leave in an empty
register, so the last symbols can be chosen to reach any state they can spell.
-/

namespace Iotex

structure LinearRegister (State Symbol : Type) [XorOp State] [XorOp Symbol] where
  step : State → Symbol → State
  step_xor : ∀ c d x y, step (c ^^^ d) (x ^^^ y) = step c x ^^^ step d y

namespace LinearRegister

variable {State Symbol : Type} [XorOp State] [XorOp Symbol] (register : LinearRegister State Symbol)

/-- The state after a list of symbols. -/
def absorb (state : State) (symbols : List Symbol) : State := symbols.foldl register.step state

theorem absorb_append (state : State) (xs ys : List Symbol) :
    register.absorb state (xs ++ ys) = register.absorb (register.absorb state xs) ys := List.foldl_append

/-- Absorbing is linear for lists of one length. -/
theorem absorb_xor (c d : State) {xs ys : List Symbol} (lengths : xs.length = ys.length) :
    register.absorb (c ^^^ d) (List.zipWith (· ^^^ ·) xs ys) = register.absorb c xs ^^^ register.absorb d ys := by
  induction xs generalizing c d ys with
  | nil =>
    obtain rfl : ys = [] := List.length_eq_zero_iff.mp lengths.symm
    rfl
  | cons x xs ih =>
    cases ys with
    | nil => simp at lengths
    | cons y ys =>
      simp only [absorb, List.zipWith_cons_cons, List.foldl_cons, register.step_xor] at ih ⊢
      exact ih _ _ (Nat.succ.inj lengths)

section

variable [OfNat State 0] [OfNat Symbol 0] (xor_zero : ∀ state : State, state ^^^ 0 = state)
  (zero_xor : ∀ symbol : Symbol, 0 ^^^ symbol = symbol)
include xor_zero zero_xor

/-- Symbols change the state that zeros lead to by what they leave in an empty register. -/
theorem absorb_eq_xor (state : State) (symbols : List Symbol) :
    register.absorb state symbols =
      register.absorb state (List.replicate symbols.length 0) ^^^ register.absorb 0 symbols := by
  have zeros : List.zipWith (· ^^^ ·) (List.replicate symbols.length 0) symbols = symbols := by
    induction symbols with
    | nil => rfl
    | cons symbol rest ih => rw [List.length_cons, List.replicate_succ, List.zipWith_cons_cons, zero_xor, ih]
  rw [← register.absorb_xor _ _ (List.length_replicate), zeros, xor_zero]

/-- Symbols that spell the difference to a target lead to the target. -/
theorem absorb_checksum (cancel : ∀ a b : State, a ^^^ (a ^^^ b) = b) (state target : State) (symbols : List Symbol)
    (spelled : register.absorb 0 symbols =
      register.absorb state (List.replicate symbols.length 0) ^^^ target) :
    register.absorb state symbols = target := by
  rw [register.absorb_eq_xor xor_zero zero_xor, spelled, cancel]

end

end LinearRegister

end Iotex
