import Mathlib.Data.List.Basic
import Mathlib.Tactic.Common

/-! # Input that is taken in block by block

A state that takes whole blocks, with the items that have come in behind the last of them. What is
left behind an input depends on the input only, not on the pieces it was handed over in; an
implementation that moves whole blocks at once is compared with this one item by item.
-/

namespace Iotex

structure Absorption (State Item : Type) where
  state : State
  pending : List Item

namespace Absorption

variable {State Item : Type} (block : State → List Item → State) (rate : ℕ)

/-- One more item; the block that it completes is taken in. -/
def feedOne (absorption : Absorption State Item) (item : Item) : Absorption State Item :=
  let pending := absorption.pending ++ [item]
  if pending.length = rate then ⟨block absorption.state pending, []⟩ else ⟨absorption.state, pending⟩

def feed (absorption : Absorption State Item) (items : List Item) : Absorption State Item :=
  items.foldl (feedOne block rate) absorption

variable {block rate} {state : State} {absorption : Absorption State Item} {pending items : List Item}

@[simp] theorem feed_nil : feed block rate absorption [] = absorption := rfl

theorem feed_append (first second : List Item) :
    feed block rate absorption (first ++ second) = feed block rate (feed block rate absorption first) second :=
  List.foldl_append

/-- Items that do not complete a block wait. -/
theorem feed_short (short : pending.length + items.length < rate) :
    feed block rate ⟨state, pending⟩ items = ⟨state, pending ++ items⟩ := by
  induction items generalizing pending with
  | nil => rw [feed_nil, List.append_nil]
  | cons item rest ih =>
    rw [List.length_cons] at short
    have longer : (pending ++ [item]).length = pending.length + 1 := List.length_append
    have step : feedOne block rate ⟨state, pending⟩ item = ⟨state, pending ++ [item]⟩ :=
      if_neg (show (pending ++ [item]).length ≠ rate by omega)
    rw [feed, List.foldl_cons, step, ← feed, ih (by omega), List.append_assoc, List.singleton_append]

/-- Items that complete a block. -/
theorem feed_block (some : items ≠ []) (full : pending.length + items.length = rate) :
    feed block rate ⟨state, pending⟩ items = ⟨block state (pending ++ items), []⟩ := by
  obtain ⟨first, last, rfl⟩ := (List.eq_nil_or_concat' items).resolve_left some
  rw [List.length_append, List.length_singleton] at full
  have closes : (pending ++ first ++ [last]).length = rate := by
    simp only [List.length_append, List.length_singleton]
    omega
  have step : feedOne block rate ⟨state, pending ++ first⟩ last = ⟨block state (pending ++ first ++ [last]), []⟩ :=
    if_pos closes
  have waiting : feed block rate ⟨state, pending⟩ first = ⟨state, pending ++ first⟩ := feed_short (by omega)
  rw [feed_append, waiting, feed, List.foldl_cons, step, List.foldl_nil, List.append_assoc]

end Absorption

end Iotex
