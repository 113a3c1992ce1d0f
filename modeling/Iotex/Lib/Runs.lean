import Mathlib.Data.List.Induction
import Mathlib.Tactic.Common

/-! # Runs of a state machine

A run is the list of the calls that were made, in order. What must hold of a call may depend on the
calls in front of it, so a property of runs is a property of every call and its past. What is known
of the state behind a run is proved by one induction, which looks at the last call.
-/

namespace Iotex.Runs

variable {Call State : Type} {property other : List Call → Call → Prop} {calls : List Call}

/-- Every call of the run has the property, given the calls in front of it. -/
def AtEach (property : List Call → Call → Prop) (calls : List Call) : Prop :=
  ∀ prior call later, calls = prior ++ call :: later → property prior call

theorem atEach_nil : AtEach property [] := by
  intro prior call later same
  simp at same

/-- The last call of a run comes after all the others. -/
theorem atEach_concat {call : Call} :
    AtEach property (calls ++ [call]) ↔ AtEach property calls ∧ property calls call := by
  constructor
  · intro each
    refine ⟨?_, each calls call [] rfl⟩
    intro prior before later same
    apply each prior before (later ++ [call])
    rw [same, List.append_assoc, List.cons_append]
  · rintro ⟨each, last⟩ prior next later same
    rcases List.eq_nil_or_concat later with rfl | ⟨later, final, rfl⟩
    · obtain ⟨rfl, ends⟩ := List.append_inj' same rfl
      obtain rfl := List.head_eq_of_cons_eq ends
      exact last
    · rw [List.concat_eq_append, ← List.cons_append, ← List.append_assoc] at same
      exact each prior next later (List.append_inj' same rfl).1

/-- Properties that agree at every call whose past has them. -/
theorem atEach_congr (same : ∀ prior call, AtEach property prior → AtEach other prior →
    (property prior call ↔ other prior call)) : AtEach property calls ↔ AtEach other calls := by
  induction calls using List.reverseRecOn with
  | nil => exact iff_of_true atEach_nil atEach_nil
  | append_singleton calls call ih =>
    rw [atEach_concat, atEach_concat]
    constructor
    · rintro ⟨each, last⟩
      exact ⟨ih.mp each, (same calls call each (ih.mp each)).mp last⟩
    · rintro ⟨each, last⟩
      exact ⟨ih.mpr each, (same calls call (ih.mpr each) each).mpr last⟩

/-- What every call keeps, given the calls so far, holds of the state behind a run. -/
theorem foldl_invariant {step : State → Call → State} {initial : State} {invariant : List Call → State → Prop}
    (start : invariant [] initial)
    (keeps : ∀ prior state call, invariant prior state → invariant (prior ++ [call]) (step state call)) :
    invariant calls (calls.foldl step initial) := by
  induction calls using List.reverseRecOn with
  | nil => exact start
  | append_singleton calls call ih =>
    rw [List.foldl_append]
    exact keeps calls _ call ih

/-! ## Runs that can fail -/

section

variable {Fault View : Type} {step : State → Call → Except Fault State} {initial : State}

/-- A run of calls that pass and keep what is seen of the state does so as a whole. -/
theorem foldlM_passes {view : State → View}
    (passes : ∀ call ∈ calls, ∀ state, ∃ next, step state call = .ok next ∧ view next = view state) :
    ∃ left, calls.foldlM step initial = .ok left ∧ view left = view initial := by
  induction calls generalizing initial with
  | nil => exact ⟨initial, rfl, rfl⟩
  | cons call rest ih =>
    obtain ⟨next, passed, same⟩ := passes call List.mem_cons_self initial
    obtain ⟨left, run, kept⟩ := @ih next fun later member => passes later (List.mem_cons_of_mem _ member)
    refine ⟨left, ?_, kept.trans same⟩
    rw [List.foldlM_cons, passed]
    exact run

/-- A run with a call that fails on every state fails. -/
theorem foldlM_fails {call : Call} (member : call ∈ calls) (fails : ∀ state, ∃ fault, step state call = .error fault) :
    ∃ fault, calls.foldlM step initial = .error fault := by
  induction calls generalizing initial with
  | nil => simp at member
  | cons first rest ih =>
    rw [List.foldlM_cons]
    cases ran : step initial first with
    | error fault => exact ⟨fault, rfl⟩
    | ok next =>
      rcases List.mem_cons.mp member with rfl | member
      · obtain ⟨fault, failed⟩ := fails initial
        simp [ran] at failed
      · exact ih member

end

end Iotex.Runs
