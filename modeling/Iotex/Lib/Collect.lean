import Mathlib.Data.List.Forall2
import Mathlib.Data.List.Basic

/-! # Loops that collect what they parse

A loop over items that appends the values of each to an output and stops at the first item it
refuses. An item may be parsed differently at different positions, as when each position has memory
of its own; the results relate items and values whatever the position.
-/

namespace Iotex

theorem exists_of_forall₂ {α β : Type} {related : α → β → Prop} {items : List α} {values : List β}
    (each : List.Forall₂ related items values) {item : α} (member : item ∈ items) : ∃ value, related item value := by
  induction each with
  | nil => simp at member
  | cons head _ ih =>
    rcases List.mem_cons.mp member with rfl | member
    · exact ⟨_, head⟩
    · exact ih member

theorem forall₂_both {α β : Type} {related same : α → β → Prop} {items : List α} {values : List β}
    (each : List.Forall₂ related items values) (each' : List.Forall₂ same items values) :
    List.Forall₂ (fun item value => related item value ∧ same item value) items values := by
  induction each with
  | nil => exact .nil
  | cons head _ ih =>
    rcases each' with _ | ⟨head', tail'⟩
    exact .cons ⟨head, head'⟩ (ih tail')

section

variable {Fault Item Value : Type} (parse : ℕ → Item → Except Fault (Option (List Value)))

/-- The loop from a position on: whether it got to the end, and the output. -/
def collect : ℕ → List Item → List Value → Except Fault (Bool × List Value)
  | _, [], out => .ok (true, out)
  | position, item :: rest, out =>
    match parse position item with
    | .error fault => .error fault
    | .ok none => .ok (false, out)
    | .ok (some values) => collect (position + 1) rest (out ++ values)

variable {parse}

theorem collect_cons_some {position : ℕ} {item : Item} {values : List Value} (rest : List Item) (out : List Value)
    (parsed : parse position item = .ok (some values)) :
    collect parse position (item :: rest) out = collect parse (position + 1) rest (out ++ values) := by
  rw [collect, parsed]

theorem collect_cons_none {position : ℕ} {item : Item} (rest : List Item) (out : List Value)
    (refused : parse position item = .ok none) : collect parse position (item :: rest) out = .ok (false, out) := by
  rw [collect, refused]

/-- A loop that returned parsed the items in front of the one it refused, or all of them, and
appended what it parsed. -/
theorem collect_eq_ok {position : ℕ} {items : List Item} {out left : List Value} {done : Bool}
    (ran : collect parse position items out = .ok (done, left)) :
    ∃ before after pieces, items = before ++ after ∧ left = out ++ pieces.flatten ∧
      List.Forall₂ (fun item values => ∃ position, parse position item = .ok (some values)) before pieces ∧
      (done = true ∧ after = [] ∨
        done = false ∧ ∃ item rest position, after = item :: rest ∧ parse position item = .ok none) := by
  induction items generalizing position out with
  | nil =>
    obtain ⟨rfl, rfl⟩ := Prod.mk.inj (Except.ok.inj ran)
    exact ⟨[], [], [], rfl, by simp, .nil, .inl ⟨rfl, rfl⟩⟩
  | cons item rest ih =>
    rw [collect] at ran
    split at ran
    · simp at ran
    · rename_i refused
      obtain ⟨rfl, rfl⟩ := Prod.mk.inj (Except.ok.inj ran)
      exact ⟨[], item :: rest, [], rfl, by simp, .nil, .inr ⟨rfl, item, rest, position, rfl, refused⟩⟩
    · rename_i values parsed
      obtain ⟨before, after, pieces, rfl, rfl, each, ends⟩ := ih ran
      exact ⟨item :: before, after, values :: pieces, rfl, by simp, .cons ⟨position, parsed⟩ each, ends⟩

/-- Items that are parsed at every position are collected. -/
theorem collect_of_each {good : Item → List Value → Prop} {items : List Item}
    (each : ∀ item ∈ items, ∀ position, ∃ values, parse position item = .ok (some values) ∧ good item values)
    (position : ℕ) (out : List Value) :
    ∃ pieces, List.Forall₂ good items pieces ∧
      collect parse position items out = .ok (true, out ++ pieces.flatten) := by
  induction items generalizing position out with
  | nil => exact ⟨[], .nil, by simp [collect]⟩
  | cons item rest ih =>
    obtain ⟨values, parsed, fine⟩ := each item List.mem_cons_self position
    obtain ⟨pieces, others, ran⟩ :=
      ih (fun other member => each other (List.mem_cons_of_mem _ member)) (position + 1) (out ++ values)
    refine ⟨values :: pieces, .cons fine others, ?_⟩
    rw [collect_cons_some rest out parsed, ran, List.flatten_cons, List.append_assoc]

/-- The loop returns on items that do not fault. -/
theorem collect_returns {items : List Item}
    (quiet : ∀ item ∈ items, ∀ position, ∃ result, parse position item = .ok result) (position : ℕ) (out : List Value) :
    ∃ result, collect parse position items out = .ok result := by
  induction items generalizing position out with
  | nil => exact ⟨_, rfl⟩
  | cons item rest ih =>
    obtain ⟨result, parsed⟩ := quiet item List.mem_cons_self position
    cases result with
    | none => exact ⟨_, collect_cons_none rest out parsed⟩
    | some values =>
      rw [collect_cons_some rest out parsed]
      exact ih (fun other member => quiet other (List.mem_cons_of_mem _ member)) (position + 1) (out ++ values)

/-- An item that is refused at every position ends the loop behind items that do not fault. -/
theorem collect_refused {before rest : List Item} {item : Item}
    (quiet : ∀ other ∈ before, ∀ position, ∃ result, parse position other = .ok result)
    (refused : ∀ position, parse position item = .ok none) (position : ℕ) (out : List Value) :
    ∃ left, collect parse position (before ++ item :: rest) out = .ok (false, left) := by
  induction before generalizing position out with
  | nil => exact ⟨out, collect_cons_none rest out (refused position)⟩
  | cons other others ih =>
    obtain ⟨result, parsed⟩ := quiet other List.mem_cons_self position
    cases result with
    | none => exact ⟨out, collect_cons_none _ out parsed⟩
    | some values =>
      rw [List.cons_append, collect_cons_some _ out parsed]
      exact ih (fun other member => quiet other (List.mem_cons_of_mem _ member)) (position + 1) (out ++ values)

/-- Items without values leave the output alone. -/
theorem collect_skipped {before : List Item}
    (skipped : ∀ item ∈ before, ∀ position, parse position item = .ok (some [])) (rest : List Item) (position : ℕ)
    (out : List Value) :
    collect parse position (before ++ rest) out = collect parse (position + before.length) rest out := by
  induction before generalizing position with
  | nil => rfl
  | cons item others ih =>
    rw [List.cons_append, collect_cons_some _ out (skipped item List.mem_cons_self position), List.append_nil,
      ih (fun other member => skipped other (List.mem_cons_of_mem _ member)) (position + 1), List.length_cons]
    congr 1
    omega

/-- One value for each item that is kept and none for the others. -/
theorem forall₂_filter_flatten {related : Item → Value → Prop} {keep : Item → Bool} {items : List Item}
    {pieces : List (List Value)}
    (each : List.Forall₂ (fun item values =>
      if keep item = true then ∃ value, values = [value] ∧ related item value else values = []) items pieces) :
    List.Forall₂ related (items.filter keep) pieces.flatten := by
  induction each with
  | nil => exact .nil
  | @cons item values items pieces first _ ih =>
    split_ifs at first with kept
    · obtain ⟨value, rfl, same⟩ := first
      rw [List.filter_cons_of_pos kept]
      exact .cons same ih
    · subst first
      rwa [List.filter_cons_of_neg kept]

end

end Iotex
