import Mathlib.Data.Set.Card
import Mathlib.Data.Set.NAry

/-! # Sets of strings that correspond

Two sets of strings whose members can be exchanged one for one, with a measure that the exchange keeps.
Such sets have equally many members of each measure. Exchanges are put together from those of the parts
that strings are made of, where the first part of a string can be told from the second.
-/

namespace Iotex

variable {Letter Measure : Type}

/-- A one to one correspondence of two sets that keeps a measure. -/
def Exchanged (measure : List Letter → Measure) (A B : Set (List Letter)) : Prop :=
  ∃ f : List Letter → List Letter, Set.BijOn f A B ∧ ∀ string ∈ A, measure (f string) = measure string

/-- No member of the set is longer than another that begins like it. -/
def PrefixFree (A : Set (List Letter)) : Prop :=
  ∀ first ∈ A, ∀ other ∈ A, ∀ rest more, first ++ rest = other ++ more → first = other

namespace Exchanged

variable {measure : List Letter → Measure} {A B C D : Set (List Letter)}

theorem refl : Exchanged measure A A := ⟨id, Set.bijOn_id A, fun _ _ => rfl⟩

theorem trans (first : Exchanged measure A B) (second : Exchanged measure B C) : Exchanged measure A C := by
  obtain ⟨f, bijective, keeps⟩ := first
  obtain ⟨g, later, keepsLater⟩ := second
  refine ⟨g ∘ f, later.comp bijective, fun string member => ?_⟩
  rw [Function.comp_apply, keepsLater _ (bijective.mapsTo member), keeps string member]

theorem symm (exchanged : Exchanged measure A B) : Exchanged measure B A := by
  obtain ⟨f, bijective, keeps⟩ := exchanged
  have inverse := bijective.invOn_invFunOn
  have backwards := bijective.symm inverse.symm
  refine ⟨_, backwards, fun string member => ?_⟩
  rw [← keeps _ (backwards.mapsTo member), inverse.2 member]

/-- A measure that is computed from the one kept is kept. -/
theorem coarsen {Coarse : Type} (exchanged : Exchanged measure A B) (summary : Measure → Coarse) :
    Exchanged (fun string => summary (measure string)) A B := by
  obtain ⟨f, bijective, keeps⟩ := exchanged
  exact ⟨f, bijective, fun string member => congrArg summary (keeps string member)⟩

/-- Equally many members have each measure. -/
theorem ncard_eq (exchanged : Exchanged measure A B) (value : Measure) :
    {string ∈ A | measure string = value}.ncard = {string ∈ B | measure string = value}.ncard := by
  obtain ⟨f, bijective, keeps⟩ := exchanged
  refine Set.ncard_congr (fun string _ => f string) ?_ ?_ ?_
  · rintro string ⟨member, measured⟩
    exact ⟨bijective.mapsTo member, (keeps string member).trans measured⟩
  · rintro string other ⟨member, -⟩ ⟨otherMember, -⟩ same
    exact bijective.injOn member otherMember same
  · rintro string ⟨member, measured⟩
    obtain ⟨origin, inside, rfl⟩ := bijective.surjOn member
    exact ⟨origin, ⟨inside, (keeps origin inside).symm.trans measured⟩, rfl⟩

/-- The parts of strings are exchanged, if the first can be told from the second. -/
theorem append (first : Exchanged List.length A B) (second : Exchanged List.length C D) (free : PrefixFree A)
    (otherFree : PrefixFree B) :
    Exchanged List.length (Set.image2 (· ++ ·) A C) (Set.image2 (· ++ ·) B D) := by
  obtain ⟨f, bijective, keeps⟩ := first
  obtain ⟨g, later, keepsLater⟩ := second
  have joins {X Y : Set (List Letter)} (free : PrefixFree X) :
      Set.BijOn (fun parts : List Letter × List Letter => parts.1 ++ parts.2) (X ×ˢ Y) (Set.image2 (· ++ ·) X Y) := by
    refine ⟨?_, ?_, ?_⟩
    · rintro parts ⟨inside, behind⟩
      exact Set.mem_image2_of_mem inside behind
    · rintro ⟨a, c⟩ ⟨inside, -⟩ ⟨b, d⟩ ⟨other, -⟩ same
      obtain rfl := free a inside b other c d same
      exact congrArg (a, ·) (List.append_cancel_left same)
    · rintro string ⟨a, inside, c, behind, rfl⟩
      exact ⟨(a, c), ⟨inside, behind⟩, rfl⟩
  have splits := (@joins A C free).invOn_invFunOn
  have apart := (joins free).symm splits.symm
  refine ⟨_, (joins otherFree).comp ((bijective.prodMap later).comp apart), fun string member => ?_⟩
  have inside := apart.mapsTo member
  have whole := splits.2 member
  dsimp only [Function.comp_apply, Prod.map]
  rw [List.length_append, keeps _ inside.1, keepsLater _ inside.2, ← List.length_append]
  exact congrArg List.length whole

/-- A last part of the same length is exchanged, whatever stands in front of it. -/
theorem last (A : Set (List Letter)) {x y : List Letter} (same : x.length = y.length) :
    Exchanged List.length (Set.image2 (· ++ ·) A {x}) (Set.image2 (· ++ ·) A {y}) := by
  have front (string last : List Letter) : (string ++ last).take ((string ++ last).length - last.length) = string := by
    rw [List.length_append, Nat.add_sub_cancel, List.take_left]
  rw [Set.image2_singleton_right, Set.image2_singleton_right]
  refine ⟨fun string => string.take (string.length - x.length) ++ y, ⟨?_, ?_, ?_⟩, ?_⟩
  · rintro _ ⟨a, inside, rfl⟩
    exact ⟨a, inside, congrArg (· ++ y) (front a x).symm⟩
  · rintro _ ⟨a, -, rfl⟩ _ ⟨b, -, rfl⟩ equal
    simp only [front] at equal
    exact congrArg (· ++ x) (List.append_cancel_right equal)
  · rintro _ ⟨a, inside, rfl⟩
    exact ⟨a ++ x, ⟨a, inside, rfl⟩, congrArg (· ++ y) (front a x)⟩
  · rintro _ ⟨a, -, rfl⟩
    simp only [front]
    rw [List.length_append, List.length_append, same]

end Exchanged

end Iotex
