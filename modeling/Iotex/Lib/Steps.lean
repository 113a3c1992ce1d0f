import Mathlib.Tactic.Common

/-! # Runs with early returns

A parser that fills an object member by member, as imperative code writes it: each step changes
the object and either goes on or returns with a code, and the last step's success is the code of
the run. The rules relate a run to the value that the members have together, if they all have one,
and two runs of the same steps on objects that agree in some of their parts.
-/

namespace Iotex

/-- A step on an object: the code of an early return, if it is one, and the object behind it. -/
abbrev Step (Fault Code Object : Type) := Object → Except Fault (Option Code × Object)

namespace Step

variable {Fault Code Object Part Member Value : Type} {finished : Code}

/-- The steps one after the other, up to the first return. -/
def run (finished : Code) : List (Step Fault Code Object) → Object → Except Fault (Code × Object)
  | [], object => .ok (finished, object)
  | step :: rest, object => do
    match ← step object with
    | (some code, object) => return (code, object)
    | (none, object) => run finished rest object

/-- A step on a part of the object. -/
def on (get : Object → Part) (set : Object → Part → Object) (step : Step Fault Code Part) : Step Fault Code Object :=
  fun object => do
    let (returned, part) ← step (get object)
    return (returned, set object part)

/-- The step stores the member's value and goes on, or returns with another code than the run's end
when the member has no value. -/
def Reads (finished : Code) (step : Step Fault Code Object) (object : Object) (member : Option Member)
    (store : Member → Object) : Prop :=
  match member with
  | some value => step object = .ok (none, store value)
  | none => ∃ code left, code ≠ finished ∧ step object = .ok (some code, left)

/-- The run ends with the object of the value, or returns with another code when there is no value. -/
def Delivers (finished : Code) (result : Except Fault (Code × Object)) (value : Option Object) : Prop :=
  match value with
  | some object => result = .ok (finished, object)
  | none => ∃ code left, code ≠ finished ∧ result = .ok (code, left)

/-- Two results that fail in the same way, which is tolerated, or return the same on related objects. -/
inductive Alike {Returned : Type} (tolerated : Fault → Prop) (related : Object → Object → Prop) :
    Except Fault (Returned × Object) → Except Fault (Returned × Object) → Prop where
  | fails {fault : Fault} (may : tolerated fault) : Alike tolerated related (.error fault) (.error fault)
  | returns {returned : Returned} {object other : Object} (same : related object other) :
    Alike tolerated related (.ok (returned, object)) (.ok (returned, other))

/-- The step does the same on related objects and leaves related ones. -/
def Keeps (tolerated : Fault → Prop) (related : Object → Object → Prop) (step : Step Fault Code Object) : Prop :=
  ∀ object other, related object other → Alike tolerated related (step object) (step other)

/-- The run returns, and with the code of its end only on an object with the property. -/
def Sound (finished : Code) (property : Object → Prop) (result : Except Fault (Code × Object)) : Prop :=
  ∃ code object, result = .ok (code, object) ∧ (code = finished → property object)

@[simp] theorem sound_ok {property : Object → Prop} {code : Code} {object : Object} :
    Sound finished property (.ok (code, object) : Except Fault (Code × Object)) ↔
      (code = finished → property object) := by
  simp [Sound]

@[simp] theorem sound_error {property : Object → Prop} {fault : Fault} :
    ¬Sound finished property (.error fault : Except Fault (Code × Object)) := by
  simp [Sound]

theorem on_ok {step : Step Fault Code Part} {get : Object → Part} {object : Object} {part : Part}
    {returned : Option Code} (set : Object → Part → Object) (ran : step (get object) = .ok (returned, part)) :
    step.on get set object = .ok (returned, set object part) := by
  rw [Step.on, ran]
  rfl

theorem on_error {step : Step Fault Code Part} {get : Object → Part} {object : Object} {fault : Fault}
    (set : Object → Part → Object) (ran : step (get object) = .error fault) :
    step.on get set object = .error fault := by
  rw [Step.on, ran]
  rfl

/-- A step that goes on. -/
theorem run_cons_none {step : Step Fault Code Object} {object next : Object} (rest : List (Step Fault Code Object))
    (goes : step object = .ok (none, next)) : run finished (step :: rest) object = run finished rest next := by
  rw [run, goes]
  rfl

/-- A step that returns. -/
theorem run_cons_some {step : Step Fault Code Object} {object next : Object} {code : Code}
    (rest : List (Step Fault Code Object)) (returns : step object = .ok (some code, next)) :
    run finished (step :: rest) object = .ok (code, next) := by
  rw [run, returns]
  rfl

/-- A step that faults. -/
theorem run_cons_error {step : Step Fault Code Object} {object : Object} {fault : Fault}
    (rest : List (Step Fault Code Object)) (faults : step object = .error fault) :
    run finished (step :: rest) object = .error fault := by
  rw [run, faults]
  rfl

/-- A step on a part reads what the step reads from the part. -/
theorem Reads.on {step : Step Fault Code Part} {get : Object → Part} {object : Object} {member : Option Member}
    {store : Member → Part} (set : Object → Part → Object) (reads : Reads finished step (get object) member store) :
    Reads finished (step.on get set) object member fun value => set object (store value) := by
  cases member with
  | none =>
    obtain ⟨code, left, other, returns⟩ := reads
    exact ⟨code, set object left, other, on_ok set returns⟩
  | some value => exact on_ok set reads

theorem delivers_nil {object : Object} {value : Value} {build : Value → Object} (same : object = build value) :
    Delivers finished (run finished ([] : List (Step Fault Code Object)) object) (Option.map build (some value)) := by
  rw [same]
  rfl

/-- A member in front of the others. -/
theorem delivers_cons {step : Step Fault Code Object} {rest : List (Step Fault Code Object)} {object : Object}
    {member : Option Member} {store : Member → Object} {others : Member → Option Value} {build : Value → Object}
    (reads : Reads finished step object member store)
    (goes : ∀ value, Delivers finished (run finished rest (store value)) (Option.map build (others value))) :
    Delivers finished (run finished (step :: rest) object) (Option.map build (member.bind others)) := by
  cases member with
  | none =>
    obtain ⟨code, left, other, returns⟩ := reads
    exact ⟨code, left, other, run_cons_some rest returns⟩
  | some value =>
    change step object = _ at reads
    rw [run_cons_none rest reads]
    exact goes value

/-- A first member passes on what the rest of the run must do. -/
theorem sound_cons_iff {property : Object → Prop} {step : Step Fault Code Object}
    {rest : List (Step Fault Code Object)} {object : Object} {member : Option Member} {store : Member → Object}
    (reads : Reads finished step object member store) :
    Sound finished property (run finished (step :: rest) object) ↔
      ∀ value, member = some value → Sound finished property (run finished rest (store value)) := by
  cases member with
  | none =>
    obtain ⟨code, left, other, returns⟩ := reads
    rw [run_cons_some rest returns, sound_ok]
    simp [other]
  | some value =>
    change step object = _ at reads
    rw [run_cons_none rest reads]
    simp only [Option.some.injEq, forall_eq']

/-- A run that delivers a value is judged by the value. -/
theorem Delivers.sound_iff {property : Object → Prop} {result : Except Fault (Code × Object)} {value : Option Object}
    (delivers : Delivers finished result value) :
    Sound finished property result ↔ ∀ object, value = some object → property object := by
  cases value with
  | none =>
    obtain ⟨code, left, other, same⟩ := delivers
    rw [same, sound_ok]
    simp [other]
  | some found =>
    change result = _ at delivers
    rw [delivers, sound_ok]
    simp only [Option.some.injEq, forall_eq', forall_const]

/-! ## Two runs -/

section

variable {tolerated : Fault → Prop} {related : Object → Object → Prop}

/-- Two results stay alike behind a computation that both of them start with. -/
theorem Alike.bind {Returned : Type} {first : Except Fault Value}
    {next next' : Value → Except Fault (Returned × Object)} (may : ∀ fault, first = .error fault → tolerated fault)
    (behind : ∀ value, Alike tolerated related (next value) (next' value)) :
    Alike tolerated related (first >>= next) (first >>= next') := by
  cases ran : first with
  | error fault => exact .fails (may fault ran)
  | ok value => exact behind value

/-- A step on a part keeps the objects related, when it keeps their parts related. -/
theorem Keeps.on {step : Step Fault Code Part} {same : Part → Part → Prop} (keeps : step.Keeps tolerated same)
    {get : Object → Part} {set : Object → Part → Object}
    (gets : ∀ {object other}, related object other → same (get object) (get other))
    (sets : ∀ {object other part part'}, related object other → same part part' →
      related (set object part) (set other part')) :
    (step.on get set).Keeps tolerated related := by
  intro object other both
  have parts := keeps (get object) (get other) (gets both)
  rw [Step.on, Step.on]
  generalize step (get object) = left at parts ⊢
  generalize step (get other) = right at parts ⊢
  cases parts with
  | fails may => exact .fails may
  | returns stays => exact .returns (sets both stays)

/-- Steps that keep objects related do so one after the other. -/
theorem run_keeps {steps : List (Step Fault Code Object)} (keep : ∀ step ∈ steps, Keeps tolerated related step)
    {object other : Object} (both : related object other) :
    Alike tolerated related (run finished steps object) (run finished steps other) := by
  induction steps generalizing object other with
  | nil => exact .returns both
  | cons step rest ih =>
    have first := keep step List.mem_cons_self object other both
    have later := fun {a b} => @ih (fun next member => keep next (List.mem_cons_of_mem _ member)) a b
    rw [run, run]
    generalize step object = left at first ⊢
    generalize step other = right at first ⊢
    cases first with
    | fails may => exact .fails may
    | @returns returned next next' stays =>
      cases returned with
      | none => exact later stays
      | some code => exact .returns stays

end

end Step

end Iotex
