import Iotex.Proofs.Extractions
import Iotex.Proofs.TypeStrings

/-! # What the type parser rejects

The parser compares prefixes and looks at nothing but a width and the first bracket. It rejects the
empty string, what starts with a parenthesis, and a character that is neither digit nor bracket
among the first characters behind a keyword that takes a width; every other string is accepted, or
takes the parser out of its arrays.
-/

namespace Iotex

open Spec

/-- An entry whose type is the string is an error, unless the string names a type. -/
def TypeChecked (text : Bytes) : Prop :=
  ∀ json memory, getObjectItem json (ascii "type") = some (.str text) →
    TypeName text ∨ ∃ code out, parseInputOutput json memory = .ok (code, out) ∧ code ≠ .success

/-! ## Results that are no rejection -/

/-- The parser succeeds with a type that is no tuple, or does not return. -/
def Accepts (result : Exec (ResultCode × InputOutputAbi)) : Prop :=
  ∀ code out, result = .ok (code, out) → code = .success ∧ out.type ≠ .tupleDynamic ∧ out.type ≠ .tupleStatic

/-- The loop over an array length ends at a closing bracket, or has used up its iterations. -/
theorem copyArraySize_end {str buf copied : Bytes} {left i pCurr stop : ℕ}
    (ran : copyArraySize str left i pCurr buf = .ok (stop, copied)) :
    charAt str stop = .ok 93 ∨ stop = pCurr + left := by
  induction left generalizing i pCurr buf with
  | zero =>
    obtain ⟨rfl, -⟩ := Prod.mk.inj (Except.ok.inj ran)
    exact .inr rfl
  | succ left ih =>
    rw [copyArraySize] at ran
    obtain ⟨char, read, ran⟩ := bind_eq_ok.mp ran
    by_cases bracket : char = 93
    · rw [if_pos bracket] at ran
      obtain ⟨rfl, -⟩ := Prod.mk.inj (Except.ok.inj ran)
      exact .inl (bracket ▸ read)
    · rw [if_neg bracket] at ran
      obtain ⟨other, -, ran⟩ := bind_eq_ok.mp ran
      rcases ih ran with closed | exhausted
      · exact .inl closed
      · right
        omega

/-- Behind the element type nothing is rejected: whatever precedes a bracket that is missing is read
up to the end of the loop, which lies outside the string. -/
theorem checkIfArray_accepts (str : Bytes) (pCurr : ℕ) {out : InputOutputAbi}
    (noTuple : out.type ≠ .tupleDynamic ∧ out.type ≠ .tupleStatic) : Accepts (checkIfArray str pCurr out) := by
  intro code result ran
  rw [checkIfArray] at ran
  split_ifs at ran
  · obtain ⟨rfl, rfl⟩ := Prod.mk.inj (Except.ok.inj ran)
    exact ⟨rfl, noTuple⟩
  obtain ⟨char, -, ran⟩ := bind_eq_ok.mp ran
  split_ifs at ran
  · obtain ⟨rfl, rfl⟩ := Prod.mk.inj (Except.ok.inj ran)
    exact ⟨rfl, noTuple⟩
  obtain ⟨next, -, ran⟩ := bind_eq_ok.mp ran
  split_ifs at ran
  · obtain ⟨rfl, rfl⟩ := Prod.mk.inj (Except.ok.inj ran)
    exact ⟨rfl, nofun, nofun⟩
  obtain ⟨⟨stop, buf⟩, copied, ran⟩ := bind_eq_ok.mp ran
  obtain ⟨closing, read, ran⟩ := bind_eq_ok.mp ran
  have bracket : closing = 93 := by
    rcases copyArraySize_end copied with closed | exhausted
    · exact Except.ok.inj (read.symm.trans closed)
    · have := charAt_eq_ok read
      omega
  rw [if_neg (by simpa using bracket)] at ran
  obtain ⟨size, -, ran⟩ := bind_eq_ok.mp ran
  obtain ⟨rfl, rfl⟩ := Prod.mk.inj (Except.ok.inj ran)
  exact ⟨rfl, nofun, nofun⟩

/-- A type that takes a width: only the loop over its digits rejects. -/
private theorem sized_accepts {tag : EthereumTypeName} {keyword rest : Bytes} (out : InputOutputAbi)
    (named : tag.toText = .ok keyword) (tagged : tag = .uint ∨ tag = .int ∨ tag = .bytesStatic)
    (more : rest = [] → tag ≠ .bytesStatic)
    (kept : rest ≠ [] → copySize (keyword ++ rest) 4 keyword.length [] ≠ .ok none) :
    Accepts (getSizeFromStringAndCheckIfArray (keyword ++ rest) { out with type := tag }) := by
  have noTuple : tag ≠ .tupleDynamic ∧ tag ≠ .tupleStatic := by
    rcases tagged with rfl | rfl | rfl <;> exact ⟨nofun, nofun⟩
  intro code result ran
  rw [getSizeFromStringAndCheckIfArray, named, ok_bind] at ran
  by_cases bare : (tag = .uint ∨ tag = .int) ∧ keyword.length = (keyword ++ rest).length
  · rw [if_pos bare] at ran
    obtain ⟨rfl, rfl⟩ := Prod.mk.inj (Except.ok.inj ran)
    exact ⟨rfl, noTuple⟩
  rw [if_neg bare, if_pos tagged] at ran
  obtain ⟨copied, loop, ran⟩ := bind_eq_ok.mp ran
  cases copied with
  | none =>
    apply absurd loop
    apply kept
    rintro rfl
    have integer : tag = .uint ∨ tag = .int := by
      rcases tagged with rfl | rfl | rfl
      · exact .inl rfl
      · exact .inr rfl
      · exact absurd rfl (more rfl)
    exact bare ⟨integer, by simp⟩
  | some stopped =>
    obtain ⟨size, -, ran⟩ := bind_eq_ok.mp ran
    exact checkIfArray_accepts _ _ noTuple code result ran

/-- A type without a width. -/
private theorem unsized_accepts {tag : EthereumTypeName} (str : Bytes) (out : InputOutputAbi)
    (untagged : tag = .address ∨ tag = .bool ∨ tag = .bytesDynamic ∨ tag = .string) :
    Accepts (getSizeFromStringAndCheckIfArray str { out with type := tag }) := by
  intro code result ran
  rcases untagged with rfl | rfl | rfl | rfl
  all_goals
    refine checkIfArray_accepts str _ ?_ code result ran
    simp

theorem startsWith_iff {str literal : Bytes} : startsWith str literal = true ↔ ∃ rest, str = literal ++ rest := by
  rw [startsWith, List.isPrefixOf_iff_prefix]
  constructor
  · rintro ⟨rest, same⟩
    exact ⟨rest, same.symm⟩
  · rintro ⟨rest, same⟩
    exact ⟨rest, same.symm⟩

/-- A keyword with a width whose loop rejects is the beginning of a rejected string. -/
private theorem rejected_of_copySize {keyword rest : Bytes}
    (sized : keyword ∈ [ascii "uint", ascii "int", ascii "bytes"])
    (more : rest ≠ []) (none : copySize (keyword ++ rest) 4 keyword.length [] = .ok none) :
    RejectedType (keyword ++ rest) := by
  obtain ⟨digits, char, others, rfl, short, each, wrong, differ⟩ := (copySize_none_iff keyword rest [] 4 more).mp none
  exact .inr (.inr ⟨keyword, sized, digits, char, others, rfl, by omega, each, wrong, differ⟩)

/-- Every other string is accepted, or takes the parser out of its arrays. -/
theorem getTypeAndSizeFromString_accepts {str : Bytes} (accepted : ¬RejectedType str) {out : InputOutputAbi}
    (noTuple : out.type ≠ .tupleDynamic ∧ out.type ≠ .tupleStatic) : Accepts (getTypeAndSizeFromString str out) := by
  have nonempty : ¬str.length = 0 := fun empty => accepted (.inl (List.length_eq_zero_iff.mp empty))
  have noTupleText : ¬str.head? = some 40 := fun tuple => accepted (.inr (.inl tuple))
  rw [getTypeAndSizeFromString, if_neg nonempty, if_neg noTupleText]
  split_ifs with uint int address bool bytes exact array string
  · obtain ⟨rest, rfl⟩ := startsWith_iff.mp uint
    exact sized_accepts out rfl (.inl rfl) (fun _ => by decide)
      fun more none => accepted (rejected_of_copySize (by simp) more none)
  · obtain ⟨rest, rfl⟩ := startsWith_iff.mp int
    exact sized_accepts out rfl (.inr (.inl rfl)) (fun _ => by decide)
      fun more none => accepted (rejected_of_copySize (by simp) more none)
  · exact unsized_accepts _ _ (.inl rfl)
  · exact unsized_accepts _ _ (.inr (.inl rfl))
  · intro code result ran
    obtain ⟨rfl, rfl⟩ := Prod.mk.inj (Except.ok.inj ran)
    exact ⟨rfl, by simp, by simp⟩
  · exact unsized_accepts _ _ (.inr (.inr (.inl rfl)))
  · obtain ⟨rest, rfl⟩ := startsWith_iff.mp bytes
    exact sized_accepts out rfl (.inr (.inr rfl)) (fun none => absurd (by rw [none, List.append_nil]) exact)
      fun more none => accepted (rejected_of_copySize (by simp) more none)
  · exact unsized_accepts _ _ (.inr (.inr (.inr rfl)))
  · intro code result ran
    obtain ⟨rfl, rfl⟩ := Prod.mk.inj (Except.ok.inj ran)
    exact ⟨rfl, noTuple⟩

/-! ## Rejections -/

/-- The loop over a width rejects a type. -/
private theorem sized_rejects {tag : EthereumTypeName} {keyword rest : Bytes} (out : InputOutputAbi)
    (named : tag.toText = .ok keyword) (tagged : tag = .uint ∨ tag = .int ∨ tag = .bytesStatic) (more : rest ≠ [])
    (none : copySize (keyword ++ rest) 4 keyword.length [] = .ok none) :
    getSizeFromStringAndCheckIfArray (keyword ++ rest) { out with type := tag } =
      .ok (.errorBadParameter, { out with type := tag }) := by
  have longer : ¬keyword.length = (keyword ++ rest).length := by
    have := List.length_pos_iff.mpr more
    rw [List.length_append]
    omega
  rw [getSizeFromStringAndCheckIfArray, named, ok_bind]
  simp only [longer, and_false, ↓reduceIte, tagged, none, ok_bind, pure_eq_ok]

/-- A rejected string is an error or names a tuple. -/
theorem getTypeAndSizeFromString_rejects {str : Bytes} (rejected : RejectedType str) (out : InputOutputAbi) :
    ∃ code left, getTypeAndSizeFromString str out = .ok (code, left) ∧
      (code ≠ .success ∨ left.type = .tupleStatic) := by
  rcases rejected with rfl | tuple | ⟨keyword, sized, digits, char, rest, rfl, short, each, wrong, differ⟩
  · exact ⟨_, _, rfl, .inl nofun⟩
  · refine ⟨.success, { out with type := .tupleStatic }, ?_, .inr rfl⟩
    have nonempty : ¬str.length = 0 := by
      rintro empty
      rw [List.length_eq_zero_iff.mp empty] at tuple
      simp at tuple
    rw [getTypeAndSizeFromString, if_neg nonempty, if_pos tuple]
  · have more : digits ++ char :: rest ≠ [] := by simp
    have none : copySize (keyword ++ (digits ++ char :: rest)) 4 keyword.length [] = .ok none :=
      (copySize_none_iff _ _ _ _ more).mpr ⟨digits, char, rest, rfl, by omega, each, wrong, differ⟩
    simp only [List.mem_cons, List.not_mem_nil, or_false] at sized
    rcases sized with rfl | rfl | rfl
    · exact ⟨_, _, (getType_uint _ out).trans (sized_rejects out rfl (.inl rfl) more none), .inl nofun⟩
    · exact ⟨_, _, (getType_int _ out).trans (sized_rejects out rfl (.inr (.inl rfl)) more none), .inl nofun⟩
    · obtain ⟨first, others, same⟩ := List.exists_cons_of_ne_nil more
      have noBracket : first ≠ 91 := by
        cases digits with
        | nil =>
          obtain rfl := (List.cons.inj same).1
          exact differ
        | cons digit digits =>
          obtain rfl := (List.cons.inj same).1
          rintro rfl
          exact absurd (each 91 List.mem_cons_self) (by decide)
      rw [same] at more none ⊢
      exact ⟨_, _, (getType_bytesN others out noBracket).trans (sized_rejects out rfl (.inr (.inr rfl)) more none),
        .inl nofun⟩

/-! ## Entries -/

/-- The two members of an entry that the parser looks at. -/
theorem parseInputOutput_eq (data : Json) (out : InputOutputAbi) :
    parseInputOutput data out =
      match charsOf? (data.get? (ascii "name")), charsOf? (data.get? (ascii "type")) with
      | none, _ => .ok (.errorJsonParse, out)
      | some name, none => .ok (.errorJsonParse, { out with name := name })
      | some name, some type => do
        let (ret, out) ← getTypeAndSizeFromString type { out with name := name }
        if ret ≠ .success then return (ret, out)
        if out.type = .tupleDynamic ∨ out.type = .tupleStatic then return (.errorWrongType, out)
        return (.success, out) := by
  have name := setStringFromJsonObject_eq (getObjectItem data (ascii "name")) out.name
  have type := setStringFromJsonObject_eq (getObjectItem data (ascii "type")) []
  rw [parseInputOutput, name, type, getObjectItem, getObjectItem]
  cases charsOf? (data.get? (ascii "name")) with
  | none => rfl
  | some name =>
    cases charsOf? (data.get? (ascii "type")) with
    | none => rfl
    | some type => rfl

/-- An entry of a rejected type is an error. -/
theorem parseInputOutput_rejected {data : Json} {text : Bytes}
    (typed : charsOf? (data.get? (ascii "type")) = some text) (rejected : RejectedType text) (out : InputOutputAbi) :
    ∃ code left, parseInputOutput data out = .ok (code, left) ∧ code ≠ .success := by
  rw [parseInputOutput_eq, typed]
  cases charsOf? (data.get? (ascii "name")) with
  | none => exact ⟨_, _, rfl, nofun⟩
  | some name =>
    obtain ⟨code, left, read, failed⟩ := getTypeAndSizeFromString_rejects rejected { out with name := name }
    simp only [read, ok_bind]
    by_cases ok : code = .success
    · have tuple := failed.resolve_left (not_not_intro ok)
      refine ⟨.errorWrongType, left, ?_, nofun⟩
      simp only [ok, ne_eq, not_true_eq_false, ↓reduceIte, tuple, or_true, pure_eq_ok]
    · refine ⟨code, left, ?_, ok⟩
      simp only [ne_eq, ok, not_false_eq_true, ↓reduceIte, pure_eq_ok]

/-- On memory without a tuple an entry with a name and another type is no error. -/
theorem parseInputOutput_accepted {data : Json} {name text : Bytes} {out left : InputOutputAbi} {code : ResultCode}
    (named : charsOf? (data.get? (ascii "name")) = some name)
    (typed : charsOf? (data.get? (ascii "type")) = some text) (accepted : ¬RejectedType text)
    (noTuple : out.type ≠ .tupleDynamic ∧ out.type ≠ .tupleStatic)
    (parsed : parseInputOutput data out = .ok (code, left)) : code = .success := by
  rw [parseInputOutput_eq, named, typed] at parsed
  obtain ⟨⟨ret, other⟩, read, parsed⟩ := bind_eq_ok.mp parsed
  have tuple : ({ out with name := name } : InputOutputAbi).type ≠ .tupleDynamic ∧
      ({ out with name := name } : InputOutputAbi).type ≠ .tupleStatic := noTuple
  obtain ⟨rfl, noDynamic, noStatic⟩ := getTypeAndSizeFromString_accepts accepted tuple _ _ read
  simp only [ne_eq, not_true_eq_false, ↓reduceIte, noDynamic, noStatic, or_self, pure_eq_ok, Except.ok.injEq,
    Prod.mk.injEq] at parsed
  exact parsed.1.symm

/-- An entry is checked exactly when its type is in the grammar or among the rejected strings. -/
theorem typeChecked_iff (text : Bytes) : TypeChecked text ↔ TypeName text ∨ RejectedType (cString text) := by
  have chars : ∀ {json : Json}, getObjectItem json (ascii "type") = some (.str text) →
      charsOf? (json.get? (ascii "type")) = some (cString text) := by
    intro json typed
    rw [← getObjectItem, typed]
    rfl
  constructor
  · intro checked
    by_contra unchecked
    rw [not_or] at unchecked
    -- an entry with a name, read into memory that holds no tuple
    let json : Json := .obj [(ascii "name", .str []), (ascii "type", .str text)]
    let memory : InputOutputAbi := { type := .uint, sizeBytes := 0, arrayType := .uint, arraySize := 0 }
    have named : charsOf? (json.get? (ascii "name")) = some [] := rfl
    rcases checked json memory rfl with known | ⟨code, out, parsed, failed⟩
    · exact unchecked.1 known
    have noTuple : memory.type ≠ .tupleDynamic ∧ memory.type ≠ .tupleStatic := ⟨nofun, nofun⟩
    exact failed (parseInputOutput_accepted named (chars rfl) unchecked.2 noTuple parsed)
  · rintro (known | rejected) json memory typed
    · exact .inl known
    · exact .inr (parseInputOutput_rejected (chars typed) rejected memory)

namespace TrailingDigit

/-- An input of the type `address1`. -/
def entry : Json := .obj [(ascii "name", .str (ascii "_to")), (ascii "type", .str (ascii "address1"))]

end TrailingDigit

/-- Characters behind `address` are accepted. -/
theorem trailingDigit_accepted :
    (∃ out, parseInputOutput TrailingDigit.entry
        { type := .unknown, sizeBytes := 0, arrayType := .unknown, arraySize := 0 } = .ok (.success, out) ∧
      out.type = .address) ∧ ¬TypeChecked (ascii "address1") := by
  refine ⟨⟨_, rfl, rfl⟩, ?_⟩
  rw [typeChecked_iff, not_or]
  constructor
  · rintro ⟨type, same⟩
    have first := congrArg List.head? same
    rw [AbiType.text, ElementaryType.text] at first same
    cases element : type.element <;> rw [element] at first same
    case address =>
      have behind : ascii "1" = type.suffix := @List.append_cancel_left _ (ascii "address") _ _ same
      cases type <;> simp [AbiType.suffix, ascii] at behind
    all_goals simp [ElementaryType.keyword, ascii] at first
  · rintro (empty | tuple | ⟨keyword, sized, digits, char, rest, same, -⟩)
    · exact absurd empty (by decide)
    · exact absurd tuple (by decide)
    · have first := congrArg List.head? same
      simp only [List.mem_cons, List.not_mem_nil, or_false] at sized
      rcases sized with rfl | rfl | rfl
      all_goals
        have other : (cString (ascii "address1")).head? = some 97 := by decide
        rw [other] at first
        simp [ascii] at first

end Iotex
