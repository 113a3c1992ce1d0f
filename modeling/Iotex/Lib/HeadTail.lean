import Iotex.Lib.Bytes

/-! # Head and tail layout

A tuple of parts is laid out as one head per part followed by the tails. A static part stands in
its own head; the head of a dynamic part is a fixed-width offset, counted from the first head,
to its tail. The offset word is any rendering of a constant width.
-/

namespace Iotex.HeadTail

/-- A part of a tuple, already encoded. -/
inductive Part where
  | inPlace (body : Bytes)
  | byOffset (body : Bytes)
deriving DecidableEq, Repr

namespace Part

def body : Part → Bytes
  | inPlace body => body
  | byOffset body => body

def isByOffset : Part → Bool
  | inPlace _ => false
  | byOffset _ => true

/-- The bytes a part takes among the heads, for offset words of the given width. -/
def headSize (width : ℕ) : Part → ℕ
  | inPlace body => body.length
  | byOffset _ => width

/-- The bytes a part contributes behind the heads. -/
def tail : Part → Bytes
  | inPlace _ => []
  | byOffset body => body

end Part

variable (width : ℕ) (word : ℕ → Bytes)

def headsSize (parts : List Part) : ℕ := (parts.map (Part.headSize width)).sum

def tails (parts : List Part) : Bytes := (parts.map Part.tail).flatten

/-- The heads, when the next tail starts at `offset`. -/
def heads : ℕ → List Part → Bytes
  | _, [] => []
  | offset, .inPlace body :: rest => body ++ heads offset rest
  | offset, .byOffset body :: rest => word offset ++ heads (offset + body.length) rest

def layout (parts : List Part) : Bytes := heads word (headsSize width parts) parts ++ tails parts

/-- The offset written for the part behind `before`. -/
def offsetOf (parts before : List Part) : ℕ := headsSize width parts + (tails before).length

theorem headsSize_cons (part : Part) (rest : List Part) :
    headsSize width (part :: rest) = part.headSize width + headsSize width rest := by
  simp only [headsSize, List.map_cons, List.sum_cons]

theorem tails_cons (part : Part) (rest : List Part) : tails (part :: rest) = part.tail ++ tails rest := by
  simp only [tails, List.map_cons, List.flatten_cons]

theorem tails_append (a b : List Part) : tails (a ++ b) = tails a ++ tails b := by
  simp only [tails, List.map_append, List.flatten_append]

variable {width word}

theorem heads_append (offset : ℕ) (a b : List Part) :
    heads word offset (a ++ b) = heads word offset a ++ heads word (offset + (tails a).length) b := by
  induction a generalizing offset with
  | nil => rfl
  | cons part rest ih =>
    cases part with
    | inPlace body => simp only [List.cons_append, heads, ih, tails_cons, Part.tail, List.nil_append, List.append_assoc]
    | byOffset body =>
      simp only [List.cons_append, heads, ih, tails_cons, Part.tail, List.length_append, List.append_assoc,
        Nat.add_assoc]

variable (wordLength : ∀ n, (word n).length = width)

include wordLength in
theorem heads_length (offset : ℕ) (parts : List Part) :
    (heads word offset parts).length = headsSize width parts := by
  induction parts generalizing offset with
  | nil => rfl
  | cons part rest ih =>
    cases part <;>
      simp only [heads, headsSize_cons, Part.headSize, List.length_append, ih, wordLength]

include wordLength in
theorem layout_length (parts : List Part) :
    (layout width word parts).length = headsSize width parts + (tails parts).length := by
  simp only [layout, List.length_append, heads_length wordLength]

include wordLength in
/-- The head of a dynamic part is its offset. -/
theorem layout_head (before : List Part) (body : Bytes) (after : List Part) :
    ((layout width word (before ++ .byOffset body :: after)).drop (headsSize width before)).take width =
      word (offsetOf width (before ++ .byOffset body :: after) before) := by
  have first := heads_length wordLength (headsSize width (before ++ .byOffset body :: after)) before
  rw [layout, offsetOf, heads_append, heads, List.append_assoc, List.append_assoc, List.drop_left' first,
    List.take_left' (wordLength _)]

include wordLength in
/-- The offset of a part is the distance from the first head to the first byte of its tail. -/
theorem layout_drop_offset (before : List Part) (body : Bytes) (after : List Part) :
    (layout width word (before ++ .byOffset body :: after)).drop
        (offsetOf width (before ++ .byOffset body :: after) before) =
      body ++ tails after := by
  have heads := heads_length wordLength
    (headsSize width (before ++ .byOffset body :: after)) (before ++ .byOffset body :: after)
  rw [layout, offsetOf, List.drop_append, heads, List.drop_eq_nil_of_le (by omega), List.nil_append,
    Nat.add_sub_cancel_left, tails_append, List.drop_left, tails_cons]
  rfl

private theorem heads_inPlace (offset : ℕ) (bodies : List Bytes) :
    heads word offset (bodies.map .inPlace) = bodies.flatten := by
  induction bodies with
  | nil => rfl
  | cons body rest ih => simp only [List.map_cons, heads, ih, List.flatten_cons]

private theorem tails_inPlace (bodies : List Bytes) : tails (bodies.map Part.inPlace) = [] := by
  induction bodies with
  | nil => rfl
  | cons body rest ih => simp only [List.map_cons, tails_cons, ih, Part.tail, List.append_nil]

theorem headsSize_byOffset (bodies : List Bytes) : headsSize width (bodies.map .byOffset) = width * bodies.length := by
  induction bodies with
  | nil => rfl
  | cons body rest ih =>
    rw [List.map_cons, headsSize_cons, ih, Part.headSize, List.length_cons]
    ring

theorem tails_byOffset (bodies : List Bytes) : tails (bodies.map .byOffset) = bodies.flatten := by
  induction bodies with
  | nil => rfl
  | cons body rest ih => simp only [List.map_cons, tails_cons, ih, Part.tail, List.flatten_cons]

/-! ## Layouts of dynamic parts only -/

/-- Where the tail of the part at an index starts, and at the number of parts where the layout ends. -/
def tailOffset (width : ℕ) (bodies : List Bytes) (i : ℕ) : ℕ :=
  width * bodies.length + (bodies.take i).flatten.length

theorem tailOffset_zero (width : ℕ) (bodies : List Bytes) : tailOffset width bodies 0 = width * bodies.length := by
  rw [tailOffset, List.take_zero, List.flatten_nil, List.length_nil, Nat.add_zero]

/-- The tails are adjacent. -/
theorem tailOffset_succ {bodies : List Bytes} {i : ℕ} (inside : i < bodies.length) :
    tailOffset width bodies (i + 1) = tailOffset width bodies i + bodies[i].length := by
  rw [tailOffset, tailOffset, List.take_succ_eq_append_getElem inside, List.flatten_append, List.length_append,
    List.flatten_singleton, Nat.add_assoc]

private theorem split_at {bodies : List Bytes} {i : ℕ} (inside : i < bodies.length) :
    bodies.map Part.byOffset =
      (bodies.take i).map .byOffset ++ .byOffset bodies[i] :: (bodies.drop (i + 1)).map .byOffset := by
  rw [← List.map_cons, ← List.map_append, ← List.drop_eq_getElem_cons inside, List.take_append_drop]

private theorem offsetOf_take (bodies : List Bytes) (i : ℕ) :
    offsetOf width (bodies.map .byOffset) ((bodies.take i).map .byOffset) = tailOffset width bodies i := by
  rw [offsetOf, headsSize_byOffset, tails_byOffset, tailOffset]

include wordLength in
theorem layout_byOffset_length (bodies : List Bytes) :
    (layout width word (bodies.map .byOffset)).length = tailOffset width bodies bodies.length := by
  rw [layout_length wordLength, headsSize_byOffset, tails_byOffset, tailOffset, List.take_length]

include wordLength in
/-- The word at an index is the offset of the tail at that index. -/
theorem layout_byOffset_word {bodies : List Bytes} {i : ℕ} (inside : i < bodies.length) :
    ((layout width word (bodies.map .byOffset)).drop (width * i)).take width = word (tailOffset width bodies i) := by
  have head := layout_head wordLength ((bodies.take i).map .byOffset) bodies[i] ((bodies.drop (i + 1)).map .byOffset)
  rwa [← split_at inside, headsSize_byOffset, List.length_take, Nat.min_eq_left inside.le, offsetOf_take] at head

include wordLength in
/-- From its offset on stand the tail and the tails behind it. -/
theorem layout_byOffset_drop {bodies : List Bytes} {i : ℕ} (inside : i < bodies.length) :
    (layout width word (bodies.map .byOffset)).drop (tailOffset width bodies i) =
      bodies[i] ++ (bodies.drop (i + 1)).flatten := by
  have tail := layout_drop_offset wordLength ((bodies.take i).map .byOffset) bodies[i]
    ((bodies.drop (i + 1)).map .byOffset)
  rwa [← split_at inside, offsetOf_take, tails_byOffset] at tail

/-- With no dynamic part the layout is the concatenation of the parts. -/
theorem layout_inPlace (bodies : List Bytes) : layout width word (bodies.map .inPlace) = bodies.flatten := by
  rw [layout, heads_inPlace, tails_inPlace, List.append_nil]

end Iotex.HeadTail
