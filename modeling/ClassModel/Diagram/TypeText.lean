/-
Type expressions and parameters of a diagram.

A type is a word followed by suffixes, `[...]` for arrays and `<...>` for arguments.
What stands between angle brackets is taken as it is, and the whole expression is kept
as text.

A parameter list is cut at the commas outside all brackets, and each piece is a
parameter in one of two layouts, `Type name` or `name : Type`.  A piece that is neither
is dropped.  The cutting itself loses nothing: joined by commas, the pieces are the text.
-/
import ClassModel.Entity
import ClassModel.Diagram.LineParser

namespace ClassModel

namespace LineParser

/-- The arguments of a type, between angle brackets and without any inside. -/
def typeArguments : LineParser (List Char) := do
  let _ ← char '<'
  let inner ← run1 fun c => c != '<' && c != '>'
  let _ ← char '>'
  return '<' :: inner ++ ['>']

/-- The mark of an array, with an optional word between the brackets. -/
def arrayMark : LineParser (List Char) := do
  let _ ← char '['
  let size ← optional word
  let _ ← char ']'
  return '[' :: size.getD [] ++ [']']

/-- A type expression, as text. -/
def typeText : LineParser String := do
  let head ← word
  let suffixes ← many (typeArguments <|> arrayMark)
  return String.ofList (head ++ suffixes.flatten)

/-- A word, as text. -/
def name : LineParser String := do
  let w ← word
  return String.ofList w

/-- A parameter, `Type name` or `name : Type`. -/
def parameter : LineParser Parameter :=
  (do
    let type ← typeText
    spaces1
    let name ← name
    return { name, type }) <|>
  (do
    let name ← name
    colon
    let type ← typeText
    return { name, type })

end LineParser

/-! ### Parameter lists -/

/-- The bracket depth after a character; a closing bracket without an opening one counts
for nothing. -/
def depthAfter (depth : Nat) (c : Char) : Nat :=
  if c = '<' ∨ c = '[' then depth + 1
  else if c = '>' ∨ c = ']' then depth - 1
  else depth

/-- Put a character in front of the first piece. -/
def consPiece (c : Char) : List (List Char) → List (List Char)
  | [] => [[c]]
  | p :: ps => (c :: p) :: ps

/-- The pieces of a text between the commas at bracket depth zero, when reading starts at
the given depth. -/
def splitAtCommas : Nat → List Char → List (List Char)
  | _, [] => [[]]
  | depth, c :: r =>
      if c = ',' ∧ depth = 0 then [] :: splitAtCommas 0 r
      else consPiece c (splitAtCommas (depthAfter depth c) r)

/-- The parameters that a text lists. -/
def readParameters (s : List Char) : List Parameter :=
  (splitAtCommas 0 s).filterMap (LineParser.accept (LineParser.fullLine LineParser.parameter))

/-! ### Cutting loses nothing -/

/-- There is always a piece. -/
theorem splitAtCommas_ne_nil (depth : Nat) (s : List Char) : splitAtCommas depth s ≠ [] := by
  cases s with
  | nil => simp [splitAtCommas]
  | cons c r =>
      rw [splitAtCommas]
      split
      · exact List.cons_ne_nil _ _
      · rcases splitAtCommas (depthAfter depth c) r with _ | ⟨p, ps⟩ <;> simp [consPiece]

/-- The pieces joined by commas are the text. -/
theorem intercalate_splitAtCommas (depth : Nat) (s : List Char) :
    List.intercalate [','] (splitAtCommas depth s) = s := by
  induction s generalizing depth with
  | nil => rfl
  | cons c r ih =>
      rw [splitAtCommas]
      split
      · rename_i h
        have hr := ih 0
        rcases hs : splitAtCommas 0 r with _ | ⟨p, ps⟩
        · exact absurd hs (splitAtCommas_ne_nil 0 r)
        · rw [hs] at hr
          rw [← hr, h.1]
          simp [List.intercalate]
      · have hr := ih (depthAfter depth c)
        rcases hs : splitAtCommas (depthAfter depth c) r with _ | ⟨p, ps⟩
        · exact absurd hs (splitAtCommas_ne_nil _ r)
        · rw [hs] at hr
          rw [← hr]
          cases ps <;> simp [consPiece, List.intercalate]

end ClassModel
