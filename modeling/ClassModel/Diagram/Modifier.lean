/-
Modifiers in braces.

`{abstract}`, `{static}`, `{field}` and `{method}` annotate the line they stand on.
Before any grammar sees a line, every word in braces is taken out of it and the known
ones are recorded beside the text.  An unknown word is taken out as well, with a warning.

A text is cut into segments from the left: a word in braces where one starts, a single
character otherwise.  So a brace that belongs to no such word stays in the text, and what
is left of a line is never looked at again.  Every line can be cut, and the sources of its
segments make up the line.
-/
import ClassModel.Traced
import ClassModel.Diagram.LineParser
import ClassModel.Text.Split

namespace ClassModel

/-- The modifiers recorded for a line. -/
structure Modifiers where
  isAbstract : Bool := false
  isStatic : Bool := false
  field : Bool := false
  method : Bool := false
  deriving DecidableEq, Inhabited, Repr

/-- The markers name another kind of member and not this one. -/
def Modifiers.contradict (m : Modifiers) : MemberKind → Bool
  | .method => m.field && !m.method
  | .field => m.method && !m.field

/-- A line of a diagram, without its modifiers. -/
structure Line where
  text : List Char
  modifiers : Modifiers := {}
  deriving DecidableEq, Inhabited, Repr

/-- A part of a line. -/
inductive Segment where
  | modifier (word : List Char)
  | text (c : Char)
  deriving DecidableEq, Repr

namespace LineParser

/-- A word in braces. -/
def bracedWord : LineParser (List Char) := do
  let _ ← char '\x7b'
  let w ← word
  let _ ← char '\x7d'
  return w

/-- A word in braces is read together with its braces. -/
theorem bracedWord_eq_some {s w r : List Char} (h : bracedWord s = some (w, r)) :
    s = '\x7b' :: w ++ '\x7d' :: r ∧ w ≠ [] ∧ ∀ c ∈ w, isWordChar c = true := by
  simp only [bracedWord, bind_apply, char, Option.bind_eq_some_iff, pure_apply,
    Option.some.injEq, Prod.mk.injEq] at h
  obtain ⟨⟨a, s₁⟩, ha, ⟨w', s₂⟩, hw, ⟨b, s₃⟩, hb, rfl, rfl⟩ := h
  obtain ⟨rfl, hopen⟩ := satisfy_eq_some_iff.1 ha
  obtain ⟨rfl, hne, hall⟩ := word_eq_some hw
  obtain ⟨hs, hclose⟩ := satisfy_eq_some_iff.1 hb
  have hopen : a = '\x7b' := beq_iff_eq.1 hopen
  have hclose : b = '\x7d' := beq_iff_eq.1 hclose
  refine ⟨?_, hne, hall⟩
  rw [hopen, ← hclose]
  exact congrArg _ (congrArg _ hs)

/-- Reading a word in braces leaves less. -/
theorem length_lt_of_bracedWord {s w r : List Char} (h : bracedWord s = some (w, r)) :
    r.length < s.length := by
  rw [(bracedWord_eq_some h).1, List.length_append, List.length_cons, List.length_cons]
  omega

end LineParser

/-- The segments of a line from left to right: a word in braces where one starts, a single
character otherwise. -/
def segments (line : List Char) : List Segment :=
  match line with
  | [] => []
  | c :: r =>
      match _h : LineParser.bracedWord (c :: r) with
      | some (w, rest) => .modifier w :: segments rest
      | none => .text c :: segments r
termination_by line.length
decreasing_by
  · exact LineParser.length_lt_of_bracedWord _h
  · exact Nat.lt_succ_self _

/-- The text that a segment is cut from. -/
def Segment.source : Segment → List Char
  | modifier w => '\x7b' :: w ++ ['\x7d']
  | text c => [c]

/-- The character of a segment of text. -/
def Segment.char? : Segment → Option Char
  | text c => some c
  | modifier _ => none

/-- The word of a modifier. -/
def Segment.word? : Segment → Option String
  | text _ => none
  | modifier w => some (String.ofList w)

/-- The words that are modifiers. -/
def Modifiers.known : List String :=
  ["abstract", "static", "field", "method"]

/-- The modifiers that a list of words names. -/
def Modifiers.ofWords (ws : List String) : Modifiers where
  isAbstract := ws.contains "abstract"
  isStatic := ws.contains "static"
  field := ws.contains "field"
  method := ws.contains "method"

/-- The line that segments describe, with a warning for each unknown word. -/
def Line.ofSegments (segments : List Segment) : Traced Line :=
  let ws := segments.filterMap Segment.word?
  Traced.ofEvents
    { text := segments.filterMap Segment.char?
      modifiers := Modifiers.ofWords ws }
    ((ws.filter fun w => !Modifiers.known.contains w).map .unknownModifier)

/-! ### Cutting loses nothing -/

/-- The sources of the segments make up the line. -/
theorem flatMap_source_segments (line : List Char) :
    (segments line).flatMap Segment.source = line := by
  fun_induction segments line with
  | case1 => rfl
  | case2 c r w rest h ih =>
      rw [List.flatMap_cons, ih, (LineParser.bracedWord_eq_some h).1]
      simp [Segment.source]
  | case3 c r h ih => rw [List.flatMap_cons, ih, Segment.source, List.singleton_append]

/-! ### Lines of a text -/

/-- A line without the carriage return at its end, if there is one. -/
def dropReturn (line : List Char) : List Char :=
  if line.getLast? = some '\r' then line.dropLast else line

/-- The lines of a text, each without its modifiers. -/
def stripModifiers (text : List Char) : Traced (List Line) :=
  (splitOnChar '\n' text).mapM fun line => Line.ofSegments (segments (dropReturn line))

end ClassModel
