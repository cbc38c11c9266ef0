/-
Places in a source text.

A place is given by its line and its column, both counted from one.  Only a line feed
ends a line, and a column counts characters.  The place of an offset follows from the
text in front of it, one character at a time.
-/
namespace ClassModel.Source

/-- A line and a column. -/
structure Position where
  line : Nat
  column : Nat
  deriving DecidableEq, Inhabited, Repr

namespace Position

/-- The beginning of a text. -/
def start : Position :=
  ⟨1, 1⟩

/-- The place behind a character. -/
def step (p : Position) (c : Char) : Position :=
  if c = '\n' then ⟨p.line + 1, 1⟩ else ⟨p.line, p.column + 1⟩

/-- The place behind a text. -/
def after (s : List Char) : Position :=
  s.foldl step start

/-- The place of an offset in a text. -/
def ofOffset (s : List Char) (offset : Nat) : Position :=
  after (s.take offset)

/-- The offset of the beginning of a line. -/
def lineOffset : List Char → Nat → Nat
  | _, 0 => 0
  | [], _ + 1 => 0
  | c :: r, n + 1 => 1 + lineOffset r (if c = '\n' then n else n + 1)

/-- The offset of a place: skip the lines in front of it and then the columns. -/
def offset (s : List Char) (p : Position) : Nat :=
  lineOffset s (p.line - 1) + (p.column - 1)

end Position

end ClassModel.Source
