/-
Patterns.

A pattern is a regular expression that a field of text could be compared with.  No field
here that takes a pattern holds text, so a pattern is never matched; but a text that is no
pattern makes what it stands in unreadable, so it is asked which texts are patterns.

This module holds what a pattern consists of.  A sequence and a choice have at least two
parts, and what has no part at all is the empty pattern; `ofItems` and `ofBranches` see to
that.  The depth of a pattern counts what encloses its innermost part.
-/
namespace ClassModel

namespace Pattern

/-! ### Flags -/

/-- How a part of a pattern is understood. -/
inductive Flag where
  /-- Upper and lower case are the same. -/
  | caseless
  /-- The edges of the text are those of a line. -/
  | lines
  /-- A dot stands for the end of a line too. -/
  | dotAll
  /-- Repetitions are as short as possible. -/
  | short
  /-- Characters are matched, not bytes. -/
  | unicode
  /-- A carriage return belongs to the end of a line. -/
  | carriageReturn
  /-- Blanks and comments in the pattern are skipped. -/
  | verbose
  deriving DecidableEq, Inhabited, Repr

/-- The letter of a flag. -/
def Flag.letter : Flag → Char
  | caseless => 'i'
  | lines => 'm'
  | dotAll => 's'
  | short => 'U'
  | unicode => 'u'
  | carriageReturn => 'R'
  | verbose => 'x'

/-- All flags. -/
def Flag.all : List Flag :=
  [caseless, lines, dotAll, short, unicode, carriageReturn, verbose]

/-- The flag of a letter. -/
def Flag.ofLetter? (c : Char) : Option Flag :=
  all.find? (·.letter = c)

@[simp]
theorem Flag.ofLetter?_letter (f : Flag) : Flag.ofLetter? f.letter = some f := by
  cases f <;> decide

/-- Flags that are set and flags that are cleared. -/
structure FlagChange where
  on : List Flag := []
  off : List Flag := []
  deriving DecidableEq, Inhabited, Repr

/-- A flag behind the change. -/
def FlagChange.apply (change : FlagChange) (f : Flag) (before : Bool) : Bool :=
  if change.on.contains f then true
  else if change.off.contains f then false
  else before

/-- Nothing changes without flags. -/
@[simp]
theorem FlagChange.apply_empty (f : Flag) (before : Bool) :
    FlagChange.apply {} f before = before := rfl

/-! ### Parts that match one character -/

/-- A character that stands for itself. -/
structure Literal where
  char : Char
  /-- It is written as a byte, by two hexadecimal digits. -/
  isByte : Bool := false
  deriving DecidableEq, Inhabited, Repr

/-- What a letter behind a backslash stands for. -/
inductive Category where
  | digit
  | space
  | word
  deriving DecidableEq, Inhabited, Repr

/-- The characters of a category, or all others. -/
structure Shorthand where
  category : Category
  negated : Bool
  deriving DecidableEq, Inhabited, Repr

/-- The shorthand of a letter. -/
def Shorthand.ofLetter? (c : Char) : Option Shorthand :=
  if c = 'd' then some ⟨.digit, false⟩
  else if c = 's' then some ⟨.space, false⟩
  else if c = 'w' then some ⟨.word, false⟩
  else if c = 'D' then some ⟨.digit, true⟩
  else if c = 'S' then some ⟨.space, true⟩
  else if c = 'W' then some ⟨.word, true⟩
  else none

/-- How two sets are combined. -/
inductive SetOperator where
  | intersection
  | difference
  | symmetricDifference
  deriving DecidableEq, Inhabited, Repr

end Pattern

open Pattern in
/-- A set of characters. -/
inductive CharSet where
  | empty
  | literal (l : Literal)
  | range (first last : Literal)
  /-- A set of ASCII characters that has a name. -/
  | named (name : String) (negated : Bool)
  | shorthand (s : Shorthand)
  /-- A set in brackets. -/
  | bracket (negated : Bool) (s : CharSet)
  /-- Two or more sets side by side. -/
  | union (members : List CharSet)
  | combine (operator : SetOperator) (left right : CharSet)
  deriving Inhabited, Repr

namespace CharSet

/-- The sets that have a name. -/
def names : List String :=
  ["alnum", "alpha", "ascii", "blank", "cntrl", "digit", "graph", "lower", "print", "punct",
    "space", "upper", "word", "xdigit"]

/-- The set with some members. -/
def ofMembers : List CharSet → CharSet
  | [] => empty
  | [s] => s
  | ss => union ss

mutual

/-- How deep the innermost member lies. -/
def depth : CharSet → Nat
  | empty | literal _ | range .. | named .. | shorthand _ => 0
  | bracket _ s => s.depth + 1
  | union members => depthOfAll members + 1
  | combine _ left right => max left.depth right.depth + 1

/-- The depth of the deepest of some sets. -/
def depthOfAll : List CharSet → Nat
  | [] => 0
  | s :: r => max s.depth (depthOfAll r)

end

end CharSet

open Pattern in
/-- A regular expression. -/
inductive Pattern where
  | empty
  /-- A change of flags for what follows. -/
  | flags (change : FlagChange)
  | literal (l : Literal)
  /-- A dot, which stands for any character. -/
  | anyChar
  /-- An edge of the text or of a line. -/
  | edge
  /-- A place where a word begins or ends, or one where it does not. -/
  | wordEdge
  | shorthand (s : Shorthand)
  | set (s : CharSet)
  | repeated (p : Pattern)
  /-- A group, perhaps with other flags inside. -/
  | group (change : FlagChange) (body : Pattern)
  /-- Two or more patterns one behind another. -/
  | sequence (ps : List Pattern)
  /-- Two or more patterns to choose from. -/
  | choice (ps : List Pattern)
  deriving Inhabited, Repr

namespace Pattern

/-- The pattern of some patterns one behind another. -/
def ofItems : List Pattern → Pattern
  | [] => empty
  | [p] => p
  | ps => sequence ps

/-- The pattern of some patterns to choose from. -/
def ofBranches : List Pattern → Pattern
  | [] => empty
  | [p] => p
  | ps => choice ps

mutual

/-- How deep the innermost part lies. -/
def depth : Pattern → Nat
  | empty | flags _ | literal _ | anyChar | edge | wordEdge | shorthand _ => 0
  | set s => s.depth
  | repeated p => p.depth + 1
  | group _ body => body.depth + 1
  | sequence ps | choice ps => depthOfAll ps + 1

/-- The depth of the deepest of some patterns. -/
def depthOfAll : List Pattern → Nat
  | [] => 0
  | p :: r => max p.depth (depthOfAll r)

end

end Pattern

end ClassModel
