/-
Which patterns can be used.

A pattern is matched byte by byte, and without tables of the categories of characters or of
their upper and lower case.  So there are patterns that are well formed but cannot be used.
Which these are depends on two flags, which hold from where they are set to the end of the
group, also across its branches.

Where characters are matched, neither the case of a character can be ignored nor a category
asked for nor the edge of a word.  Where bytes are matched, all this is possible for the
characters of ASCII; but nothing may match a part of a character, so that sets hold ASCII
only and are not negated, and a dot is refused.

Besides, a pattern may only be so deep.
-/
import ClassModel.Text.Pattern.Reader

namespace ClassModel

namespace Pattern

/-- The flags that decide what can be used. -/
structure Mode where
  caseless : Bool := false
  unicode : Bool := true
  deriving DecidableEq, Inhabited, Repr

namespace Mode

/-- The mode behind a change of flags. -/
def change (m : Mode) (f : FlagChange) : Mode where
  caseless := f.apply .caseless m.caseless
  unicode := f.apply .unicode m.unicode

/-- Without flags the mode stays as it is. -/
@[simp]
theorem change_empty (m : Mode) : m.change {} = m := rfl

/-- A character can be matched.  A byte that is no character of ASCII is a part of one. -/
def allowsLiteral (m : Mode) (l : Literal) : Bool :=
  if m.unicode then !m.caseless else !l.isByte || l.char.toNat < 0x80

/-- A character can be a member of a set. -/
def allowsMember (m : Mode) (l : Literal) : Bool :=
  if m.unicode then !m.caseless else l.char.toNat < 0x80

/-- The characters of a category can be matched. -/
def allowsShorthand (m : Mode) (s : Shorthand) : Bool :=
  !m.unicode && !s.negated

end Mode

end Pattern

namespace CharSet

open Pattern

mutual

/-- The set can be used. -/
def isUsable (m : Mode) : CharSet → Bool
  | empty => true
  | literal l => m.allowsMember l
  | range first last => m.allowsMember first && m.allowsMember last
  | named _ negated => if m.unicode then !m.caseless else !negated
  | shorthand s => m.allowsShorthand s
  | bracket negated s => (m.unicode || !negated) && s.isUsable m
  | union members => areUsable m members
  | combine _ left right => left.isUsable m && right.isUsable m

/-- Every one of some sets can be used. -/
def areUsable (m : Mode) : List CharSet → Bool
  | [] => true
  | s :: r => s.isUsable m && areUsable m r

end

end CharSet

namespace Pattern

mutual

/-- The mode behind a pattern, if the pattern can be used. -/
def modeAfter? (m : Mode) : Pattern → Option Mode
  | empty | edge => some m
  | flags f => some (m.change f)
  | literal l => if m.allowsLiteral l then some m else none
  | anyChar => if m.unicode then some m else none
  | wordEdge => if m.unicode then none else some m
  | shorthand s => if m.allowsShorthand s then some m else none
  | set s => if s.isUsable m then some m else none
  | repeated p => p.modeAfter? m
  | group f body => (body.modeAfter? (m.change f)).map fun _ => m
  | sequence ps | choice ps => modeAfterAll? m ps

/-- The mode behind some patterns, if all of them can be used. -/
def modeAfterAll? (m : Mode) : List Pattern → Option Mode
  | [] => some m
  | p :: r =>
      match p.modeAfter? m with
      | some m => modeAfterAll? m r
      | none => none

end

/-- The depth that a pattern may have. -/
def depthLimit : Nat := 250

/-- The pattern can be used. -/
def isUsable (p : Pattern) : Bool :=
  p.depth ≤ depthLimit && (p.modeAfter? {}).isSome

end Pattern

/-- The text is a pattern that can be used. -/
def isPattern (text : List Char) : Bool :=
  (Pattern.ofText? text).any Pattern.isUsable

/-- Nothing at all is a pattern. -/
@[simp]
theorem isPattern_nil : isPattern [] = true := rfl

end ClassModel
