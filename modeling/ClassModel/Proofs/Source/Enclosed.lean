/-
Texts between delimiters.

The grammar skips arguments, bodies and initial values as whole groups, and what it takes for
a group can be said without reading one.  Between its delimiters stand groups of the same
kind, closed literals, closed comments, slashes that begin no comment and characters that mean
nothing there.  A delimiter inside a literal or a comment is one of their characters, and the
other kinds of delimiters mean nothing.

Angle brackets enclose less: groups of the same kind and any characters but semicolons and
braces.  They know neither literals nor comments.

The initial value of a field ends at a comma or a semicolon outside all of these.  There an
angle bracket may also be an operator, and the grammar cannot tell: it takes whatever looks
like a group for one, even if the group ends behind the value.
-/
import ClassModel.Source.Lexeme

namespace ClassModel.Source

/-- What stands between the quotes of a literal: a backslash takes the next character along. -/
inductive LiteralBody (quote : Char) : List Char → Prop where
  | nil : LiteralBody quote []
  | plain {c : Char} {r : List Char} (hquote : c ≠ quote) (hslash : c ≠ '\\')
      (hr : LiteralBody quote r) : LiteralBody quote (c :: r)
  | escape {c : Char} {r : List Char} (hr : LiteralBody quote r) : LiteralBody quote ('\\' :: c :: r)

/-- What stands between the delimiters of a group. -/
inductive Enclosed (opening closing : Char) : List Char → Prop where
  | nil : Enclosed opening closing []
  | plain {c : Char} {r : List Char} (hc : c ∉ [opening, closing, '"', '\'', '/'])
      (hr : Enclosed opening closing r) : Enclosed opening closing (c :: r)
  | slash {r : List Char} (hnext : ∀ c ∈ r.head?, c ∉ ['/', '*'])
      (hr : Enclosed opening closing r) : Enclosed opening closing ('/' :: r)
  | literal {quote : Char} {body r : List Char} (hquote : quote ∈ ['"', '\''])
      (hb : LiteralBody quote body) (hr : Enclosed opening closing r) :
      Enclosed opening closing (quote :: (body ++ quote :: r))
  | line {body r : List Char} (hb : '\n' ∉ body) (hr : Enclosed opening closing r) :
      Enclosed opening closing ('/' :: '/' :: (body ++ '\n' :: r))
  | comment {body r : List Char} (hb : ¬['*', '/'] <:+: body) (hr : Enclosed opening closing r) :
      Enclosed opening closing ('/' :: '*' :: (body ++ '*' :: '/' :: r))
  | group {x r : List Char} (hx : Enclosed opening closing x) (hr : Enclosed opening closing r) :
      Enclosed opening closing (opening :: (x ++ closing :: r))

/-- A group with its delimiters. -/
def BlockText (opening closing : Char) (x : List Char) : Prop :=
  ∃ y, Enclosed opening closing y ∧ x = opening :: (y ++ [closing])

/-- The delimiters that the grammar skips groups of. -/
def delimiters : List (Char × Char) :=
  [('(', ')'), ('[', ']'), ('\x7b', '\x7d')]

/-- The characters that delimiters must not be: a group knows them by other names. -/
def isMark (c : Char) : Bool :=
  c == '"' || c == '\'' || c == '/' || c == '*' || c == '\n'

/-- Delimiters are two, and they are neither quotes nor parts of comments. -/
theorem apart_of_mem_delimiters : ∀ p ∈ delimiters,
    p.1 ≠ p.2 ∧ isMark p.1 = false ∧ isMark p.2 = false := by
  decide

/-- What stands between two angle brackets. -/
inductive AngleEnclosed : List Char → Prop where
  | nil : AngleEnclosed []
  | plain {c : Char} {r : List Char} (hc : c ∉ ['<', '>', ';', '\x7b', '\x7d'])
      (hr : AngleEnclosed r) : AngleEnclosed (c :: r)
  | group {x r : List Char} (hx : AngleEnclosed x) (hr : AngleEnclosed r) :
      AngleEnclosed ('<' :: (x ++ '>' :: r))

/-- A group in angle brackets. -/
def AngleText (x : List Char) : Prop :=
  ∃ y, AngleEnclosed y ∧ x = '<' :: (y ++ ['>'])

/-- Where a comment begins that is closed if it must be. -/
inductive BeginsComment : List Char → Prop where
  | line {r : List Char} : BeginsComment ('/' :: '/' :: r)
  | block {body r : List Char} (hb : ¬['*', '/'] <:+: body) :
      BeginsComment ('/' :: '*' :: (body ++ '*' :: '/' :: r))

/-- The characters that end an initial value, or have a meaning of their own there. -/
def valueMarks : List Char :=
  [',', ';', '\x7b', '\x7d', '(', ')', '[', ']', '"', '\'', '/', '<']

/-- An initial value in front of what stands behind it.  It is made of groups, literals,
comments and characters that mean nothing.  A slash is one of these characters if no comment
begins there, and a `<` if no group in angle brackets does, be it one that ends behind the
value. -/
inductive InitialText (rest : List Char) : List Char → Prop where
  | nil : InitialText rest []
  | plain {c : Char} {r : List Char} (hc : c ∉ valueMarks) (hr : InitialText rest r) :
      InitialText rest (c :: r)
  | slash {r : List Char} (hno : ¬BeginsComment ('/' :: (r ++ rest))) (hr : InitialText rest r) :
      InitialText rest ('/' :: r)
  | less {r : List Char} (hno : ∀ x, AngleText x → ¬x <+: '<' :: (r ++ rest))
      (hr : InitialText rest r) : InitialText rest ('<' :: r)
  | literal {quote : Char} {body r : List Char} (hquote : quote ∈ ['"', '\''])
      (hb : LiteralBody quote body) (hr : InitialText rest r) :
      InitialText rest (quote :: (body ++ quote :: r))
  | line {body r : List Char} (hb : '\n' ∉ body) (hr : InitialText rest r) :
      InitialText rest ('/' :: '/' :: (body ++ '\n' :: r))
  | comment {body r : List Char} (hb : ¬['*', '/'] <:+: body) (hr : InitialText rest r) :
      InitialText rest ('/' :: '*' :: (body ++ '*' :: '/' :: r))
  | group {p : Char × Char} {x r : List Char} (hp : p ∈ delimiters) (hx : BlockText p.1 p.2 x)
      (hr : InitialText rest r) : InitialText rest (x ++ r)
  | angle {x r : List Char} (hx : AngleText x) (hr : InitialText rest r) : InitialText rest (x ++ r)

end ClassModel.Source
