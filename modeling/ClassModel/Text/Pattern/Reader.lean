/-
Reading patterns.

The characters of a pattern stand for themselves, apart from those that have a meaning:

    a|b  (a)  a*  a+  a?     choices, groups and repetitions
    [a-z]  .  ^  $           sets, any character, and the edges
    \d  \x41  \.             categories, characters by number, and characters as such
    (?i)  (?i:a)  (?<n>a)    flags, a group with flags, and a group with a name

Braces would count repetitions, but the braces of what a pattern stands in end it before,
so an opening brace has no meaning here and is refused.  For the same reason neither
characters nor categories can be given in braces.  There is no looking ahead, and there are
no references back.

A set is read in the same way, from its opening bracket to the closing one.  Inside it two
characters with a hyphen between them are a range, a bracket opens another set, and sets
may be cut, subtracted and compared by the doubled characters of `SetOperator.at?`.

If a flag asks for it, blanks are skipped wherever a part may begin, and so is what stands
between a number sign and the end of its line.

Every round of `Pattern.read` and of `CharSet.read` reads a character at least, so that the
length of the text bounds the number of rounds.
-/
import ClassModel.Text.Alphanumeric
import ClassModel.Text.Blank
import ClassModel.Text.Pattern

namespace ClassModel

namespace Pattern

/-! ### Blanks and comments -/

/-- What follows the blanks and comments at the beginning of a text, or of a comment. -/
def skipFiller : Bool → List Char → List Char
  | _, [] => []
  | true, c :: r => skipFiller (c != '\n') r
  | false, c :: r =>
      if isBlank c then skipFiller false r
      else if c = '#' then skipFiller true r
      else c :: r

/-- The text without the blanks and comments in front, where these are skipped. -/
def skip (verbose : Bool) (text : List Char) : List Char :=
  if verbose then skipFiller false text else text

/-- Where nothing is skipped the text stays as it is. -/
@[simp]
theorem skip_false (text : List Char) : skip false text = text := rfl

theorem skipFiller_suffix (inComment : Bool) (text : List Char) :
    skipFiller inComment text <:+ text := by
  fun_induction skipFiller inComment text with
  | case1 => exact List.suffix_refl _
  | case2 c r ih => exact ih.trans (List.suffix_cons c r)
  | case3 c r _ ih => exact ih.trans (List.suffix_cons c r)
  | case4 r _ ih => exact ih.trans (List.suffix_cons '#' r)
  | case5 => exact List.suffix_refl _

/-- What is left is an end of the text. -/
theorem skip_suffix (verbose : Bool) (text : List Char) : skip verbose text <:+ text := by
  cases verbose
  · exact List.suffix_refl _
  · exact skipFiller_suffix false text

/-! ### Behind a backslash -/

/-- The value of a hexadecimal digit. -/
def hexValue? (c : Char) : Option Nat :=
  if c.isDigit then some (c.toNat - '0'.toNat)
  else if 'a' ≤ c && c ≤ 'f' then some (c.toNat - 'a'.toNat + 10)
  else if 'A' ≤ c && c ≤ 'F' then some (c.toNat - 'A'.toNat + 10)
  else none

/-- The number of so many hexadecimal digits, behind the digits that were read before.
Blanks may stand around each digit. -/
def hexNumber? (verbose : Bool) : Nat → Nat → List Char → Option (Nat × List Char)
  | 0, value, text => some (value, skip verbose text)
  | count + 1, value, text =>
      match skip verbose text with
      | [] => none
      | c :: r => do hexNumber? verbose count (value * 16 + (← hexValue? c)) r

/-- The character of a number in so many hexadecimal digits. -/
def charOfHex? (verbose : Bool) (count : Nat) (text : List Char) :
    Option (Char × List Char) := do
  let (value, r) ← hexNumber? verbose count 0 text
  if value.isValidChar then some (Char.ofNat value, r) else none

/-- A character of ASCII that is neither a letter nor a digit nor an angle bracket. -/
def isPunctuation (c : Char) : Bool :=
  c.toNat < 0x80 && !c.isAlphanum && c != '<' && c != '>'

/-- The single character that a character behind a backslash stands for. -/
def escaped? (c : Char) : Option Char :=
  if isPunctuation c then some c
  else if c = 'a' then some '\x07'
  else if c = 'f' then some '\x0c'
  else if c = 'n' then some '\n'
  else if c = 'r' then some '\r'
  else if c = 't' then some '\t'
  else if c = 'v' then some '\x0b'
  else none

/-- What a backslash and what follows it stand for, from behind the backslash. -/
def escape? (verbose : Bool) : List Char → Option (Pattern × List Char)
  | [] => none
  | 'x' :: r => do
      let (c, r) ← charOfHex? verbose 2 r
      return (literal ⟨c, true⟩, r)
  | 'u' :: r => do
      let (c, r) ← charOfHex? verbose 4 r
      return (literal ⟨c, false⟩, r)
  | 'U' :: r => do
      let (c, r) ← charOfHex? verbose 8 r
      return (literal ⟨c, false⟩, r)
  | c :: r =>
      if ['A', 'z'].contains c then some (edge, r)
      else if ['b', 'B', '<', '>'].contains c then some (wordEdge, r)
      else
        match Shorthand.ofLetter? c with
        | some s => some (shorthand s, r)
        | none => (escaped? c).map fun d => (literal ⟨d, false⟩, r)

/-- The pattern as a member of a set. -/
def toMember? : Pattern → Option CharSet
  | literal l => some (.literal l)
  | shorthand s => some (.shorthand s)
  | _ => none

/-- The pattern as an end of a range. -/
def toLiteral? : Pattern → Option Literal
  | literal l => some l
  | _ => none

/-! ### Sets -/

/-- The operator at the beginning of a text. -/
def SetOperator.at? : List Char → Option (SetOperator × List Char)
  | '&' :: '&' :: r => some (intersection, r)
  | '-' :: '-' :: r => some (difference, r)
  | '~' :: '~' :: r => some (symmetricDifference, r)
  | _ => none

end Pattern

namespace CharSet

open Pattern

/-- The set of a name between colons, from behind the opening bracket. -/
def named? (text : List Char) : Option (CharSet × List Char) :=
  match text with
  | ':' :: r =>
      let (negated, r) :=
        match r with
        | '^' :: r => (true, r)
        | _ => (false, r)
      let name := String.ofList (r.takeWhile (· != ':'))
      match r.dropWhile (· != ':') with
      | ':' :: ']' :: r => if names.contains name then some (named name negated, r) else none
      | _ => none
  | _ => none

/-- The character that decides what a hyphen means, from behind the hyphen: the next one
that is no blank.  A number sign counts as a blank, but only the first one. -/
def decisive? (verbose : Bool) (text : List Char) : Option Char :=
  if verbose then
    match text.dropWhile isBlank with
    | '#' :: r => (r.dropWhile isBlank).head?
    | r => r.head?
  else text.head?

/-- A character of a set, which may stand alone or at an end of a range. -/
def atom? (verbose : Bool) : List Char → Option (Pattern × List Char)
  | [] => none
  | '\\' :: r => escape? verbose r
  | c :: r => some (.literal ⟨c, false⟩, r)

/-- A member of a set: a character, a category or a range.  A hyphen makes no range in
front of the closing bracket and in front of another hyphen. -/
def member? (verbose : Bool) (text : List Char) : Option (CharSet × List Char) := do
  let (first, rest) ← atom? verbose text
  match skip verbose rest with
  | '-' :: behind =>
      if [some ']', some '-'].contains (decisive? verbose behind) then
        return (← first.toMember?, '-' :: behind)
      else
        let (last, rest) ← atom? verbose (skip verbose behind)
        let first ← first.toLiteral?
        let last ← last.toLiteral?
        if first.char ≤ last.char then return (range first last, rest) else none
  | rest => return (← first.toMember?, rest)

/-- A set that is being read. -/
structure Draft where
  /-- Nothing was read but hyphens. -/
  isFresh : Bool := true
  /-- The members behind the last operator, the last one first. -/
  members : List CharSet := []
  /-- What stands in front of the last operator, and the operator. -/
  left : Option (CharSet × SetOperator) := none
  deriving Inhabited

namespace Draft

/-- One more member. -/
def add (d : Draft) (s : CharSet) : Draft :=
  { d with isFresh := false, members := s :: d.members }

/-- A hyphen at the beginning. -/
def addHyphen (d : Draft) : Draft :=
  { d with members := literal ⟨'-', false⟩ :: d.members }

/-- The set as far as it was read. -/
def toSet (d : Draft) : CharSet :=
  let right := ofMembers d.members.reverse
  match d.left with
  | none => right
  | some (left, operator) => combine operator left right

/-- An operator behind what was read. -/
def operate (d : Draft) (operator : SetOperator) : Draft where
  isFresh := false
  left := some (d.toSet, operator)

end Draft

/-- A caret at the beginning of a set, from behind the bracket. -/
def caret (verbose : Bool) (text : List Char) : Bool × List Char :=
  match skip verbose text with
  | '^' :: r => (true, r)
  | r => (false, r)

/-- Read a set up to its closing bracket.  Hyphens at the beginning stand for themselves,
and so does a closing bracket at the very beginning. -/
def read (verbose : Bool) : Nat → Draft → List Char → Option (CharSet × List Char)
  | 0, _, _ => none
  | fuel + 1, d, text =>
      match skip verbose text with
      | [] => none
      | c :: r =>
          if d.isFresh && c = '-' then read verbose fuel d.addHyphen r
          else if c = ']' then
            if d.isFresh && d.members.isEmpty then
              read verbose fuel (d.add (literal ⟨c, false⟩)) r
            else some (d.toSet, r)
          else if c = '[' then
            match named? r with
            | some (s, r) => read verbose fuel (d.add s) r
            | none => do
                let (negated, r) := caret verbose r
                let (s, r) ← read verbose fuel {} r
                read verbose fuel (d.add (bracket negated s)) r
          else
            match SetOperator.at? (c :: r) with
            | some (operator, r) => read verbose fuel (d.operate operator) r
            | none => do
                let (s, r) ← member? verbose (c :: r)
                read verbose fuel (d.add s) r

/-- The set of a text, from behind the opening bracket. -/
def ofText? (verbose : Bool) (text : List Char) : Option (CharSet × List Char) := do
  let (negated, r) := caret verbose text
  let (s, r) ← read verbose (r.length + 1) {} r
  return (bracket negated s, r)

end CharSet

/-! ### Groups and flags -/

namespace Pattern

/-- What is left to read, and what its meaning depends on. -/
structure Cursor where
  text : List Char
  /-- Blanks and comments are skipped. -/
  verbose : Bool := false
  /-- The names of the groups so far. -/
  names : List (List Char) := []
  deriving DecidableEq, Inhabited, Repr

/-- A character that the name of a group may begin with. -/
def isNameStart (c : Char) : Bool :=
  c == '_' || isLetter c

/-- A character that the name of a group may go on with. -/
def isNameRest (c : Char) : Bool :=
  c == '_' || c == '.' || c == '[' || c == ']' || isAlphanumeric c

/-- The text may be the name of a group. -/
def isGroupName : List Char → Bool
  | [] => false
  | c :: r => isNameStart c && r.all isNameRest

/-- The change of flags that letters ask for.  Those behind a hyphen are cleared.  No letter
comes twice, and there is one hyphen at most, which is not the last character. -/
def FlagChange.ofText? (text : List Char) : Option FlagChange := do
  let on ← (text.takeWhile (· != '-')).mapM Flag.ofLetter?
  let off ←
    match text.dropWhile (· != '-') with
    | [] => some []
    | [_] => none
    | _ :: r => r.mapM Flag.ofLetter?
  if (on ++ off).Nodup then some { on, off } else none

/-- What an opening parenthesis begins. -/
inductive Opening where
  /-- Flags alone, with the closing parenthesis. -/
  | flags (change : FlagChange)
  /-- A group, up to where its body begins. -/
  | group (change : FlagChange)
  deriving DecidableEq, Inhabited, Repr

/-- A group with a name, from where the name begins. -/
def Opening.named? (c : Cursor) (text : List Char) : Option (Opening × Cursor) :=
  let name := text.takeWhile (· != '>')
  match text.dropWhile (· != '>') with
  | _ :: r =>
      if isGroupName name && !c.names.contains name then
        some (group {}, { c with text := r, names := name :: c.names })
      else none
  | [] => none

/-- Flags, from where they begin.  Flags alone must be there. -/
def Opening.flagged? (c : Cursor) (text : List Char) : Option (Opening × Cursor) := do
  let isFlag (c : Char) : Bool := c != ':' && c != ')'
  let letters := text.takeWhile isFlag
  let change ← FlagChange.ofText? letters
  let inside (r : List Char) : Cursor :=
    { c with text := r, verbose := change.apply .verbose c.verbose }
  match text.dropWhile isFlag with
  | ':' :: r => return (group change, inside r)
  | ')' :: r => if letters = [] then none else return (flags change, inside r)
  | _ => none

/-- What a parenthesis begins, from behind it, and where to read on. -/
def Opening.ofCursor? (c : Cursor) : Option (Opening × Cursor) :=
  match skip c.verbose c.text with
  | '?' :: 'P' :: '<' :: r => named? c r
  | '?' :: '<' :: r => named? c r
  | '?' :: r => flagged? c r
  | r => some (group {}, { c with text := r })

/-! ### Patterns -/

/-- A pattern that is being read. -/
structure Draft where
  /-- The branches that are complete, the last one first. -/
  branches : List Pattern := []
  /-- The parts of the branch that is not, the last one first. -/
  items : List Pattern := []
  deriving Inhabited

namespace Draft

/-- One more part. -/
def add (d : Draft) (p : Pattern) : Draft :=
  { d with items := p :: d.items }

/-- A new branch. -/
def split (d : Draft) : Draft where
  branches := ofItems d.items.reverse :: d.branches

/-- The last part may be repeated.  A change of flags is nothing to repeat. -/
def repeat? (d : Draft) : Option Draft :=
  match d.items with
  | [] => none
  | .flags _ :: _ => none
  | p :: r => some { d with items := repeated p :: r }

/-- The pattern as far as it was read. -/
def toPattern (d : Draft) : Pattern :=
  ofBranches d.split.branches.reverse

end Draft

/-- A repetition may be followed by a mark that makes it as short, or as long, as
possible. -/
def skipMark : List Char → List Char
  | '?' :: r => r
  | r => r

/-- Read a pattern up to the end of the text, or to the parenthesis that closes the group
that the pattern stands in. -/
def read : Nat → Cursor → Draft → Option (Pattern × Cursor)
  | 0, _, _ => none
  | fuel + 1, cursor, d =>
      let go (r : List Char) : Cursor := { cursor with text := r }
      match skip cursor.verbose cursor.text with
      | [] => some (d.toPattern, go [])
      | c :: r =>
          if c = ')' then some (d.toPattern, go (c :: r))
          else if c = '|' then read fuel (go r) d.split
          else if c = '*' || c = '+' || c = '?' then do
            read fuel (go (skipMark r)) (← d.repeat?)
          else if c = '\x7b' then none
          else if c = '[' then do
            let (s, r) ← CharSet.ofText? cursor.verbose r
            read fuel (go r) (d.add (set s))
          else if c = '\\' then do
            let (p, r) ← escape? cursor.verbose r
            read fuel (go r) (d.add p)
          else if c = '.' then read fuel (go r) (d.add anyChar)
          else if c = '^' || c = '$' then read fuel (go r) (d.add edge)
          else if c = '(' then
            match Opening.ofCursor? (go r) with
            | none => none
            | some (.flags change, cursor) => read fuel cursor (d.add (flags change))
            | some (.group change, inside) => do
                let (body, stop) ← read fuel inside {}
                match stop.text with
                | [] => none
                | _ :: r =>
                    read fuel { stop with text := r, verbose := cursor.verbose }
                      (d.add (group change body))
          else read fuel (go r) (d.add (literal ⟨c, false⟩))

/-- The pattern of a text.  Every parenthesis that closes a group must open one before. -/
def ofText? (text : List Char) : Option Pattern := do
  let (p, stop) ← read (text.length + 1) { text } {}
  if stop.text = [] then some p else none

/-- The text of no characters is the empty pattern. -/
@[simp]
theorem ofText?_nil : ofText? [] = some empty := rfl

end Pattern

end ClassModel
