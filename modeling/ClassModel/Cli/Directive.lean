/-
Directives of a log filter.

A directive sets a threshold.  It may be for a part of the library only, named by the
beginning of a target, and in brackets it may ask for more: an activity by its name, and
between braces a field.  The threshold stands behind an equals sign, as a level, the word
`off` or a number from 0 to 5; without one the directive lets everything through.

    parts       debug      umlbridge=info      umlbridge::cli
    brackets    [parse_uml]      [{line}]=trace      umlbridge[parse_uml{input_len=2}]=debug

A level standing alone is a directive for everything.

Blanks at the ends are no part of the form.  But what the form holds is cut out of the text
with its blanks: each part from where it begins in the form, counted in bytes.  So blanks in
front of a directive move every part, and blanks behind it belong to a level.  Either way
the directive can have no level then, and blanks in front let it fit nothing; but a field
must be readable also where it was moved to.
-/
import ClassModel.Event
import ClassModel.Text.Alphanumeric
import ClassModel.Text.Blank
import ClassModel.Text.Bytes
import ClassModel.Text.Number
import ClassModel.Text.Pattern.Support
import ClassModel.Text.Split

namespace ClassModel

/-- The target under which events of a part of the library are logged. -/
def Origin.target : Origin → String
  | diagramModifiers => "umlbridge::plugins::uml::modifiers"
  | diagramReader => "umlbridge::plugins::uml::parser"
  | sourceReader => "umlbridge::plugins::java::parser"
  | sourceVisit => "umlbridge::plugins::java::visitor"
  | conversion => "umlbridge::plugins::pipeline"
  | schema => "umlbridge::plugins::protobuf::renderer"
  | commandLine => "umlbridge::cli"

/-- The least rank that is let through.  No event has the rank six. -/
abbrev Threshold := Nat

namespace Threshold

/-- Lets everything through. -/
def everything : Threshold :=
  Level.trace.rank

/-- Lets nothing through. -/
def nothing : Threshold :=
  Level.error.rank + 1

end Threshold

/-- The threshold of a word: a level, `off`, or a number that grows with what is let
through. -/
def Threshold.ofWord? (word : List Char) : Option Threshold :=
  match wholeNumber? word with
  | some n => if n ≤ 5 then some (nothing - n) else none
  | none =>
      let w := String.ofList (word.map Char.toLower)
      if w = "off" then some nothing
      else (Level.all.find? fun l => l.word = w).map Level.rank

/-- A level is named by its word. -/
@[simp]
theorem Threshold.ofWord?_word (l : Level) : Threshold.ofWord? l.word.toList = some l.rank := by
  cases l <;> decide

/-- What a field is asked to hold: a count, another number, or a text that fits a
pattern. -/
inductive FieldValue.Wanted where
  | number (n : Nat)
  | decimal (text : List Char)
  | pattern (text : List Char)
  deriving DecidableEq, Inhabited, Repr

/-- A field that must be there, and what it has to hold. -/
structure FieldTest where
  name : String
  value : Option FieldValue.Wanted
  deriving DecidableEq, Inhabited, Repr

/-- A directive. -/
structure Directive where
  /-- The beginning of a target. -/
  target : String := ""
  /-- The name of an activity. -/
  activity : Option String := none
  field : Option FieldTest := none
  threshold : Threshold
  deriving DecidableEq, Inhabited, Repr

/-! ### Fields -/

/-- A wanted value.  A count has at most 64 bits. -/
def FieldValue.Wanted.ofText? (text : List Char) : Option FieldValue.Wanted :=
  match (wholeNumber? text).filter (· < 0x10000000000000000) with
  | some n => some (.number n)
  | none =>
      if isDecimal text then some (.decimal text)
      else if isPattern text then some (.pattern text)
      else none

/-- The test of a text: a name, and behind an equals sign a value.  What follows a second
equals sign is not read. -/
def FieldTest.ofText? (text : List Char) : Option FieldTest :=
  match splitOnChar '=' text with
  | name :: value :: _ =>
      (FieldValue.Wanted.ofText? value).map fun v =>
        { name := String.ofList name, value := some v }
  | _ => some { name := String.ofList text, value := none }

/-! ### The form of a directive -/

namespace Directive

/-- Where the parts of a directive are. -/
structure Form where
  target : Option ByteRange := none
  activity : Option ByteRange := none
  field : Option ByteRange := none
  /-- Where the level begins, which ends where the text does. -/
  level : Option Nat := none
  deriving DecidableEq, Inhabited, Repr

namespace Form

/-- What may follow a closing bracket, from so many bytes on. -/
def close? (f : Form) (start : Nat) : List Char → Option Form
  | [] => some f
  | '=' :: _ => some { f with level := some (start + 1) }
  | _ => none

/-- What stands in brackets, from so many bytes on, which is behind the opening one.  A name
may be missing in front of a field, but there is no empty field. -/
def bracket? (f : Form) (start : Nat) (text : List Char) : Option Form :=
  let inName (c : Char) : Bool := c != ']' && c != '\x7b'
  let inField (c : Char) : Bool := c != '\x7d'
  let name : ByteRange := ⟨start, byteCount (text.takeWhile inName)⟩
  match text.dropWhile inName with
  | ']' :: r => { f with activity := some name }.close? (name.stop + 1) r
  | '\x7b' :: r =>
      let field : ByteRange := ⟨name.stop + 1, byteCount (r.takeWhile inField)⟩
      if field.size = 0 then none
      else
        match r.dropWhile inField with
        | '\x7d' :: ']' :: r =>
            { f with
              activity := if name.size = 0 then none else some name
              field := some field }.close? (field.stop + 2) r
        | _ => none
  | _ => none

/-- A character that a target may begin with. -/
def isTargetStart (c : Char) : Bool :=
  isAlphanumeric c || c == '_' || c == ':' || c == '-'

/-- The form of a text without blanks at its ends.  A word alone has no parts. -/
def ofText? (text : List Char) : Option Form :=
  match text with
  | [] => none
  | '[' :: r => bracket? {} 1 r
  | c :: _ =>
      if isTargetStart c then
        let inTarget (c : Char) : Bool := c != '=' && c != '['
        let target : ByteRange := ⟨0, byteCount (text.takeWhile inTarget)⟩
        match text.dropWhile inTarget with
        | '=' :: _ => some { target := some target, level := some (target.stop + 1) }
        | '[' :: r => bracket? { target := some target } (target.stop + 1) r
        | _ => some {}
      else none

end Form

/-! ### Reading a directive -/

/-- The directive of a word alone: a level, or else a target. -/
def ofWord (word : List Char) : Directive :=
  match Threshold.ofWord? word with
  | some t => { threshold := t }
  | none => { target := String.ofList word, threshold := .everything }

/-- The directive of a form with parts, all but the threshold. -/
def scope? (f : Form) (text : List Char) : Option (Threshold → Directive) := do
  let part (r : ByteRange) : String := String.ofList (r.cut text)
  let field ←
    match f.field with
    | none => some none
    | some r => (FieldTest.ofText? (r.cut text)).map some
  return fun threshold =>
    { target := (f.target.map part).getD "", activity := f.activity.map part, field, threshold }

/-- The directive of a text. -/
def ofText? (text : String) : Option Directive := do
  let s := text.toList
  let form ← Form.ofText? (trim s)
  match form.level with
  | some start =>
      let scope ← scope? form s
      match dropBytes start s with
      | [] => return scope .everything
      | word => (Threshold.ofWord? word).map scope
  | none => if form = {} then return ofWord s else return (← scope? form s) .everything

end Directive

end ClassModel
