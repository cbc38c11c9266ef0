/-
Lines that declare a type.

A header names a class, an interface or an enum.  Only a class header says more: whether
it is abstract, what it extends and what it implements.  Whatever stands between the
header and an opening brace, such as a stereotype, is passed over; what follows the brace
is the beginning of the body.
-/
import ClassModel.Diagram.TypeText

namespace ClassModel

/-- The kind of a declared type, with what its header says. -/
inductive HeaderKind where
  | ofClass (isAbstract : Bool) (superclass : Option String) (interfaces : List String)
  | ofInterface
  | ofEnum
  deriving DecidableEq, Repr

/-- A header line. -/
structure Header where
  name : String
  kind : HeaderKind
  /-- The text after an opening brace on the same line. -/
  body : Option (List Char)
  deriving DecidableEq, Repr

namespace LineParser

/-- The optional clause `extends Name`, with the spaces around the name. -/
def extendsClause : LineParser (Option String) :=
  optional do
    keyword "extends"
    spaces1
    let parent ← name
    spaces
    return parent

/-- A further name in a list, with the comma in front of it. -/
def nextName : LineParser String := do
  spaces
  let _ ← char ','
  spaces
  name

/-- The optional clause `implements Name, Name`, with the spaces around the names. -/
def implementsClause : LineParser (List String) := do
  let names ← optional do
    keyword "implements"
    spaces1
    let first ← name
    let others ← many nextName
    spaces
    return first :: others
  return names.getD []

/-- The header of a class. -/
def classHeader : LineParser (String × HeaderKind) := do
  let mark ← optional do
    keyword "abstract"
    spaces1
  keyword "class"
  spaces1
  let name ← name
  spaces
  let parent ← extendsClause
  let interfaces ← implementsClause
  return (name, .ofClass mark.isSome parent interfaces)

/-- The header of an interface or an enum, by its keyword. -/
def plainHeader (word : String) (kind : HeaderKind) : LineParser (String × HeaderKind) := do
  keyword word
  spaces1
  let name ← name
  return (name, kind)

/-- The text after the first opening brace, if there is a brace. -/
def opening : LineParser (Option (List Char)) := do
  let _ ← run (· != '{')
  optional do
    let _ ← char '{'
    run fun _ => true

/-- A whole header line. -/
def header : LineParser Header := do
  spaces
  let (name, kind) ←
    classHeader <|> plainHeader "interface" .ofInterface <|> plainHeader "enum" .ofEnum
  let body ← opening
  done
  return { name, kind, body }

end LineParser

/-- The type that a line declares. -/
def header? (line : List Char) : Option Header :=
  LineParser.accept LineParser.header line

end ClassModel
