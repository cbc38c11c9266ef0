/-
Lines that describe a member.

Inside a body a member is written in one of four layouts, tried in this order:

* `name : Type`, an attribute;
* `Type name`, an attribute;
* `name(parameters) : Type`, a method;
* `Type name(parameters)`, a method whose type may be missing.

Outside a body, `Target : ...` attaches an attribute or a method of the second or fourth
layout to a type.  A visibility marker may stand in front of either side of the colon,
and the inner one counts if both are there.
-/
import ClassModel.Event
import ClassModel.Diagram.TypeText

namespace ClassModel

/-- An attribute as a line describes it. -/
structure AttributeLine where
  visibility : Option Visibility
  name : String
  type : String
  deriving DecidableEq, Repr

/-- A method as a line describes it. -/
structure MethodLine where
  visibility : Option Visibility
  isAbstract : Bool
  name : String
  returnType : Option String
  parameters : List Parameter
  deriving DecidableEq, Repr

/-- A member as a line describes it. -/
inductive MemberLine where
  | field (line : AttributeLine)
  | method (line : MethodLine)
  deriving DecidableEq, Repr

/-- The kind of a described member. -/
def MemberLine.kind : MemberLine → MemberKind
  | field _ => .field
  | method _ => .method

/-- A member together with the name of the type it belongs to. -/
structure InlineMember where
  target : String
  member : MemberLine
  deriving DecidableEq, Repr

namespace LineParser

/-- An optional visibility marker.  The marker `~` may be written and says nothing. -/
def visibility : LineParser (Option Visibility) := do
  let marker ← optional (satisfy fun c => c == '+' || c == '-' || c == '#' || c == '~')
  return marker.bind Visibility.ofMarker?

/-- The optional word `abstract`, with the spaces after it. -/
def abstractMark : LineParser Bool := do
  let mark ← optional do
    keyword "abstract"
    spaces1
  return mark.isSome

/-- A parameter list with its parentheses. -/
def parameterList : LineParser (List Parameter) := do
  let _ ← char '('
  let inner ← run fun c => c != '(' && c != ')'
  let _ ← char ')'
  return readParameters inner

/-- A type and the spaces after it. -/
def typeBefore : LineParser String := do
  let type ← typeText
  spaces1
  return type

/-- An attribute in the layout `name : Type`. -/
def nameTypeAttribute : LineParser AttributeLine := do
  let visibility ← visibility
  spaces
  let name ← name
  colon
  let type ← typeText
  return { visibility, name, type }

/-- An attribute in the layout `Type name`, after its visibility. -/
def typeNameAttributeRest (visibility : Option Visibility) : LineParser AttributeLine := do
  let type ← typeBefore
  let name ← name
  return { visibility, name, type }

/-- An attribute in the layout `Type name`. -/
def typeNameAttribute : LineParser AttributeLine := do
  let visibility ← visibility
  spaces
  typeNameAttributeRest visibility

/-- A method in the layout `name(parameters) : Type`. -/
def nameTypeMethod : LineParser MethodLine := do
  let visibility ← visibility
  spaces
  let isAbstract ← abstractMark
  let name ← name
  spaces
  let parameters ← parameterList
  colon
  let type ← typeText
  return { visibility, isAbstract, name, returnType := some type, parameters }

/-- A method in the layout `Type name(parameters)`, after its visibility. -/
def typeNameMethodRest (visibility : Option Visibility) : LineParser MethodLine := do
  let isAbstract ← abstractMark
  let returnType ← optional typeBefore
  let name ← name
  spaces
  let parameters ← parameterList
  return { visibility, isAbstract, name, returnType, parameters }

/-- A method in the layout `Type name(parameters)`. -/
def typeNameMethod : LineParser MethodLine := do
  let visibility ← visibility
  spaces
  typeNameMethodRest visibility

/-- The target of an inline member and the visibility written on either side of the colon. -/
def inlineTarget : LineParser (String × Option Visibility) := do
  let outer ← visibility
  spaces
  let target ← name
  colon
  let inner ← visibility
  spaces
  return (target, inner.or outer)

/-- An attribute attached to a target. -/
def inlineAttribute : LineParser InlineMember := do
  let (target, visibility) ← inlineTarget
  let line ← typeNameAttributeRest visibility
  return { target, member := .field line }

/-- A method attached to a target. -/
def inlineMethod : LineParser InlineMember := do
  let (target, visibility) ← inlineTarget
  let line ← typeNameMethodRest visibility
  return { target, member := .method line }

end LineParser

open LineParser

/-- The attribute that a body line describes. -/
def attributeLine? (line : List Char) : Option AttributeLine :=
  (accept (fullLine nameTypeAttribute) line).or (accept (fullLine typeNameAttribute) line)

/-- The method that a body line describes. -/
def methodLine? (line : List Char) : Option MethodLine :=
  (accept (fullLine nameTypeMethod) line).or (accept (fullLine typeNameMethod) line)

/-- The member that a body line describes. -/
def memberLine? (line : List Char) : Option MemberLine :=
  ((attributeLine? line).map .field).or ((methodLine? line).map .method)

/-- The method that a line attaches to a type. -/
def inlineMethod? (line : List Char) : Option InlineMember :=
  accept (fullLine inlineMethod) line

/-- The member that a line attaches to a type. -/
def inlineMember? (line : List Char) : Option InlineMember :=
  (accept (fullLine inlineAttribute) line).or (inlineMethod? line)

end ClassModel
