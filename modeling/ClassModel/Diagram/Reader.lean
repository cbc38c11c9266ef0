/-
Reading a diagram into a model.

A diagram is read in one pass over its declarations and three over its standalone lines:
inline members first, then compositions, then plain associations.  So a member may be
attached to a class that is declared further down, and compositions come before plain
associations whatever their order in the text.

Reading never fails.  A line that means nothing leaves an event, a member attached to a
type that is not declared is dropped with one, and the model that was there before is
only ever added to.
-/
import ClassModel.Traced
import ClassModel.Diagram.Constant
import ClassModel.Diagram.Outline

namespace ClassModel

/-! ### Members -/

/-- The attribute of a line: private unless marked otherwise. -/
def AttributeLine.attribute (l : AttributeLine) (m : Modifiers) : Attribute where
  name := l.name
  type := l.type
  visibility := l.visibility.getD .priv
  isStatic := m.isStatic

/-- The method of a line: public unless marked otherwise, and `void` unless typed. -/
def MethodLine.method (l : MethodLine) (m : Modifiers) : Method where
  name := l.name
  returnType := l.returnType.getD "void"
  parameters := l.parameters
  visibility := l.visibility.getD .pub
  isAbstract := l.isAbstract || m.isAbstract
  isStatic := m.isStatic

/-- Add the member that a line describes. -/
def Class.addMember (c : Class) (l : MemberLine) (m : Modifiers) : Class :=
  match l with
  | .field l => c.addAttribute (l.attribute m)
  | .method l => c.addMethod (l.method m)

/-- Report a marker that names the other kind of member.  The grammar decides all the same. -/
def noteMarker (owner : String) (kind : MemberKind) (m : Modifiers) : Traced Unit :=
  Traced.emitIf (m.contradict kind) (.memberKindMismatch owner kind)

/-- Report a body line that is no member, unless it is blank. -/
def noteSkipped (owner : String) (text : List Char) : Traced Unit :=
  Traced.emitIf (!isBlankText text) (.unrecognizedBodyLine owner (String.ofList text))

/-- Read a line of a class body. -/
def Class.readLine (c : Class) (line : Line) : Traced Class :=
  match memberLine? line.text with
  | some member => do
      noteMarker c.name member.kind line.modifiers
      return c.addMember member line.modifiers
  | none => do
      noteSkipped c.name line.text
      return c

/-- Read a line of an interface body, where only methods count. -/
def Interface.readLine (i : Interface) (line : Line) : Traced Interface :=
  match methodLine? line.text with
  | some method => do
      noteMarker i.name .method line.modifiers
      return i.addMethod (method.method line.modifiers)
  | none => do
      noteSkipped i.name line.text
      return i

/-- Read a line of an enum body. -/
def Enum.readLine (e : Enum) (line : Line) : Enum :=
  match constantLine? line.text with
  | some (name, value) => e.addProperty { name, value := value.getD "" }
  | none => e

/-! ### Declarations and standalone lines -/

/-- Register the type of a declaration. -/
def Model.readBlock (m : Model) (b : Block) : Traced Model :=
  match b.header.kind with
  | .ofClass isAbstract superclass interfaces => do
      let c ← b.body.foldlM Class.readLine
        { name := b.header.name, superclass, interfaces
          isAbstract := isAbstract || b.modifiers.isAbstract }
      return m.addClass c
  | .ofInterface => do
      let i ← b.body.foldlM Interface.readLine { name := b.header.name }
      return m.addInterface i
  | .ofEnum => return m.addEnum (b.body.foldl Enum.readLine { name := b.header.name })

/-- Attach a member to its target, or drop it if there is none. -/
def Model.attach (m : Model) (inline : InlineMember) (modifiers : Modifiers) : Traced Model :=
  match inline.member with
  | .field l =>
      match m.addAttribute? inline.target (l.attribute modifiers) with
      | some m' => return m'
      | none => do
          Traced.emit (.inlineAttributeDropped inline.target)
          return m
  | .method l =>
      match m.addMethod? inline.target (l.method modifiers) with
      | some m' => return m'
      | none => do
          Traced.emit (.inlineMethodDropped inline.target)
          return m

/-- The pass over inline members. -/
def Model.readInline (m : Model) : Standalone → Traced Model
  | .inline member modifiers => do
      noteMarker member.target member.member.kind modifiers
      m.attach member modifiers
  | _ => return m

/-- The pass over compositions. -/
def Model.readComposition (m : Model) : Standalone → Model
  | .composition r => m.addAssociation r.association
  | _ => m

/-- The pass over plain associations, which also reports the lines nothing was made of. -/
def Model.readPlain (m : Model) : Standalone → Traced Model
  | .plain r => return m.addAssociation r.association
  | .unrecognized text => do
      Traced.emitIf (!isBlankText text) (.unrecognizedLine (String.ofList text))
      return m
  | _ => return m

/-! ### Diagrams -/

/-- Read an outline into a model. -/
def Model.readOutline (m : Model) (o : Outline) : Traced Model := do
  let m ← o.blocks.foldlM Model.readBlock m
  Traced.emit (.declarationsRead m.census)
  let lines := o.standalone.map Standalone.ofLine
  let m ← lines.foldlM Model.readInline m
  let m ← lines.foldlM Model.readPlain (lines.foldl Model.readComposition m)
  Traced.emit (.associationsRead m.census)
  return m

/-- Read a diagram into a model that may already hold entities. -/
def Model.readDiagram (m : Model) (text : String) : Traced Model :=
  Traced.within (.readingDiagram text.utf8ByteSize) do
    let lines ← stripModifiers text.toList
    m.readOutline (Outline.ofLines lines)

namespace Diagram

/-- The model of a diagram. -/
def read (text : String) : Traced Model :=
  Model.empty.readDiagram text

/-! ### Recognising a diagram -/

/-- A text without the occurrences of a pattern, taken out from the left. -/
def removeAll (pattern : List Char) (s : List Char) : List Char :=
  match s with
  | [] => []
  | c :: r =>
      if pattern.isPrefixOf (c :: r) then removeAll pattern (r.drop (pattern.length - 1))
      else c :: removeAll pattern r
termination_by s.length
decreasing_by
  · simp only [List.length_drop, List.length_cons]
    omega
  · simp

/-- The lines of a text in the sense of text files: a line feed ends a line, together with
a carriage return in front of it. -/
def fileLines (s : List Char) : List (List Char) :=
  let pieces := splitOnChar '\n' s
  pieces.dropLast.map dropReturn ++ (pieces.getLast?.filter (· ≠ [])).toList

/-- A quick test whether a text looks like a diagram: it carries the opening directive or
some line of it declares a type. -/
def looksLike (text : String) : Bool :=
  occursIn "@startuml".toList text.toList ||
    (fileLines text.toList).any fun line =>
      (header? (removeAll "\x7babstract\x7d".toList line)).isSome

end Diagram

end ClassModel
