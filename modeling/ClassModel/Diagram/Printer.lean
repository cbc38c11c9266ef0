/-
Writing a model as a diagram.

Every construct has one written form.  An entity without members has no body, except for
an interface, which always has one; all associations are written as compositions owned
by their left type; the sections for classes, interfaces, enums and associations are
separated by blank lines, and an empty section leaves no trace.

The written form of a member carries a marker, the word `{static}` and, for a method, the
word `abstract`, in this order, so that each part stands where the line grammars look
for it.
-/
import ClassModel.Model
import ClassModel.Text.Blank

namespace ClassModel

/-- A text in front of which something stands only if it holds. -/
def textIf (b : Bool) (s : String) : String :=
  if b then s else ""

namespace Diagram

/-- The line of an attribute. -/
def attributeLine (a : Attribute) : String :=
  "\t" ++ String.singleton a.visibility.marker ++ " " ++ textIf a.isStatic "\x7bstatic\x7d " ++
    String.ofList (trim a.type.toList) ++ " " ++ a.name

/-- A parameter as a method line lists it. -/
def parameter (p : Parameter) : String :=
  p.name ++ " : " ++ p.type

/-- The line of a method. -/
def methodLine (m : Method) : String :=
  "\t" ++ String.singleton m.visibility.marker ++ " " ++ textIf m.isStatic "\x7bstatic\x7d " ++
    textIf m.isAbstract "abstract " ++ m.returnType ++ " " ++ m.name ++ "(" ++
    String.intercalate ", " (m.parameters.map parameter) ++ ")"

/-- The lines of a list of methods. -/
def methodLines (ms : List Method) : String :=
  String.intercalate "\n" (ms.map methodLine)

/-- The clauses of a class header behind the name. -/
def classClauses (c : Class) : String :=
  (match c.superclass with
    | some parent => " extends " ++ parent
    | none => "") ++
  textIf (!c.interfaces.isEmpty) (" implements " ++ String.intercalate ", " c.interfaces)

/-- The body of a class with members; a blank line separates attributes from methods. -/
def classBody (c : Class) : String :=
  let attributes := String.intercalate "\n" (c.attributes.values.map attributeLine)
  let methods := methodLines c.methods.values
  " \x7b\n" ++ attributes ++ textIf (!c.attributes.isEmpty && !c.methods.isEmpty) "\n\n" ++
    methods ++ "\n\x7d"

/-- The declaration of a class. -/
def renderClass (c : Class) : String :=
  textIf c.isAbstract "abstract " ++ "class " ++ c.name ++ classClauses c ++
    textIf c.hasMembers (classBody c)

/-- The declaration of an interface. -/
def renderInterface (i : Interface) : String :=
  "interface " ++ i.name ++ " \x7b\n" ++ methodLines i.methods.values ++ "\n\x7d"

/-- The line of a constant. -/
def constantLine (p : EnumProperty) : String :=
  "\n\t" ++ p.name ++ textIf (!p.value.isEmpty) (" : " ++ p.value)

/-- The declaration of an enum. -/
def renderEnum (e : Enum) : String :=
  "enum " ++ e.name ++
    textIf (!e.properties.isEmpty)
      (" \x7b" ++ String.join (e.properties.values.map constantLine) ++ "\n\x7d")

/-- A multiplicity in quotes, or nothing for an unspecified one. -/
def quoted (m : Multiplicity) : String :=
  textIf (m ≠ .unspecified) ("\"" ++ m.literal ++ "\"")

/-- The line of an association. -/
def renderAssociation (a : Association) : String :=
  a.left ++ " " ++ quoted a.rightToLeft ++ " *--> " ++ quoted a.leftToRight ++ " " ++ a.right ++
    textIf (!a.label.isEmpty) (" : " ++ a.label)

/-- Declarations separated by blank lines. -/
def paragraphs (ds : List String) : String :=
  String.intercalate "\n\n" ds

/-- The sections of a diagram. -/
def sections (m : Model) : List String :=
  [paragraphs (m.classes.values.map renderClass),
    paragraphs (m.interfaces.values.map renderInterface),
    paragraphs (m.enums.values.map renderEnum),
    String.intercalate "\n" (m.associations.map renderAssociation)]

/-- The diagram of a model. -/
def render (m : Model) : String :=
  "@startuml\n" ++ paragraphs ((sections m).filter (!·.isEmpty)) ++ "\n@enduml"

end Diagram

end ClassModel
