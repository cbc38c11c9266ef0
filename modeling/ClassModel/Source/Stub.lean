/-
Source stubs.

Every entity of a model can be written as a source file of its own that shows its
signatures.  A concrete method gets a body that returns nothing in particular.  A class
that is written as part of a model also carries the methods of the interfaces it
implements, behind its own ones and as they are, even if a name repeats.
-/
import ClassModel.Model

namespace ClassModel.Source

/-- A source file for one entity. -/
structure Stub where
  name : String
  body : String
  deriving DecidableEq, Inhabited, Repr

/-- The name of the file of a stub. -/
def Stub.fileName (s : Stub) : String :=
  s.name ++ ".java"

namespace Stub

/-- A word and a space if it applies. -/
def wordIf (b : Bool) (word : String) : String :=
  if b then word ++ " " else ""

/-- The parameter list of a method. -/
def parameterList (ps : List Parameter) : String :=
  String.intercalate ", " (ps.map fun p => p.type ++ " " ++ p.name)

/-- The line of a method.  In an interface nothing is called abstract and nothing has a body. -/
def methodLine (inInterface : Bool) (m : Method) : String :=
  "\t" ++ m.visibility.keyword ++ " " ++ wordIf (m.isAbstract && !inInterface) "abstract" ++
    m.returnType ++ " " ++ m.name ++ "(" ++ parameterList m.parameters ++ ")" ++
    if inInterface || m.isAbstract then ";" else " \x7breturn null;\x7d"

/-- The lines of methods. -/
def methodLines (inInterface : Bool) (ms : List Method) : String :=
  String.intercalate "\n" (ms.map (methodLine inInterface))

/-- The line of an attribute. -/
def attributeLine (a : Attribute) : String :=
  "\t" ++ a.visibility.keyword ++ " " ++ wordIf a.isStatic "static" ++ a.type ++ " " ++ a.name ++
    ";"

/-- The methods that a class takes over from the interfaces of a model. -/
def inheritedMethods (m : Model) (c : Class) : List Method :=
  c.interfaces.flatMap fun name =>
    match m.interface? name with
    | some i => i.methods.values
    | none => []

/-- The header of a class. -/
def classHeader (c : Class) : String :=
  wordIf c.isAbstract "abstract" ++ c.visibility.keyword ++ " class " ++ c.name ++
    (match c.superclass with
      | some parent => " extends " ++ parent
      | none => "") ++
    (if c.interfaces.isEmpty then ""
      else " implements " ++ String.intercalate ", " c.interfaces) ++
    " \x7b"

/-- A class with the given methods. -/
def classText (c : Class) (methods : List Method) : String :=
  classHeader c ++
    (if c.attributes.isEmpty then ""
      else "\n" ++ String.intercalate "\n" (c.attributes.values.map attributeLine)) ++
    (if methods.isEmpty then ""
      else (if c.attributes.isEmpty then "\n" else "\n\n") ++ methodLines false methods) ++
    "\n\x7d"

/-- A class on its own. -/
def renderClass (c : Class) : String :=
  classText c c.methods.values

/-- A class as part of a model. -/
def renderClassIn (m : Model) (c : Class) : String :=
  classText c (c.methods.values ++ inheritedMethods m c)

/-- An interface. -/
def renderInterface (i : Interface) : String :=
  i.visibility.keyword ++ " interface " ++ i.name ++ " \x7b\n" ++
    methodLines true i.methods.values ++ "\n\x7d"

/-- An enum. -/
def renderEnum (e : Enum) : String :=
  "enum " ++ e.name ++ " \x7b\n" ++
    String.intercalate ",\n" (e.properties.values.map fun p => "\t" ++ p.name) ++ "\n\x7d"

end Stub

/-- The stubs of a model: its classes, its interfaces and its enums, in this order. -/
def stubs (m : Model) : List Stub :=
  m.classes.values.map (fun c => { name := c.name, body := Stub.renderClassIn m c }) ++
    m.interfaces.values.map (fun i => { name := i.name, body := Stub.renderInterface i }) ++
    m.enums.values.map fun e => { name := e.name, body := Stub.renderEnum e }

end ClassModel.Source
