/-
The class model of source files.

Each top-level type of a file is registered under its name with the package in front of
it.  A field whose type stands for many objects, an array or an `ArrayList` with its
arguments, is no attribute of its class but an association to what it holds; so every
declared name of a field becomes one or the other.  Types inside types, constructors and
blocks leave nothing in the model.
-/
import ClassModel.Traced
import ClassModel.Source.Reader
import ClassModel.Text.Quoted

namespace ClassModel.Source

/-- A name with the package of its file in front of it. -/
def qualify (package : List String) (name : String) : String :=
  if package.isEmpty then name else String.intercalate "." package ++ "." ++ name

/-! ### Modifiers -/

/-- The visibility that a modifier asks for. -/
def Modifier.visibility? : Modifier → Option Visibility
  | pub => some .pub
  | prot => some .prot
  | priv => some .priv
  | _ => none

/-- The visibility named by the last access modifier, public if there is none. -/
def accessOf (ms : List Modifier) : Visibility :=
  (ms.reverse.findSome? Modifier.visibility?).getD .pub

/-- The visibility of a method of an interface, where `protected` says nothing. -/
def interfaceAccessOf (ms : List Modifier) : Visibility :=
  accessOf (ms.filter (· ≠ .prot))

/-! ### Members -/

/-- What a type holds many of, if it stands for many objects: the element of an array, or
the arguments of an `ArrayList`. -/
def TypeExpr.manyOf? : TypeExpr → Option String
  | primitive name dims => if dims = 0 then none else some name
  | reference segments dims =>
      if dims ≠ 0 then some (classTypeText segments)
      else
        match segments.getLast? with
        | some (.applied name arguments) =>
            if name = "ArrayList" then some (argumentsText arguments) else none
        | _ => none

/-- The declared names of a field with their full types. -/
def Field.entries (f : Field) : List (String × TypeExpr) :=
  f.declarators.map fun d => (d.name, f.type.addDims d.dims)

/-- The attributes that a field declares. -/
def Field.attributes (f : Field) : List Attribute :=
  f.entries.filterMap fun (name, type) =>
    match type.manyOf? with
    | some _ => none
    | none => some
        { name
          type := type.text
          visibility := accessOf f.modifiers
          isStatic := f.modifiers.contains .static }

/-- The associations that a field of a class declares. -/
def Field.associations (owner : String) (f : Field) : List Association :=
  f.entries.filterMap fun (name, type) =>
    type.manyOf?.map fun target =>
      { left := owner, right := target, separator := "-->", leftToRight := .many, label := name }

/-- A parameter of the model.  A parameter of variable number is the array it receives. -/
def Formal.parameter (f : Formal) : Parameter where
  name := f.name
  type :=
    match f.type with
    | some t => (t.addDims (if f.varargs then 1 else 0)).text
    | none => "UnknownType"

/-- A method of the model, with the given visibility. -/
def Procedure.methodWith (p : Procedure) (visibility : Visibility) : ClassModel.Method where
  name := p.name
  returnType :=
    match p.result with
    | some t => t.text
    | none => "void"
  parameters := p.parameters.map Formal.parameter
  visibility
  isAbstract := p.modifiers.contains .abstr
  isStatic := p.modifiers.contains .static

/-- A method of a class. -/
def Procedure.method (p : Procedure) : ClassModel.Method :=
  p.methodWith (accessOf p.modifiers)

/-- A method of an interface. -/
def Procedure.interfaceMethod (p : Procedure) : ClassModel.Method :=
  p.methodWith (interfaceAccessOf p.modifiers)

/-- Add what a member contributes to a class. -/
def addMember (c : Class) : Member → Class
  | .field f => f.attributes.foldl Class.addAttribute c
  | .method p => c.addMethod p.method
  | _ => c

/-- The associations that a member of a class declares. -/
def Member.associations (owner : String) : Member → List Association
  | .field f => f.associations owner
  | _ => []

/-- Add what a member contributes to an interface. -/
def addInterfaceMember (i : Interface) : Member → Interface
  | .method p => i.addMethod p.interfaceMethod
  | _ => i

/-! ### Types -/

/-- The class of a class declaration. -/
def classOf (package : List String) (ms : List Modifier) (name : String)
    (superclass : Option ClassType) (interfaces : List ClassType) (members : List Member) : Class :=
  members.foldl addMember
    { name := qualify package name
      superclass := superclass.map qualifiedName
      interfaces := interfaces.map qualifiedName
      isAbstract := ms.contains .abstr
      visibility := accessOf ms }

/-- The interface of an interface declaration. -/
def interfaceOf (package : List String) (ms : List Modifier) (name : String)
    (members : List Member) : Interface :=
  members.foldl addInterfaceMember { name := qualify package name, visibility := accessOf ms }

/-- The enum of an enum declaration. -/
def enumOf (package : List String) (name : String) (constants : List String) : Enum :=
  constants.foldl (fun e c => e.addProperty { name := c }) { name := qualify package name }

/-- The report of a type inside a class. -/
def nestedEvent? (owner : String) : Member → Option Event
  | .type d => some (.nestedTypeIgnored owner (debugText d.name))
  | _ => none

/-- Register a top-level type.  Its associations come before those of later types. -/
def register (package : List String) (m : Model) : Declaration → Traced Model
  | .ofClass ms name superclass interfaces members =>
      Traced.ofEvents
        (((members.flatMap (Member.associations (qualify package name))).foldl
          Model.addAssociation m).addClass
            (classOf package ms name superclass interfaces members))
        (members.filterMap (nestedEvent? name))
  | .ofInterface ms name _ members => return m.addInterface (interfaceOf package ms name members)
  | .ofEnum _ name interfaces constants _ =>
      return (interfaces.foldl (fun m parent =>
        m.addAssociation { left := name, right := qualifiedName parent, separator := "-->" })
        m).addEnum (enumOf package name constants)

end Source

open Source

/-- Register the types of a source file. -/
def Model.visit (m : Model) (u : CompilationUnit) : Traced Model := do
  let m ← u.types.foldlM (register u.package) m
  Traced.emit (.unitVisited m.census)
  return m

/-- Read a source file into a model that may already hold entities. -/
def Model.readSource (m : Model) (text : String) : Except SyntaxError (Traced Model) :=
  match CompilationUnit.read text with
  | .ok u => .ok <| Traced.within (.readingUnit text.utf8ByteSize) do
      Traced.emit (.unitRead (String.intercalate "." u.package) u.imports.length u.types.length)
      m.visit u
  | .error e => .error e

end ClassModel
