/-
The formats a model can be written in.

A model can be written as a whole or in part: one entity, or all entities of a kind with
blank lines between them.  Only a schema keeps account of type names while it is written,
so a part is written in a session; the other formats leave the session as it is.

Source stubs have no form for a whole model, since every entity has a file of its own.
-/
import ClassModel.Diagram.Printer
import ClassModel.Error
import ClassModel.Schema.Generate
import ClassModel.Source.Stub

namespace ClassModel

/-- A format for models. -/
inductive Format where
  | diagram
  | source
  | schema
  deriving DecidableEq, Inhabited, Repr

/-- The kinds of entities in a model. -/
inductive EntityKind where
  | classes
  | interfaces
  | enums
  deriving DecidableEq, Inhabited, Repr

namespace Format

/-- The name of a format. -/
def name : Format → String
  | diagram => "uml"
  | source => "java"
  | schema => "protobuf"

/-- The file extension of a format. -/
def extension : Format → String
  | diagram => "puml"
  | source => "java"
  | schema => "proto"

/-- The formats that can be written. -/
def written : List Format :=
  [diagram, source, schema]

/-- The formats that can be read. -/
def readable : List Format :=
  [diagram, source]

end Format

/-- The version of every reader. -/
def readerVersion : String :=
  "0.1.0"

/-! ### Parts of a model -/

open Schema (Writing)

/-- Write a class, as part of a model or on its own. -/
def Class.write (c : Class) (whole : Option Model) : Format → Writing String
  | .diagram => return Diagram.renderClass c
  | .source => return match whole with
      | some m => Source.Stub.renderClassIn m c
      | none => Source.Stub.renderClass c
  | .schema => Schema.Message.render <$> Writing.message c

/-- Write an interface, as part of a model or on its own. -/
def Interface.write (i : Interface) (whole : Option Model) : Format → Writing String
  | .diagram => return Diagram.renderInterface i
  | .source => return Source.Stub.renderInterface i
  | .schema => Schema.Service.render <$> Writing.service whole.isSome i

/-- Write an enum. -/
def Enum.write (e : Enum) : Format → Writing String
  | .diagram => return Diagram.renderEnum e
  | .source => return Source.Stub.renderEnum e
  | .schema => Schema.EnumType.render <$> Writing.enumType e

/-- Write the entity of a name, if there is one of that kind. -/
def Model.writeEntity (m : Model) (whole : Option Model) (f : Format) (kind : EntityKind)
    (name : String) : Writing (Option String) :=
  match kind with
  | .classes =>
      match m.class? name with
      | some c => some <$> c.write whole f
      | none => return none
  | .interfaces =>
      match m.interface? name with
      | some i => some <$> i.write whole f
      | none => return none
  | .enums =>
      match m.enum? name with
      | some e => some <$> e.write f
      | none => return none

/-- Write all entities of a kind, with blank lines between them. -/
def Model.writeAll (m : Model) (whole : Option Model) (f : Format) (kind : EntityKind) :
    Writing String := do
  let texts ←
    match kind with
    | .classes => m.classes.values.mapM (·.write whole f)
    | .interfaces => m.interfaces.values.mapM (·.write whole f)
    | .enums => m.enums.values.mapM (·.write f)
  return Diagram.paragraphs texts

/-- Write a whole model, with the model as it is afterwards. -/
def Model.writeWhole (m : Model) (package : String) :
    Format → Except ConversionError (Traced (String × Model))
  | .diagram => .ok (return (Diagram.render m, m))
  | .source => .error (.notImplemented "java translate_all")
  | .schema => .ok do
      let (document, m) ← m.schema package
      return (document.render, m)

end ClassModel
