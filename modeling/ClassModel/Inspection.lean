/-
Showing a model.

A model can be shown as JSON, with every map as an object in the order of its keys, or as
a short summary that names each entity and counts its members.
-/
import ClassModel.Model
import ClassModel.Text.Json

namespace ClassModel

/-! ### JSON -/

/-- The name of a multiplicity in JSON. -/
def Multiplicity.name : Multiplicity → String
  | unspecified => "Unspecified"
  | zeroOrOne => "ZeroOrOne"
  | one => "One"
  | many => "Many"
  | oneOrMany => "OneOrMany"

/-- The JSON of a map. -/
def OrderedMap.json {α : Type} (m : OrderedMap α) (value : α → JsonValue) : JsonValue :=
  .object (m.entries.map fun e => .mk e.1 (value e.2))

/-- The JSON of an attribute. -/
def Attribute.json (a : Attribute) : JsonValue :=
  .object
    [.mk "name" (.text a.name), .mk "type" (.text a.type),
      .mk "visibility" (.text a.visibility.keyword), .mk "is_static" (.bool a.isStatic)]

/-- The JSON of a parameter. -/
def Parameter.json (p : Parameter) : JsonValue :=
  .object [.mk "name" (.text p.name), .mk "type" (.text p.type)]

/-- The JSON of a method. -/
def Method.json (m : Method) : JsonValue :=
  .object
    [.mk "name" (.text m.name), .mk "return_type" (.text m.returnType),
      .mk "parameters" (.array (m.parameters.map Parameter.json)),
      .mk "visibility" (.text m.visibility.keyword), .mk "is_abstract" (.bool m.isAbstract),
      .mk "is_static" (.bool m.isStatic)]

/-- The JSON of a class. -/
def Class.json (c : Class) : JsonValue :=
  .object
    [.mk "name" (.text c.name),
      .mk "extends" (match c.superclass with
        | some s => .text s
        | none => .null),
      .mk "implements" (.array (c.interfaces.map .text)),
      .mk "attributes" (c.attributes.json Attribute.json),
      .mk "methods" (c.methods.json Method.json), .mk "is_abstract" (.bool c.isAbstract),
      .mk "visibility" (.text c.visibility.keyword)]

/-- The JSON of an interface. -/
def Interface.json (i : Interface) : JsonValue :=
  .object
    [.mk "name" (.text i.name), .mk "methods" (i.methods.json Method.json),
      .mk "visibility" (.text i.visibility.keyword)]

/-- The JSON of a constant. -/
def EnumProperty.json (p : EnumProperty) : JsonValue :=
  .object [.mk "name" (.text p.name), .mk "value" (.text p.value)]

/-- The JSON of an enum. -/
def Enum.json (e : Enum) : JsonValue :=
  .object [.mk "name" (.text e.name), .mk "properties" (e.properties.json EnumProperty.json)]

/-- The JSON of an association. -/
def Association.json (a : Association) : JsonValue :=
  .object
    [.mk "left_class" (.text a.left), .mk "right_class" (.text a.right),
      .mk "separator" (.text a.separator), .mk "left_to_right" (.text a.leftToRight.name),
      .mk "right_to_left" (.text a.rightToLeft.name), .mk "name" (.text a.label)]

/-- The JSON of a model. -/
def Model.json (m : Model) : JsonValue :=
  .object
    [.mk "classes" (m.classes.json Class.json), .mk "interfaces" (m.interfaces.json Interface.json),
      .mk "enums" (m.enums.json Enum.json),
      .mk "associations" (.array (m.associations.map Association.json))]

/-! ### Summary -/

/-- A heading with a count. -/
def heading (title : String) (count : Nat) : String :=
  title ++ ": " ++ toString count ++ "\n"

/-- The line of a class. -/
def Class.summary (c : Class) : String :=
  "  " ++ c.name ++ " (" ++ toString c.attributes.size ++ " attributes, " ++
    toString c.methods.size ++ " methods)\n"

/-- The line of an interface. -/
def Interface.summary (i : Interface) : String :=
  "  " ++ i.name ++ " (" ++ toString i.methods.size ++ " methods)\n"

/-- The line of an enum. -/
def Enum.summary (e : Enum) : String :=
  "  " ++ e.name ++ " (" ++ toString e.properties.size ++ " values)\n"

/-- The line of an association. -/
def Association.summary (a : Association) : String :=
  "  " ++ a.left ++ " " ++ a.separator ++ " " ++ a.right ++ "\n"

/-- The summary of a model. -/
def Model.summary (m : Model) : String :=
  heading "Classes" m.classes.size ++ String.join (m.classes.values.map Class.summary) ++
    heading "Interfaces" m.interfaces.size ++
    String.join (m.interfaces.values.map Interface.summary) ++
    heading "Enums" m.enums.size ++ String.join (m.enums.values.map Enum.summary) ++
    heading "Associations" m.associations.length ++
    String.join (m.associations.map Association.summary)

end ClassModel
