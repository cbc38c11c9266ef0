/-
Type names of a schema.

The model writes `int` and `void`; a schema has its own names for the two, and all other
names are taken over.  Scalar types need no definition, and neither do names with a dot,
which belong to another package.
-/
namespace ClassModel.Schema

/-- The message that says nothing. -/
def emptyMessage : String :=
  "google.protobuf.Empty"

/-- The name of a type of the model in a schema. -/
def typeName (type : String) : String :=
  if type = "int" then "int32"
  else if type = "void" then emptyMessage
  else type

/-- The scalar types. -/
def scalarTypes : List String :=
  ["double", "float", "int32", "int64", "uint32", "uint64", "sint32", "sint64", "fixed32",
    "fixed64", "sfixed32", "sfixed64", "bool", "string", "bytes"]

/-- A name that the schema itself has to define. -/
def needsDefinition (name : String) : Bool :=
  !scalarTypes.contains name && !name.toList.contains '.'

/-- Naming twice is naming once. -/
@[simp]
theorem typeName_typeName (type : String) : typeName (typeName type) = typeName type := by
  unfold typeName
  split
  · decide
  · split
    · decide
    · simp [*]

end ClassModel.Schema
