/-
Schema documents.

A document is kept as data until the end: services with their procedures, messages with
their numbered fields, enums with their constants, and the names that are mentioned and
nowhere defined.  Rendering adds nothing but spelling, so what a schema says can be read
off the data.

Sections are separated by blank lines and an empty one leaves no trace.  The section of
placeholders is announced whenever some name is pending, even if none of the pending names
needs a message.
-/
import ClassModel.Entity

namespace ClassModel.Schema

/-- A numbered field of a message. -/
structure MessageField where
  type : String
  name : String
  number : Nat
  deriving DecidableEq, Inhabited, Repr

/-- A message. -/
structure Message where
  name : String
  fields : List MessageField
  deriving DecidableEq, Inhabited, Repr

/-- A remote procedure. -/
structure Procedure where
  name : String
  request : String
  /-- The response is a stream. -/
  streams : Bool
  response : String
  deriving DecidableEq, Inhabited, Repr

/-- A service. -/
structure Service where
  name : String
  procedures : List Procedure
  deriving DecidableEq, Inhabited, Repr

/-- A constant of an enum and the text of its number. -/
structure Constant where
  name : String
  value : String
  deriving DecidableEq, Inhabited, Repr

/-- An enum. -/
structure EnumType where
  name : String
  constants : List Constant
  deriving DecidableEq, Inhabited, Repr

/-- A schema. -/
structure Document where
  package : String
  services : List Service
  messages : List Message
  enums : List EnumType
  /-- The messages that stand in for undefined names, if any name is undefined. -/
  placeholders : Option (List Message)
  deriving DecidableEq, Inhabited, Repr

/-- The line of a field. -/
def MessageField.render (f : MessageField) : String :=
  "\t" ++ f.type ++ " " ++ f.name ++ " = " ++ toString f.number ++ ";\n"

/-- The definition of a message. -/
def Message.render (m : Message) : String :=
  "message " ++ m.name ++ " \x7b\n" ++ String.join (m.fields.map MessageField.render) ++ "\x7d"

/-- The line of a procedure. -/
def Procedure.render (p : Procedure) : String :=
  "\trpc " ++ p.name ++ "(" ++ p.request ++ ") returns (" ++
    (if p.streams then "stream " else "") ++ p.response ++ ") \x7b\x7d\n"

/-- The definition of a service. -/
def Service.render (s : Service) : String :=
  "service " ++ s.name ++ " \x7b\n" ++ String.join (s.procedures.map Procedure.render) ++ "\x7d"

/-- The line of a constant. -/
def Constant.render (c : Constant) : String :=
  "\t" ++ c.name ++ " = " ++ c.value ++ ";\n"

/-- The definition of an enum. -/
def EnumType.render (e : EnumType) : String :=
  "enum " ++ e.name ++ " \x7b\n" ++ String.join (e.constants.map Constant.render) ++ "\x7d"

/-- Definitions, each behind a blank line. -/
def spaced (definitions : List String) : String :=
  String.join (definitions.map ("\n\n" ++ ·))

/-- The lines at the top of a schema. -/
def preamble (package : String) : String :=
  "syntax = \"proto3\";\n\n" ++
  "import \"google/protobuf/empty.proto\";\n\n" ++
  "option java_multiple_files = true;\n" ++
  "option java_generic_services = false;\n" ++
  "option java_package = \"" ++ package ++ "\";"

/-- The announcement of the placeholders. -/
def placeholderHeader : String :=
  "\n\n// UNREFERENCED MESSAGE TYPES FROM PARSED UML\n"

/-- The text of a schema. -/
def Document.render (d : Document) : String :=
  preamble d.package ++
    spaced (d.services.map Service.render) ++
    spaced (d.messages.map Message.render) ++
    spaced (d.enums.map EnumType.render) ++
    (match d.placeholders with
      | some ms => placeholderHeader ++ spaced (ms.map Message.render)
      | none => "")

end ClassModel.Schema
