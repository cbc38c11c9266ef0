/-
Writing the parts of a schema.

A part is written in a session, which knows the names defined and mentioned so far and
queues the messages made of parameters.  Writing a service mentions types and queues
messages, but only if there is a model that the messages can be registered in; without
one, each procedure leaves a warning instead.  Writing a message or an enum defines its
name.

Sessions run one after the other: a part may be written with the names of an earlier one.
-/
import ClassModel.Traced
import ClassModel.Schema.Service
import ClassModel.Schema.TypeTracker

namespace ClassModel.Schema

/-- What is known while a schema is written. -/
structure Session where
  types : TypeTracker := {}
  /-- The messages made of parameters, in order. -/
  queued : List Class := []
  deriving Inhabited

/-- A step in the writing of a schema. -/
abbrev Writing := StateT Session Traced

namespace Writing

/-- Note a mention. -/
def mention (name : String) : Writing Unit :=
  modify fun s => { s with types := s.types.mention name }

/-- Note a definition. -/
def define (name : String) : Writing Unit :=
  modify fun s => { s with types := s.types.define name }

/-- Queue a message made of parameters. -/
def queue (c : Class) : Writing Unit :=
  modify fun s => { s with queued := s.queued ++ [c] }

/-- Report an event. -/
def report (e : Event) : Writing Unit :=
  StateT.lift (Traced.emit e)

/-- Write the procedure of a method. -/
def procedure (attached : Bool) (i : Interface) (m : Method) : Writing Procedure := do
  let kind := ServiceKind.ofName i.name
  let p := procedureOf kind m
  (mentionsOf kind m).forM mention
  if attached then
    match payloadOf? kind m with
    | some c => queue c
    | none => pure ()
  else
    report (.payloadUnavailable i.name p.name)
  return p

/-- Write the service of an interface. -/
def service (attached : Bool) (i : Interface) : Writing Service := do
  let procedures ← i.methods.values.mapM (procedure attached i)
  return { name := i.name, procedures }

/-- Write the services of interfaces. -/
def services (attached : Bool) (is : List Interface) : Writing (List Service) :=
  is.mapM (service attached)

/-- Write a field with its number. -/
def field (a : Attribute) (number : Nat) : Writing MessageField := do
  let type := typeName a.type
  mention type
  return { type, name := a.name, number }

/-- Write the message of a class; its fields are numbered from one. -/
def message (c : Class) : Writing Message := do
  define c.name
  let fields ← c.attributes.values.zipIdx.mapM fun (a, n) => field a (n + 1)
  return { name := c.name, fields }

/-- Write the messages of classes. -/
def messages (cs : List Class) : Writing (List Message) :=
  cs.mapM message

/-- Write an enum. -/
def enumType (e : Enum) : Writing EnumType := do
  define e.name
  return { name := e.name, constants := e.properties.values.map fun p => ⟨p.name, p.value⟩ }

/-- Write enums. -/
def enumTypes (es : List Enum) : Writing (List EnumType) :=
  es.mapM enumType

/-- Write empty messages for the pending names, except those that need none. -/
def placeholders : Writing (Option (List Message)) := do
  let types := (← get).types
  if types.hasPending then
    some <$> messages ((types.pending.filter needsDefinition).map fun name => { name })
  else
    return none

end Writing

end ClassModel.Schema
