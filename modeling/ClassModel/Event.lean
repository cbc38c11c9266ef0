/-
What a run reports besides its result.

Reading is tolerant: a line or a file that cannot be used is passed over, and the only
trace of it is an event.  Each kind of event is a constructor that carries what the
event is about; its level, its message, its fields and the part of the library it comes
from are functions of it.

Events come about during activities, such as the reading of a diagram.  An activity has a
name, a level, fields and a place in the library, as an event has.
-/
import ClassModel.Model

namespace ClassModel

/-- How much an event matters. -/
inductive Level where
  | trace
  | debug
  | info
  | warn
  | error
  deriving DecidableEq, Inhabited, Repr

/-- The two kinds of members a class may have. -/
inductive MemberKind where
  | field
  | method
  deriving DecidableEq, Inhabited, Repr

/-- The part of the library an event comes from. -/
inductive Origin where
  | diagramModifiers
  | diagramReader
  | sourceReader
  | sourceVisit
  | conversion
  | schema
  | commandLine
  deriving DecidableEq, Inhabited, Repr

/-- The value of a field of an event. -/
inductive FieldValue where
  | text (s : String)
  | count (n : Nat)
  deriving DecidableEq, Inhabited, Repr

/-- A stretch of work during which events come about.  The size of what is worked on is
counted in bytes. -/
inductive Activity where
  /-- A diagram is read into a model. -/
  | readingDiagram (size : Nat)
  /-- A diagram is brought into its normal form. -/
  | normalizing (size : Nat)
  /-- Source stubs are made of a diagram. -/
  | makingStubs (size : Nat)
  /-- A schema is made of a diagram. -/
  | makingSchema (size : Nat)
  /-- A schema is written. -/
  | writingSchema
  /-- Source files are read into a model. -/
  | readingSources
  /-- One source file is read into a model. -/
  | readingUnit (size : Nat)
  deriving DecidableEq, Inhabited, Repr

/-- Something worth reporting. -/
inductive Event where
  /-- A word in braces that is no modifier. -/
  | unknownModifier (word : String)
  /-- A `{field}` or `{method}` marker on a member of the other kind. -/
  | memberKindMismatch (owner : String) (parsedAs : MemberKind)
  /-- A line of a class or interface body that is no member. -/
  | unrecognizedBodyLine (owner line : String)
  /-- All declarations of a diagram are registered. -/
  | declarationsRead (census : Census)
  /-- An attribute for a class that is not declared. -/
  | inlineAttributeDropped (owner : String)
  /-- A method for a type that is not declared. -/
  | inlineMethodDropped (owner : String)
  /-- A line outside all bodies that fits no grammar. -/
  | unrecognizedLine (line : String)
  /-- All associations of a diagram are appended. -/
  | associationsRead (census : Census)
  /-- A source file was read into a tree. -/
  | unitRead (package : String) (imports types : Nat)
  /-- A type inside a class, named as debugging text. -/
  | nestedTypeIgnored (owner nested : String)
  /-- The types of a source file are registered. -/
  | unitVisited (census : Census)
  /-- A source file is about to be read. -/
  | readingSource (path : String)
  /-- A source file could not be read. -/
  | sourceSkipped (path : String)
  /-- All source files are dealt with. -/
  | sourcesRead (parsed skipped : Nat) (census : Census)
  /-- Source stubs are written. -/
  | stubsGenerated (count : Nat)
  /-- A schema is written, of so many bytes. -/
  | schemaRendered (size : Nat)
  /-- An association whose owner is not declared as a class. -/
  | ownerNotFound (owner name : String)
  /-- Messages made from parameters join the model. -/
  | synthesizedRegistered (count : Nat)
  /-- A procedure whose payload message could not be made, since there is no model. -/
  | payloadUnavailable (interface procedure : String)
  /-- A stub was written to a file. -/
  | stubWritten (path : String)
  /-- A path given for reading leads nowhere. -/
  | pathUnreadable (path : String)
  /-- A source file could not be loaded. -/
  | sourceUnreadable (path : String)
  /-- No source file was found. -/
  | noSources
  /-- So many source files were found. -/
  | sourcesCollected (count : Nat)
  deriving DecidableEq, Inhabited, Repr

namespace Level

/-- How severe a level is. -/
def rank : Level → Nat
  | trace => 1
  | debug => 2
  | info => 3
  | warn => 4
  | error => 5

/-- The word for a level. -/
def word : Level → String
  | trace => "trace"
  | debug => "debug"
  | info => "info"
  | warn => "warn"
  | error => "error"

/-- All levels. -/
def all : List Level :=
  [trace, debug, info, warn, error]

end Level

namespace MemberKind

/-- The word for a kind of member. -/
def name : MemberKind → String
  | field => "attribute"
  | method => "method"

end MemberKind

namespace Event

/-- How much the event matters. -/
def level : Event → Level
  | unknownModifier _ | sourceSkipped _ | payloadUnavailable .. | pathUnreadable _
  | sourceUnreadable _ | noSources => .warn
  | sourcesRead .. | stubsGenerated _ | sourcesCollected _ => .info
  | declarationsRead _ | inlineAttributeDropped _ | inlineMethodDropped _ | associationsRead _
  | unitRead .. | unitVisited _ | readingSource _ | schemaRendered _ | ownerNotFound ..
  | synthesizedRegistered _ | stubWritten _ => .debug
  | memberKindMismatch .. | unrecognizedBodyLine .. | unrecognizedLine _
  | nestedTypeIgnored .. => .trace

/-- The message of an event. -/
def message : Event → String
  | unknownModifier word => "Unknow modifier : " ++ word
  | memberKindMismatch .. => "Member kind marker does not match the parsed member"
  | unrecognizedBodyLine .. => "Skipping unrecognized body line"
  | declarationsRead _ => "Parsed declarations"
  | inlineAttributeDropped _ => "Dropping inline attribute for unknown class"
  | inlineMethodDropped _ => "Dropping inline method for unknown type"
  | unrecognizedLine _ => "Skipping unrecognized line"
  | associationsRead _ => "Parsed associations"
  | unitRead .. => "Parsed compilation unit"
  | nestedTypeIgnored .. => "Ignoring nested type"
  | unitVisited _ => "Visited compilation unit"
  | readingSource _ => "Parsing Java file"
  | sourceSkipped _ => "Skipping Java file"
  | sourcesRead .. => "Java sources visited"
  | stubsGenerated _ => "Generated Java files"
  | schemaRendered _ => "Rendered protobuf"
  | ownerNotFound .. => "Association owner not found"
  | synthesizedRegistered _ => "Registering synthesized messages"
  | payloadUnavailable interface procedure =>
      "Cannot create parameters & returns classes of method " ++ interface ++ "#" ++ procedure ++
        " because structure is not available"
  | stubWritten _ => "Wrote Java file"
  | pathUnreadable _ => "Cannot read path"
  | sourceUnreadable _ => "Cannot read Java file"
  | noSources => "0 java files found"
  | sourcesCollected _ => "Collected Java files"

/-- The fields that count the types of a model. -/
private def typeCounts (c : Census) : List (String × FieldValue) :=
  [("class_count", .count c.classes), ("interface_count", .count c.interfaces),
    ("enum_count", .count c.enums)]

/-- The fields of an event beside its message. -/
def fields : Event → List (String × FieldValue)
  | unknownModifier _ | payloadUnavailable .. | noSources => []
  | memberKindMismatch owner parsedAs =>
      [("owner", .text owner), ("parsed_as", .text parsedAs.name)]
  | unrecognizedBodyLine owner line => [("owner", .text owner), ("line", .text line)]
  | declarationsRead census => typeCounts census
  | inlineAttributeDropped owner => [("class", .text owner)]
  | inlineMethodDropped owner => [("owner", .text owner)]
  | unrecognizedLine line => [("line", .text line)]
  | associationsRead census => [("association_count", .count census.associations)]
  | unitRead package imports types =>
      [("package", .text package), ("import_count", .count imports), ("type_count", .count types)]
  | nestedTypeIgnored owner nested => [("owner", .text owner), ("nested", .text nested)]
  | unitVisited census => typeCounts census ++ [("association_count", .count census.associations)]
  | readingSource path | sourceSkipped path | stubWritten path | pathUnreadable path
  | sourceUnreadable path => [("path", .text path)]
  | sourcesRead parsed skipped census =>
      [("parsed", .count parsed), ("skipped", .count skipped)] ++ typeCounts census
  | stubsGenerated count | sourcesCollected count => [("file_count", .count count)]
  | schemaRendered size => [("output_len", .count size)]
  | ownerNotFound owner name => [("owner", .text owner), ("attribute", .text name)]
  | synthesizedRegistered count => [("synthesized_count", .count count)]

/-- The event tells what went wrong in a field of its own, whose words are not kept. -/
def hasCause : Event → Bool
  | sourceSkipped _ | pathUnreadable _ | sourceUnreadable _ => true
  | _ => false

/-- The names of all fields: the message is one, and so is the cause. -/
def fieldNames (e : Event) : List String :=
  "message" :: (if e.hasCause then ["error"] else []) ++ e.fields.map Prod.fst

/-- The part of the library an event comes from. -/
def origin : Event → Origin
  | unknownModifier _ => .diagramModifiers
  | memberKindMismatch .. | unrecognizedBodyLine .. | declarationsRead _
  | inlineAttributeDropped _ | inlineMethodDropped _ | unrecognizedLine _
  | associationsRead _ => .diagramReader
  | unitRead .. => .sourceReader
  | nestedTypeIgnored .. | unitVisited _ => .sourceVisit
  | readingSource _ | sourceSkipped _ | sourcesRead .. | stubsGenerated _
  | schemaRendered _ => .conversion
  | ownerNotFound .. | synthesizedRegistered _ | payloadUnavailable .. => .schema
  | stubWritten _ | pathUnreadable _ | sourceUnreadable _ | noSources
  | sourcesCollected _ => .commandLine

end Event

namespace Activity

/-- The name of an activity. -/
def name : Activity → String
  | readingDiagram _ => "parse_uml"
  | normalizing _ => "uml_to_uml"
  | makingStubs _ => "uml_to_java"
  | makingSchema _ => "uml_to_proto"
  | writingSchema => "translate_protobuf"
  | readingSources => "java_to_structure"
  | readingUnit _ => "parse_java"

/-- How much it matters that the activity goes on. -/
def level : Activity → Level
  | readingDiagram _ | normalizing _ | makingStubs _ | makingSchema _ | readingSources => .info
  | writingSchema | readingUnit _ => .debug

/-- The fields of an activity, which are counts. -/
def fields : Activity → List (String × Nat)
  | readingDiagram size | normalizing size | makingStubs size | makingSchema size
  | readingUnit size => [("input_len", size)]
  | writingSchema | readingSources => []

/-- The part of the library an activity belongs to. -/
def origin : Activity → Origin
  | readingDiagram _ => .diagramReader
  | normalizing _ | makingStubs _ | makingSchema _ | readingSources => .conversion
  | writingSchema => .schema
  | readingUnit _ => .sourceReader

end Activity

end ClassModel
