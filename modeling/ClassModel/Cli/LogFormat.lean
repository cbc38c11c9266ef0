/-
Formats of log output.

A format is asked for by name, in upper or lower case.
-/
namespace ClassModel

/-- A format of log output. -/
inductive LogFormat where
  | compact
  | pretty
  | json
  deriving DecidableEq, Inhabited, Repr

namespace LogFormat

/-- The name of a format. -/
def name : LogFormat → String
  | compact => "compact"
  | pretty => "pretty"
  | json => "json"

/-- All formats. -/
def all : List LogFormat :=
  [compact, pretty, json]

/-- Two texts are equal up to the case of their ASCII letters. -/
def equalFold (s t : String) : Bool :=
  s.toList.map Char.toLower == t.toList.map Char.toLower

/-- The format of a name. -/
def ofName? (name : String) : Option LogFormat :=
  all.find? fun f => equalFold f.name name

/-- The words for a name that no format has. -/
def unknownMessage (name : String) : String :=
  "Unknown log format: " ++ name ++ " (expected one of " ++
    String.intercalate ", " (all.map LogFormat.name) ++ ")"

@[simp]
theorem ofName?_name (f : LogFormat) : ofName? f.name = some f := by
  cases f <;> decide

end LogFormat

end ClassModel
