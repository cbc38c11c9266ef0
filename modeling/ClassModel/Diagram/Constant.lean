/-
Lines that name a constant of an enum.

The first word of the line is the constant, wherever it stands, and a word behind `=` or
`:` is its value.  The rest of the line says nothing, so only a line without any word
names no constant.
-/
import ClassModel.Entity
import ClassModel.Diagram.LineParser

namespace ClassModel

namespace LineParser

/-- The value of a constant, behind `=` or `:`. -/
def constantValue : LineParser (List Char) := do
  spaces
  let _ ← satisfy fun c => c == '=' || c == ':'
  spaces
  word

/-- A constant and what follows it. -/
def constant : LineParser (String × Option String) := do
  let _ ← run fun c => !isWordChar c
  let w ← word
  let value ← optional constantValue
  let _ ← run fun _ => true
  return (String.ofList w, value.map String.ofList)

end LineParser

/-- The constant that a line names, and its value if one is written. -/
def constantLine? (line : List Char) : Option (String × Option String) :=
  LineParser.accept LineParser.constant line

end ClassModel
