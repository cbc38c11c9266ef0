/-
Lines that relate two types.

A relation joins two words by an operator, with optional quoted multiplicities beside the
operator and an optional label at the end.  The operator of a composition has a diamond,
`*` or `o`, at one end of its dashes and may have an arrow head at the other; its text is
kept.  A plain association is joined by dashes alone, however many, and is kept as `--`.
-/
import ClassModel.Diagram.TypeText

namespace ClassModel

/-- A relation as a line describes it. -/
structure Relation where
  left : String
  leftMultiplicity : Option String
  separator : String
  rightMultiplicity : Option String
  right : String
  label : Option String
  deriving DecidableEq, Repr

/-- The association that a relation describes.  What is written beside the left type counts
the objects seen from the right. -/
def Relation.association (r : Relation) : Association where
  left := r.left
  right := r.right
  separator := r.separator
  leftToRight := Multiplicity.ofLiteral r.rightMultiplicity
  rightToLeft := Multiplicity.ofLiteral r.leftMultiplicity
  label := r.label.getD ""

namespace LineParser

/-- A diamond. -/
def diamond : LineParser Char :=
  satisfy fun c => c == '*' || c == 'o'

/-- The operator of a composition owned by the left type. -/
def leftOwned : LineParser (List Char) := do
  let mark ← diamond
  let dashes ← run1 (· == '-')
  let head ← optional (char '>')
  return mark :: dashes ++ head.toList

/-- The operator of a composition owned by the right type. -/
def rightOwned : LineParser (List Char) := do
  let head ← optional (char '<')
  let dashes ← run1 (· == '-')
  let mark ← diamond
  return head.toList ++ dashes ++ [mark]

/-- The operator of a composition. -/
def compositionOperator : LineParser String := do
  let text ← leftOwned <|> rightOwned
  return String.ofList text

/-- The operator of a plain association. -/
def plainOperator : LineParser String := do
  let _ ← run1 (· == '-')
  return "--"

/-- A quoted multiplicity. -/
def quotedMultiplicity : LineParser String := do
  let _ ← char '"'
  let text ← run1 fun c => isWordChar c || c == '*' || c == '.'
  let _ ← char '"'
  return String.ofList text

/-- A text without the spaces at either end. -/
def trimSpaces (s : List Char) : List Char :=
  ((s.dropWhile isSpace).reverse.dropWhile isSpace).reverse

/-- A label: words and the spaces between them. -/
def label : LineParser String := do
  colon
  let text ← run1 fun c => isWordChar c || isSpace c
  return String.ofList (trimSpaces text)

/-- A whole relation line with the given operator. -/
def relation (operator : LineParser String) : LineParser Relation :=
  fullLine do
    let left ← name
    spaces1
    let leftMultiplicity ← optional do
      let m ← quotedMultiplicity
      spaces1
      return m
    let separator ← operator
    let rightMultiplicity ← optional do
      spaces1
      quotedMultiplicity
    spaces1
    let right ← name
    let label ← optional label
    return { left, leftMultiplicity, separator, rightMultiplicity, right, label }

end LineParser

open LineParser

/-- The composition that a line describes. -/
def composition? (line : List Char) : Option Relation :=
  accept (relation compositionOperator) line

/-- The plain association that a line describes. -/
def plainAssociation? (line : List Char) : Option Relation :=
  accept (relation plainOperator) line

end ClassModel
