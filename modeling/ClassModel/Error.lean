/-
Errors of a conversion.

Few things can go wrong for good: a source text that does not read, and a form of output
that a notation does not have.
-/
namespace ClassModel

/-- Why a conversion has no result. -/
inductive ConversionError where
  /-- A text could not be read, from some line and column on. -/
  | unreadable (reason : String) (line column : Nat)
  /-- There is no such operation. -/
  | notImplemented (operation : String)
  deriving DecidableEq, Inhabited, Repr

/-- The words for an error. -/
def ConversionError.message : ConversionError → String
  | unreadable reason line column =>
      "Parse error: " ++ reason ++ " at line " ++ toString line ++ ", column " ++ toString column
  | notImplemented operation => "Operation not implemented: " ++ operation

end ClassModel
