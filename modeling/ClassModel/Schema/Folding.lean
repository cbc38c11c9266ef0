/-
Associations as fields.

A schema has no associations, so each one becomes a field of the class that owns it, named
by its label and of the type at its other end.  The owner is the left class, unless the
operator is a composition with its diamond on the right.  An association whose owner is
not declared as a class is passed over.
-/
import ClassModel.Traced

namespace ClassModel

namespace Schema

/-- The text contains dashes with a diamond directly behind them. -/
def endsInDiamond : List Char → Bool
  | [] => false
  | c :: r =>
      (c == '-' &&
        match r.dropWhile (· == '-') with
        | d :: _ => d == '*' || d == 'o'
        | [] => false) ||
      endsInDiamond r

end Schema

namespace Association

/-- The association is a composition owned by its right class. -/
def ownedByRight (a : Association) : Bool :=
  Schema.endsInDiamond a.separator.toList

/-- The class that gets a field for the association. -/
def owner (a : Association) : String :=
  if a.ownedByRight then a.right else a.left

/-- The type at the other end. -/
def target (a : Association) : String :=
  if a.ownedByRight then a.left else a.right

/-- The field for the association. -/
def asAttribute (a : Association) : Attribute where
  name := a.label
  type := a.target

end Association

/-- Make an association a field of its owner. -/
def Model.foldAssociation (m : Model) (a : Association) : Traced Model :=
  match m.addAttribute? a.owner a.asAttribute with
  | some m' => return m'
  | none => do
      Traced.emit (.ownerNotFound a.owner a.label)
      return m

/-- Make every association a field of its owner; the associations stay. -/
def Model.foldAssociations (m : Model) : Traced Model :=
  m.associations.foldlM Model.foldAssociation m

end ClassModel
