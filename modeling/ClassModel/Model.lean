/-
The class model.

A model holds classes, interfaces and enums, each registered under its name, and a
list of associations.  The three kinds have separate name spaces: a class and an enum
may share a name.  Registering a name again replaces the entity where it stands, and
associations only ever accumulate.
-/
import ClassModel.Entity

namespace ClassModel

/-- Classes, interfaces, enums and the associations between them. -/
structure Model where
  classes : OrderedMap Class := ∅
  interfaces : OrderedMap Interface := ∅
  enums : OrderedMap Enum := ∅
  associations : List Association := []
  deriving DecidableEq, Inhabited

/-- Counts of entities by kind. -/
structure Census where
  classes : Nat
  interfaces : Nat
  enums : Nat
  associations : Nat
  deriving DecidableEq, Inhabited, Repr

namespace Model

/-- The model without entities. -/
def empty : Model := {}

/-- A model without entities and associations. -/
def isEmpty (m : Model) : Bool :=
  m.classes.isEmpty && m.interfaces.isEmpty && m.enums.isEmpty && m.associations.isEmpty

/-- How many entities of each kind a model holds. -/
def census (m : Model) : Census where
  classes := m.classes.size
  interfaces := m.interfaces.size
  enums := m.enums.size
  associations := m.associations.length

/-- Register a class. -/
def addClass (m : Model) (c : Class) : Model :=
  { m with classes := m.classes.insert c.name c }

/-- Register an interface. -/
def addInterface (m : Model) (i : Interface) : Model :=
  { m with interfaces := m.interfaces.insert i.name i }

/-- Register an enum. -/
def addEnum (m : Model) (e : Enum) : Model :=
  { m with enums := m.enums.insert e.name e }

/-- Append an association. -/
def addAssociation (m : Model) (a : Association) : Model :=
  { m with associations := m.associations ++ [a] }

/-- The class of a name. -/
def class? (m : Model) (name : String) : Option Class :=
  m.classes.get? name

/-- The interface of a name. -/
def interface? (m : Model) (name : String) : Option Interface :=
  m.interfaces.get? name

/-- The enum of a name. -/
def enum? (m : Model) (name : String) : Option Enum :=
  m.enums.get? name

/-- Add an attribute to the class of a name.  There is no result without such a class. -/
def addAttribute? (m : Model) (owner : String) (a : Attribute) : Option Model :=
  if (m.class? owner).isSome then
    some { m with classes := m.classes.modify owner (·.addAttribute a) }
  else
    none

/-- Add a method to the class of a name or, failing that, to the interface of that name. -/
def addMethod? (m : Model) (owner : String) (method : Method) : Option Model :=
  if (m.class? owner).isSome then
    some { m with classes := m.classes.modify owner (·.addMethod method) }
  else if (m.interface? owner).isSome then
    some { m with interfaces := m.interfaces.modify owner (·.addMethod method) }
  else
    none

/-! ### What a step does to the model -/

/-- An attribute finds no place exactly if there is no class of the owner's name. -/
theorem addAttribute?_eq_none_iff {m : Model} {owner : String} {a : Attribute} :
    m.addAttribute? owner a = none ↔ m.class? owner = none := by
  unfold addAttribute?
  cases m.class? owner <;> simp

/-- A method finds no place exactly if there is neither a class nor an interface of the
owner's name. -/
theorem addMethod?_eq_none_iff {m : Model} {owner : String} {method : Method} :
    m.addMethod? owner method = none ↔ m.class? owner = none ∧ m.interface? owner = none := by
  unfold addMethod?
  cases m.class? owner <;> cases m.interface? owner <;> simp

end Model

end ClassModel
