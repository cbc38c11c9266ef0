/-
What a class model is made of.

Classes, interfaces and enums own members, kept in ordered maps under the member's
name, so a member written twice replaces the first one where it stands.  Associations
join two names; neither has to be declared anywhere.

Defaults are part of the meaning: an attribute is private unless something else is
written, a method is public and returns `void`, an association is a plain `--` with
nothing said about multiplicities.
-/
import ClassModel.OrderedMap

namespace ClassModel

/-- Who may see a type or a member. -/
inductive Visibility where
  | pub
  | priv
  | prot
  deriving DecidableEq, Inhabited, Repr

namespace Visibility

/-- The marker of a visibility in a diagram. -/
def marker : Visibility → Char
  | pub => '+'
  | priv => '-'
  | prot => '#'

/-- The visibility of a marker. -/
def ofMarker? (c : Char) : Option Visibility :=
  if c = '+' then some pub
  else if c = '-' then some priv
  else if c = '#' then some prot
  else none

/-- The word for a visibility, in source files and in JSON alike. -/
def keyword : Visibility → String
  | pub => "public"
  | priv => "private"
  | prot => "protected"

/-- The visibility that a word names. -/
def ofKeyword? (s : String) : Option Visibility :=
  if s = "public" then some pub
  else if s = "private" then some priv
  else if s = "protected" then some prot
  else none

@[simp]
theorem ofMarker?_marker (v : Visibility) : ofMarker? v.marker = some v := by
  cases v <;> rfl

@[simp]
theorem ofKeyword?_keyword (v : Visibility) : ofKeyword? v.keyword = some v := by
  cases v <;> rfl

end Visibility

/-- How many objects stand at one end of an association. -/
inductive Multiplicity where
  | unspecified
  | zeroOrOne
  | one
  | many
  | oneOrMany
  deriving DecidableEq, Inhabited, Repr

namespace Multiplicity

/-- The literal of a multiplicity in a diagram; nothing is written for an unspecified one. -/
def literal : Multiplicity → String
  | unspecified => ""
  | zeroOrOne => "0..1"
  | one => "1"
  | many => "*"
  | oneOrMany => "1..*"

/-- The multiplicity of a literal.  A literal that is absent or unknown says nothing. -/
def ofLiteral : Option String → Multiplicity
  | some s =>
      if s = "1" then one
      else if s = "1..*" then oneOrMany
      else if s = "*" then many
      else if s = "0..1" then zeroOrOne
      else unspecified
  | none => unspecified

@[simp]
theorem ofLiteral_literal (m : Multiplicity) : ofLiteral (some m.literal) = m := by
  cases m <;> rfl

end Multiplicity

/-- A field of a class. -/
structure Attribute where
  name : String
  type : String
  visibility : Visibility := .priv
  isStatic : Bool := false
  deriving DecidableEq, Inhabited, Repr

/-- A parameter of a method. -/
structure Parameter where
  name : String
  type : String
  deriving DecidableEq, Inhabited, Repr

/-- A method of a class or an interface. -/
structure Method where
  name : String
  returnType : String := "void"
  parameters : List Parameter := []
  visibility : Visibility := .pub
  isAbstract : Bool := false
  isStatic : Bool := false
  deriving DecidableEq, Inhabited, Repr

/-- A constant of an enum; the value is empty when none is written. -/
structure EnumProperty where
  name : String
  value : String := ""
  deriving DecidableEq, Inhabited, Repr

/-- A class with its members. -/
structure Class where
  name : String
  superclass : Option String := none
  interfaces : List String := []
  attributes : OrderedMap Attribute := ∅
  methods : OrderedMap Method := ∅
  isAbstract : Bool := false
  visibility : Visibility := .pub
  deriving DecidableEq, Inhabited

/-- An interface with its methods. -/
structure Interface where
  name : String
  methods : OrderedMap Method := ∅
  visibility : Visibility := .pub
  deriving DecidableEq, Inhabited

/-- An enum with its constants. -/
structure Enum where
  name : String
  properties : OrderedMap EnumProperty := ∅
  deriving DecidableEq, Inhabited

/-- A relationship between two named entities.  `leftToRight` counts the objects at the
right end, seen from the left one, and `rightToLeft` those at the left end. -/
structure Association where
  left : String
  right : String
  separator : String := "--"
  leftToRight : Multiplicity := .unspecified
  rightToLeft : Multiplicity := .unspecified
  label : String := ""
  deriving DecidableEq, Inhabited, Repr

namespace Class

/-- Add an attribute, replacing the one of the same name. -/
def addAttribute (c : Class) (a : Attribute) : Class :=
  { c with attributes := c.attributes.insert a.name a }

/-- Add a method, replacing the one of the same name. -/
def addMethod (c : Class) (m : Method) : Class :=
  { c with methods := c.methods.insert m.name m }

/-- A class with an attribute or a method. -/
def hasMembers (c : Class) : Bool :=
  !c.attributes.isEmpty || !c.methods.isEmpty

@[simp]
theorem name_addAttribute (c : Class) (a : Attribute) : (c.addAttribute a).name = c.name := rfl

@[simp]
theorem name_addMethod (c : Class) (m : Method) : (c.addMethod m).name = c.name := rfl

end Class

namespace Interface

/-- Add a method, replacing the one of the same name. -/
def addMethod (i : Interface) (m : Method) : Interface :=
  { i with methods := i.methods.insert m.name m }

@[simp]
theorem name_addMethod (i : Interface) (m : Method) : (i.addMethod m).name = i.name := rfl

end Interface

namespace Enum

/-- Add a constant, replacing the one of the same name. -/
def addProperty (e : Enum) (p : EnumProperty) : Enum :=
  { e with properties := e.properties.insert p.name p }

@[simp]
theorem name_addProperty (e : Enum) (p : EnumProperty) : (e.addProperty p).name = e.name := rfl

end Enum

end ClassModel
