/-
Syntax trees of source files.

A tree keeps what a class model can be made of: the package and the imports, the declared
types with their modifiers, and the members of each.  Bodies of methods, initial values,
annotations and type parameters are recognised and dropped.

Types and declarations nest, types through their arguments and declarations through their
members.  The text of a type is flattened in one spelling, with a comma and a space
between arguments and a pair of brackets for each array dimension.
-/
namespace ClassModel.Source

/-- A modifier of a declaration. -/
inductive Modifier where
  | pub
  | prot
  | priv
  | abstr
  | static
  | final
  | default
  | sealed
  | nonSealed
  | strictfp
  | transient
  | volatile
  | synchronized
  | native
  deriving DecidableEq, Inhabited, Repr

namespace Modifier

/-- The word for a modifier. -/
def keyword : Modifier → String
  | pub => "public"
  | prot => "protected"
  | priv => "private"
  | abstr => "abstract"
  | static => "static"
  | final => "final"
  | default => "default"
  | sealed => "sealed"
  | nonSealed => "non-sealed"
  | strictfp => "strictfp"
  | transient => "transient"
  | volatile => "volatile"
  | synchronized => "synchronized"
  | native => "native"

/-- All modifiers. -/
def all : List Modifier :=
  [pub, prot, priv, abstr, static, final, default, sealed, nonSealed, strictfp, transient,
    volatile, synchronized, native]

/-- The modifier of a word. -/
def ofKeyword? (w : String) : Option Modifier :=
  all.find? fun m => m.keyword = w

@[simp]
theorem ofKeyword?_keyword (m : Modifier) : ofKeyword? m.keyword = some m := by
  cases m <;> rfl

end Modifier

mutual

/-- A type as a declaration writes it, with its array dimensions. -/
inductive TypeExpr where
  | primitive (name : String) (dims : Nat)
  /-- A class type, by its segments. -/
  | reference (segments : List TypeSegment) (dims : Nat)

/-- A segment of a class type, with or without arguments. -/
inductive TypeSegment where
  | plain (name : String)
  | applied (name : String) (arguments : List TypeArgument)

/-- An argument of a type; the bounds of a wildcard are dropped. -/
inductive TypeArgument where
  | type (t : TypeExpr)
  | wildcard

end

/-- A class type: its segments from left to right, as in `java.util.Map<K, V>`. -/
abbrev ClassType := List TypeSegment

/-! ### The text of a type -/

/-- The brackets of so many array dimensions. -/
def dimsText : Nat → String
  | 0 => ""
  | n + 1 => "[]" ++ dimsText n

mutual

/-- The text of a type. -/
def TypeExpr.text : TypeExpr → String
  | .primitive name dims => name ++ dimsText dims
  | .reference segments dims => classTypeText segments ++ dimsText dims

/-- The text of a class type. -/
def classTypeText : List TypeSegment → String
  | [] => ""
  | s :: r => s.text ++ segmentsText r

/-- The text of further segments, each behind its dot. -/
def segmentsText : List TypeSegment → String
  | [] => ""
  | s :: r => "." ++ s.text ++ segmentsText r

/-- The text of a segment. -/
def TypeSegment.text : TypeSegment → String
  | .plain name => name
  | .applied name arguments => name ++ "<" ++ argumentsText arguments ++ ">"

/-- The text of a list of arguments. -/
def argumentsText : List TypeArgument → String
  | [] => ""
  | a :: r => a.text ++ moreArgumentsText r

/-- The text of further arguments, each behind its comma. -/
def moreArgumentsText : List TypeArgument → String
  | [] => ""
  | a :: r => ", " ++ a.text ++ moreArgumentsText r

/-- The text of an argument. -/
def TypeArgument.text : TypeArgument → String
  | .type t => t.text
  | .wildcard => "?"

end

/-- The name of a segment. -/
def TypeSegment.name : TypeSegment → String
  | plain name => name
  | applied name _ => name

/-- The names of the segments, joined by dots, without arguments. -/
def qualifiedName (t : ClassType) : String :=
  String.intercalate "." (t.map TypeSegment.name)

namespace TypeExpr

/-- The number of array dimensions. -/
def dims : TypeExpr → Nat
  | primitive _ n => n
  | reference _ n => n

/-- The type with further array dimensions. -/
def addDims (extra : Nat) : TypeExpr → TypeExpr
  | primitive name n => primitive name (n + extra)
  | reference segments n => reference segments (n + extra)

/-- The text of the type without its array dimensions. -/
def element : TypeExpr → String
  | primitive name _ => name
  | reference segments _ => classTypeText segments

/-- A type is its element with brackets behind it. -/
theorem text_eq (t : TypeExpr) : t.text = t.element ++ dimsText t.dims := by
  cases t <;> rfl

@[simp]
theorem dims_addDims (t : TypeExpr) (n : Nat) : (t.addDims n).dims = t.dims + n := by
  cases t <;> rfl

@[simp]
theorem element_addDims (t : TypeExpr) (n : Nat) : (t.addDims n).element = t.element := by
  cases t <;> rfl

end TypeExpr

/-! ### Declarations -/

/-- One name of a field declaration, with the dimensions behind it. -/
structure Declarator where
  name : String
  dims : Nat

/-- A field declaration, which may name several fields of one type. -/
structure Field where
  modifiers : List Modifier
  type : TypeExpr
  declarators : List Declarator

/-- A parameter of a method; `varargs` marks `Type... name`. -/
structure Formal where
  /-- The type, unless the source leaves it out. -/
  type : Option TypeExpr
  name : String
  varargs : Bool

/-- A method declaration. -/
structure Procedure where
  modifiers : List Modifier
  /-- The type of the result; nothing stands for `void`. -/
  result : Option TypeExpr
  name : String
  parameters : List Formal

mutual

/-- The declaration of a type. -/
inductive Declaration where
  | ofClass (modifiers : List Modifier) (name : String) (superclass : Option ClassType)
      (interfaces : List ClassType) (members : List Member)
  | ofInterface (modifiers : List Modifier) (name : String) (parents : List ClassType)
      (members : List Member)
  | ofEnum (modifiers : List Modifier) (name : String) (interfaces : List ClassType)
      (constants : List String) (members : List Member)

/-- A member of a declared type. -/
inductive Member where
  | field (f : Field)
  | method (p : Procedure)
  | constructor (name : String)
  /-- A block that runs when the type or an object comes to be. -/
  | block
  | type (d : Declaration)

end

/-- The name that a declaration introduces. -/
def Declaration.name : Declaration → String
  | .ofClass _ name .. => name
  | .ofInterface _ name .. => name
  | .ofEnum _ name .. => name

/-- A source file. -/
structure CompilationUnit where
  /-- The segments of the package name; none for the default package. -/
  package : List String
  imports : List String
  types : List Declaration

end ClassModel.Source
