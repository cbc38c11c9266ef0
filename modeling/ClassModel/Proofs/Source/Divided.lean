/-
What becomes of the members of a class.

A field declares names, and each of them goes one of two ways.  If its full type stands for many
objects it becomes an association, otherwise an attribute.  The two lists are kept in different
places, the attributes in the class and the associations in the model, but each is in the order of
the source, so the declared names could be read off them again.

The attributes and the methods of a class are kept under their names, and of two members with one
name only the last would be left.  That is the one way to lose a member: as long as the names are
different, all are there.
-/
import ClassModel.Proofs.Source.Collections
import ClassModel.Proofs.Source.Ordering

namespace ClassModel

/-- The model with further associations behind its own. -/
def Model.appendAssociations (m : Model) (as : List Association) : Model :=
  { m with associations := m.associations ++ as }

namespace Source

/-! ### Declared names -/

/-- A name that a field declares, together with the field. -/
structure FieldName where
  field : Field
  declarator : Declarator

namespace FieldName

/-- The name. -/
def name (n : FieldName) : String :=
  n.declarator.name

/-- The type of the field with the dimensions behind the name. -/
def fullType (n : FieldName) : TypeExpr :=
  n.field.type.addDims n.declarator.dims

/-- The attribute that the name becomes. -/
def toAttribute (n : FieldName) : Attribute where
  name := n.name
  type := n.fullType.text
  visibility := accessOf n.field.modifiers
  isStatic := n.field.modifiers.contains .static

/-- The association that the name becomes if its type stands for many objects. -/
def toAssociation (n : FieldName) (owner target : String) : Association where
  left := owner
  right := target
  separator := "-->"
  leftToRight := .many
  label := n.name

end FieldName

/-- The names that a member declares as fields, in order. -/
def Member.fieldNames : Member → List FieldName
  | .field f => f.declarators.map fun d => ⟨f, d⟩
  | _ => []

/-- The method that a member declares. -/
def Member.procedure? : Member → Option Procedure
  | .method p => some p
  | _ => none

/-- The member declares a field or a method. -/
def Member.contributes : Member → Bool
  | .field _ => true
  | .method _ => true
  | _ => false

/-- The names that members declare as fields, in order. -/
def fieldNames (members : List Member) : List FieldName :=
  members.flatMap Member.fieldNames

/-- The methods that members declare, in order. -/
def procedures (members : List Member) : List Procedure :=
  members.filterMap Member.procedure?

/-- Names of fields are divided among attributes and associations: each name is exactly one entry
of one of the two lists, and both are in the order of the names. -/
inductive Divided (owner : String) :
    List FieldName → List Attribute → List Association → Prop where
  | nil : Divided owner [] [] []
  | many {n : FieldName} {target : String} {ns : List FieldName} {as : List Attribute}
      {rs : List Association} (hmany : StandsForMany n.fullType target)
      (h : Divided owner ns as rs) :
      Divided owner (n :: ns) as (n.toAssociation owner target :: rs)
  | one {n : FieldName} {ns : List FieldName} {as : List Attribute} {rs : List Association}
      (hone : ∀ target, ¬StandsForMany n.fullType target) (h : Divided owner ns as rs) :
      Divided owner (n :: ns) (n.toAttribute :: as) rs

namespace Divided

variable {owner : String} {ns ns' : List FieldName} {as as' : List Attribute}
  {rs rs' : List Association}

theorem append (h : Divided owner ns as rs) (h' : Divided owner ns' as' rs') :
    Divided owner (ns ++ ns') (as ++ as') (rs ++ rs') := by
  induction h with
  | nil => exact h'
  | many hmany _ ih => exact .many hmany ih
  | one hone _ ih => exact .one hone ih

/-- The names of the attributes are some of the names, in order. -/
theorem sublist (h : Divided owner ns as rs) :
    (as.map Attribute.name).Sublist (ns.map FieldName.name) := by
  induction h with
  | nil => exact .slnil
  | many _ _ ih => exact ih.cons _
  | one _ _ ih => exact ih.cons_cons _

end Divided

/-! ### Members -/

/-- The attributes that a member of a class declares. -/
def Member.attributes : Member → List Attribute
  | .field f => f.attributes
  | _ => []

theorem divided_field (owner : String) (f : Field) :
    Divided owner (Member.fieldNames (.field f)) f.attributes (f.associations owner) := by
  dsimp only [Member.fieldNames, Field.attributes, Field.associations, Field.entries]
  induction f.declarators with
  | nil => exact .nil
  | cons d ds ih =>
      rw [List.map_cons, List.map_cons, List.filterMap_cons, List.filterMap_cons]
      cases hmany : (f.type.addDims d.dims).manyOf? with
      | some target => exact .many (n := ⟨f, d⟩) (manyOf?_eq_some_iff.mp hmany) ih
      | none =>
          refine .one (n := ⟨f, d⟩) (fun target h => ?_) ih
          have hsome := manyOf?_eq_some_iff.mpr h
          rw [FieldName.fullType, hmany] at hsome
          cases hsome

theorem divided_members (owner : String) (members : List Member) :
    Divided owner (fieldNames members) (members.flatMap Member.attributes)
      (members.flatMap (Member.associations owner)) := by
  induction members with
  | nil => exact .nil
  | cons member members ih =>
      have hmember : Divided owner member.fieldNames member.attributes
          (member.associations owner) := by
        cases member with
        | field f => exact divided_field owner f
        | method | constructor | block | type => exact .nil
      exact hmember.append ih

/-- The members of a class go into two maps, and nowhere else. -/
theorem foldl_addMember (members : List Member) (c : Class) :
    members.foldl addMember c =
      { c with
        attributes := (members.flatMap Member.attributes).foldl
          (fun acc a => acc.insert a.name a) c.attributes
        methods := ((procedures members).map Procedure.method).foldl
          (fun acc f => acc.insert f.name f) c.methods } := by
  induction members generalizing c with
  | nil => rfl
  | cons member members ih =>
      rw [List.foldl_cons, ih, List.flatMap_cons, List.foldl_append]
      cases member with
      | field f =>
          show _ = Class.mk _ _ _ _ _ _ _
          rw [addMember, foldl_addAttribute]
          rfl
      | method | constructor | block | type => rfl

section Classes

variable (package : List String) (ms : List Modifier) (name : String)
  (superclass : Option ClassType) (interfaces : List ClassType) {members : List Member}

/-- Members under different names are all there. -/
theorem values_classOf (hfields : ((fieldNames members).map FieldName.name).Nodup)
    (hmethods : ((procedures members).map Procedure.name).Nodup) :
    (classOf package ms name superclass interfaces members).attributes.values =
        members.flatMap Member.attributes ∧
      (classOf package ms name superclass interfaces members).methods.values =
        (procedures members).map Procedure.method := by
  rw [classOf, foldl_addMember]
  constructor
  · exact OrderedMap.values_ofValues (hfields.sublist (divided_members "" members).sublist)
  · refine OrderedMap.values_ofValues ?_
    rw [List.map_map]
    exact hmethods

/-! ### Members that leave nothing -/

/-- Constructors, blocks and types inside declare no names and no methods. -/
theorem filter_contributes (members : List Member) :
    (members.filter Member.contributes).flatMap Member.attributes =
        members.flatMap Member.attributes ∧
      procedures (members.filter Member.contributes) = procedures members ∧
      ∀ owner, (members.filter Member.contributes).flatMap (Member.associations owner) =
        members.flatMap (Member.associations owner) := by
  induction members with
  | nil => exact ⟨rfl, rfl, fun _ => rfl⟩
  | cons member members ih =>
      obtain ⟨hattributes, hprocedures, hassociations⟩ := ih
      cases member with
      | field f =>
          exact ⟨congrArg (f.attributes ++ ·) hattributes, hprocedures, fun owner =>
            congrArg (f.associations owner ++ ·) (hassociations owner)⟩
      | method p => exact ⟨hattributes, congrArg (p :: ·) hprocedures, hassociations⟩
      | constructor | block | type => exact ⟨hattributes, hprocedures, hassociations⟩

theorem value_register_filter (members : List Member) (m : Model) :
    (register package m (.ofClass ms name superclass interfaces
      (members.filter Member.contributes))).value =
    (register package m (.ofClass ms name superclass interfaces members)).value := by
  obtain ⟨hattributes, hprocedures, hassociations⟩ := filter_contributes members
  have hclass : classOf package ms name superclass interfaces
      (members.filter Member.contributes) =
        classOf package ms name superclass interfaces members := by
    rw [classOf, classOf, foldl_addMember, foldl_addMember, hattributes, hprocedures]
  rw [value_register, value_register, Declaration.enter, Declaration.enter, hclass,
    Declaration.associations, Declaration.associations, hassociations]

/-! ### Visits -/

/-- What a class declaration leaves: a class and the associations that are appended.  The name of
the class, which is also the left end of the associations, is its own name behind the parts of the
package, with dots between them. -/
structure Visited (package : List String) (owner : String) (members : List Member) (c : Class)
    (appended : List Association) : Prop where
  name : c.name = String.intercalate "." (package ++ [owner])
  /-- Each declared name is one attribute of the class or one association of the model. -/
  divided : Divided (String.intercalate "." (package ++ [owner])) (fieldNames members)
    c.attributes.values appended
  methods : c.methods.values = (procedures members).map Procedure.method
  parameters : c.methods.values.map (fun f => f.parameters.map Parameter.name) =
    (procedures members).map fun p => p.parameters.map Formal.name

theorem visited_classOf (hfields : ((fieldNames members).map FieldName.name).Nodup)
    (hmethods : ((procedures members).map Procedure.name).Nodup) :
    Visited package name members (classOf package ms name superclass interfaces members)
      (members.flatMap (Member.associations (qualify package name))) := by
  obtain ⟨hattributes, hvalues⟩ :=
    values_classOf package ms name superclass interfaces hfields hmethods
  rw [qualify_eq_intercalate]
  refine ⟨(name_classOf ..).trans (qualify_eq_intercalate ..), ?_, hvalues, ?_⟩
  · rw [hattributes]
    exact divided_members _ _
  · rw [hvalues, List.map_map]
    refine List.map_congr_left fun p _ => ?_
    show (p.parameters.map Formal.parameter).map Parameter.name = _
    rw [List.map_map]
    rfl

end Classes

/-- Members of all kinds. -/
def quayMembers : List Member :=
  [.field ⟨[.priv], .primitive "int" 0, [⟨"length", 0⟩, ⟨"depths", 1⟩]⟩,
    .constructor "Quay",
    .type (.ofClass [] "Bollard" none [] [.field ⟨[], .primitive "int" 0, [⟨"load", 0⟩]⟩]),
    .method ⟨[], none, "moor", [⟨some (.primitive "int" 0), "lines", true⟩]⟩,
    .field ⟨[], .reference [.plain "java", .plain "util",
      .applied "ArrayList" [.type (.reference [.plain "Ship"] 0)]] 0, [⟨"ships", 0⟩]⟩]

/-- A file with a class behind an interface. -/
def quayUnit : CompilationUnit where
  package := ["port"]
  imports := []
  types := [.ofInterface [] "Pier" [] [], .ofClass [.pub] "Quay" none [] quayMembers]

end Source

end ClassModel
