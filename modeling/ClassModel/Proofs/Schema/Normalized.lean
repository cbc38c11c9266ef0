/-
Schemas of normal forms.

A normal form writes every association as a composition owned by its left class, and a schema
makes an association a field of the class that owns it.  So the schema of a normal form differs
from that of the diagram where a composition is owned by its right class: there the field goes
to the other end.  Where no composition is, the schema is the same.
-/
import ClassModel.Proofs.Diagram.Composed
import ClassModel.Proofs.Schema.Written

namespace ClassModel

namespace Model

variable {m : Model}

/-- An association that is folded alike if it is written with the operator of a composition
owned by its left class: it is not owned by its right class, or both ends are the same, or no
end is a class. -/
def FoldsAlike (m : Model) (a : Association) : Prop :=
  a.ownedByRight = true → a.left = a.right ∨ (m.class? a.left = none ∧ m.class? a.right = none)

instance (m : Model) (a : Association) : Decidable (m.FoldsAlike a) :=
  inferInstanceAs (Decidable (_ → _))

end Model

theorem Association.ownedByRight_composed (a : Association) : a.composed.ownedByRight = false := by
  show Schema.endsInDiamond "*-->".toList = false
  decide

/-- A declared class owns an association either way or not at all, and the field is the same. -/
theorem Model.FoldsAlike.composed {m : Model} {a : Association} (h : m.FoldsAlike a)
    {name : String} (hname : m.class? name ≠ none) :
    (a.composed.owner = name ↔ a.owner = name) ∧
      (a.owner = name → a.composed.asAttribute = a.asAttribute) := by
  have howner : a.composed.owner = a.left := by
    rw [Association.owner, a.ownedByRight_composed]
    rfl
  have htarget : a.composed.asAttribute = { name := a.label, type := a.right } := by
    rw [Association.asAttribute, Association.target, a.ownedByRight_composed]
    rfl
  rw [howner, htarget, Association.asAttribute, Association.owner, Association.target]
  by_cases hright : a.ownedByRight = true
  · rw [if_pos hright, if_pos hright]
    rcases h hright with he | ⟨hleft, hright⟩
    · rw [he]
      exact ⟨Iff.rfl, fun _ => rfl⟩
    · refine ⟨⟨?_, ?_⟩, ?_⟩
      · rintro rfl
        exact absurd hleft hname
      · rintro rfl
        exact absurd hright hname
      · rintro rfl
        exact absurd hright hname
  · rw [if_neg hright, if_neg hright]
    exact ⟨Iff.rfl, fun _ => rfl⟩

namespace Model

variable {m : Model}

/-- A declared class takes in the same fields. -/
theorem takeIn_owned_composed (h : ∀ a ∈ m.associations, m.FoldsAlike a) {c : Class}
    {name : String} (hname : m.class? name ≠ none) :
    c.takeIn (m.composed.owned name) = c.takeIn (m.owned name) := by
  have howned : m.composed.owned name =
      (m.owned name).map Association.composed := by
    show (m.associations.map Association.composed).filter _ = _
    rw [List.filter_map, owned]
    refine congrArg (List.map Association.composed) (List.filter_congr fun a ha => ?_)
    exact decide_eq_decide.mpr ((h a ha).composed hname).1
  have hfields : (m.composed.owned name).map Association.asAttribute =
      (m.owned name).map Association.asAttribute := by
    rw [howned, List.map_map]
    refine List.map_congr_left fun a ha => ?_
    obtain ⟨ha, hown⟩ := List.mem_filter.mp ha
    exact ((h a ha).composed hname).2 (of_decide_eq_true hown)
  rw [Class.takeIn_eq, Class.takeIn_eq, hfields]

theorem classes_folded_composed (h : ∀ a ∈ m.associations, m.FoldsAlike a) :
    m.composed.folded.classes = m.folded.classes := by
  refine OrderedMap.ext_views ?_ fun name => ?_
  · rw [keys_classes_folded, keys_classes_folded]
    rfl
  · show m.composed.folded.class? name = m.folded.class? name
    have hclass : m.composed.class? name = m.class? name := rfl
    rw [class?_folded, class?_folded, hclass]
    cases hc : m.class? name with
    | none => rfl
    | some c =>
        have hname : m.class? name ≠ none := by simp [hc]
        rw [Option.map_some, Option.map_some, takeIn_owned_composed h hname]

/-- **A schema depends on the operators of associations only through their owners.** -/
theorem document_composed (h : ∀ a ∈ m.associations, m.FoldsAlike a) (package : String) :
    m.composed.document package = m.document package := by
  have hclasses : m.composed.completed.classes = m.completed.classes := by
    rw [completed_eq, completed_eq, classes_folded_composed h]
    rfl
  have hinterfaces : m.composed.interfaces = m.interfaces := rfl
  have henums : m.composed.enums = m.enums := rfl
  simp only [document, notes, hclasses, hinterfaces, henums]

end Model

/-- **The schema of a normal form that is its own normal form** is that of the diagram with
all associations owned by their left classes.  It is the schema of the diagram if the other
associations relate a type to itself or types that are no classes. -/
theorem diagramToSchema_normalForm (package : String) {text : String}
    (h : normalForm (normalForm text) = normalForm text) :
    (Conversion.diagramToSchema package (normalForm text)).value =
        ((Diagram.read text).value.composed.schema package).value.1.render ∧
      ((∀ a ∈ (Diagram.read text).value.associations, (Diagram.read text).value.FoldsAlike a) →
        (Conversion.diagramToSchema package (normalForm text)).value =
          (Conversion.diagramToSchema package text).value) := by
  have hread := (normalForm_normalForm_iff text).mp h
  rw [value_diagramToSchema, value_diagramToSchema, hread]
  refine ⟨rfl, fun halike => ?_⟩
  rw [Model.value_schema, Model.value_schema, Model.document_composed halike]

/-- A library that owns its books, and books that follow each other, the operators either way
round. -/
def sequelText : String :=
  "class Library\nclass Book\nLibrary \"1\" -- \"*\" Book : books\nBook --o Book : sequel"

theorem diagramToSchema_normalForm_sequelText :
    normalForm (normalForm sequelText) = normalForm sequelText ∧
      (∀ a ∈ (Diagram.read sequelText).value.associations,
        (Diagram.read sequelText).value.FoldsAlike a) ∧
      (Conversion.diagramToSchema Schema.defaultPackage (normalForm sequelText)).value =
        (Conversion.diagramToSchema Schema.defaultPackage sequelText).value := by
  have h : normalForm (normalForm sequelText) = normalForm sequelText := by decide +kernel
  have halike : ∀ a ∈ (Diagram.read sequelText).value.associations,
      (Diagram.read sequelText).value.FoldsAlike a := by
    decide +kernel
  exact ⟨h, halike, (diagramToSchema_normalForm Schema.defaultPackage h).2 halike⟩

/-- A wheel that is owned by its car. -/
def wheelText : String :=
  "class Wheel\nclass Car\nWheel --* Car : wheels"

theorem diagramToSchema_normalForm_wheelText_ne :
    normalForm (normalForm wheelText) = normalForm wheelText ∧
      (Conversion.diagramToSchema Schema.defaultPackage (normalForm wheelText)).value ≠
        (Conversion.diagramToSchema Schema.defaultPackage wheelText).value := by
  have h : normalForm (normalForm wheelText) = normalForm wheelText := by decide +kernel
  exact ⟨h, by decide +kernel⟩

end ClassModel
