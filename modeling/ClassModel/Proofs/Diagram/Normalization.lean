/-
Normal forms.

A normal form is what a diagram is written as after it was read.  Reading it again gives the
same model, up to the separators of associations, which are not written: all but for the
members that the written form does not keep.  A model without such members is settled, and
its normal form is its own normal form.
-/
import ClassModel.Proofs.Diagram.ReadModels
import ClassModel.Proofs.Diagram.RoundTrip

namespace ClassModel

/-- A model that the written form keeps: no type holds a word in braces, no braces of an
entity are left unmatched, and no method returns a type named `abstract` without being
abstract. -/
structure Model.Settled (m : Model) : Prop where
  kept : m.Kept
  classes : ∀ c ∈ m.classes.values, ∀ f ∈ c.methods.values, ¬f.Misread
  interfaces : ∀ i ∈ m.interfaces.values, ∀ f ∈ i.methods.values, ¬f.Misread

instance (m : Model) : Decidable m.Settled :=
  decidable_of_iff
    (m.Kept ∧ (∀ c ∈ m.classes.values, ∀ f ∈ c.methods.values, ¬f.Misread) ∧
      ∀ i ∈ m.interfaces.values, ∀ f ∈ i.methods.values, ¬f.Misread)
    ⟨fun h => ⟨h.1, h.2.1, h.2.2⟩, fun h => ⟨h.kept, h.classes, h.interfaces⟩⟩

/-- The normal form of a diagram. -/
def normalForm (text : String) : String :=
  (Conversion.diagramToDiagram text).value

theorem normalForm_eq (text : String) :
    normalForm text = Diagram.render (Diagram.read text).value := by
  rw [normalForm, Conversion.diagramToDiagram, Traced.value_within, Traced.value_bind]
  rfl

/-- Nothing is written for a separator. -/
theorem render_composed (m : Model) : Diagram.render m.composed = Diagram.render m := by
  have hline : ∀ a : Association,
      (Diagram.renderAssociation ∘ Association.composed) a = Diagram.renderAssociation a :=
    fun _ => rfl
  unfold Diagram.render Diagram.sections Model.composed
  rw [List.map_map, List.map_congr_left fun a _ => hline a]

/-- **The normal form of a settled model is its own normal form.** -/
theorem normalForm_normalForm {text : String} (h : (Diagram.read text).value.Settled) :
    normalForm (normalForm text) = normalForm text := by
  have hsound := sound_read text
  rw [normalForm_eq text, normalForm_eq, value_read_render hsound.drawable hsound.keyed h.kept,
    Model.redrawn_of_not_misread h.classes h.interfaces, render_composed]

/-- A class with members in all four layouts, one of them attached from outside. -/
def looseText : String :=
  "class Shelf\n\x7b\n  books : Map<String, Book>\n\x7bstatic\x7d # int count\n+find(by:String):Book\n\x7d\nShelf : void clear()"

theorem normalForm_normalForm_looseText :
    (Diagram.read looseText).value.Settled ∧
      normalForm (normalForm looseText) = normalForm looseText := by
  have h : (Diagram.read looseText).value.Settled := by decide +kernel
  exact ⟨h, normalForm_normalForm h⟩

/-- A method that returns a type named `abstract`, in the layout with the type behind the
parameters. -/
def abstractText : String :=
  "class A \x7b\n foo() : abstract\n\x7d"

theorem normalForm_normalForm_abstractText_ne :
    normalForm (normalForm abstractText) ≠ normalForm abstractText := by
  decide +kernel

end ClassModel
