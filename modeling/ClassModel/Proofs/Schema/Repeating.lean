/-
Completing a model again.

Writing the schema of a model leaves a completed model behind, with fields for its
associations and classes for the messages.  The associations and the interfaces are still
there, so everything is folded and registered once more when the schema is written again.  But
a class takes in again what it has taken in already, and over a message the same message is
written.  So the completed model is complete, and its schema is the one that was written.
-/
import ClassModel.Proofs.Schema.Payloads

namespace ClassModel

open Schema

namespace Model

variable (m : Model)

/-! ### The completed model is complete -/

theorem payloads_completed : m.completed.payloads = m.payloads := by
  rw [payloads, payloads, interfaces_completed]

theorem lastHandler?_completed (name : String) :
    m.completed.lastHandler? name = m.lastHandler? name := by
  rw [lastHandler?, handlers, interfaces_completed, lastHandler?, handlers]

/-- A class that has taken in its associations takes in nothing new. -/
theorem map_takeIn_folded (name : String) :
    (m.folded.class? name).map (fun c => c.takeIn (m.owned name)) = m.folded.class? name := by
  rw [class?_folded, Option.map_map]
  exact congrArg (Option.map · _) (funext fun c => c.takeIn_takeIn _)

/-- The last message of a name is written over itself, and a class without a message is folded
as before. -/
theorem class?_completed_completed (name : String) :
    m.completed.completed.class? name = m.completed.class? name := by
  have howned : m.completed.owned name = m.owned name := by
    rw [owned, owned, associations_completed]
  rw [class?_completed, lastHandler?_completed, class?_folded, howned, class?_completed]
  cases (m.lastHandler? name).bind Handler.payload? with
  | some q => rfl
  | none => exact m.map_takeIn_folded name

/-- The names of the messages are taken already. -/
theorem keys_classes_completed_completed :
    m.completed.completed.classes.keys = m.completed.classes.keys := by
  have hnone : (m.payloads.map Class.name).filter (· ∉ m.completed.classes.keys) = [] := by
    refine List.filter_eq_nil_iff.mpr fun name hname => ?_
    rw [keys_classes_completed]
    by_cases h : name ∈ m.classes.keys <;> simp_all
  rw [keys_classes_completed, payloads_completed, hnone, List.eraseDups_nil, List.append_nil]

/-- **Completing a completed model changes nothing.** -/
theorem completed_completed : m.completed.completed = m.completed := by
  have hclasses : m.completed.completed.classes = m.completed.classes :=
    OrderedMap.ext_views m.keys_classes_completed_completed m.class?_completed_completed
  calc m.completed.completed
      = { m.completed with classes := m.completed.completed.classes } := by
        rw [completed_eq m.completed]
    _ = m.completed := by rw [hclasses]

theorem document_completed (package : String) :
    m.completed.document package = m.document package := by
  simp only [document, notes, completed_completed, interfaces_completed, enums_completed]

/-! ### The classes that come out -/

theorem keyed_classes_completed (h : m.classes.Keyed Class.name) :
    m.completed.classes.Keyed Class.name := by
  rw [completed_eq, folded_eq]
  refine OrderedMap.keyed_foldl_insert ?_ _
  exact OrderedMap.keyed_foldl_modify _ _ h (fun a c => c.name_addAttribute _) _

/-- **Writing a schema can be repeated on what it leaves behind.** -/
theorem schema_schema (m : Model) (package : String) :
    ((m.schema package).value.2.schema package).value = (m.schema package).value ∧
      (m.schema package).value.2.interfaces = m.interfaces ∧
      (m.schema package).value.2.enums = m.enums ∧
      (m.schema package).value.2.associations = m.associations ∧
      m.classes.keys <+: (m.schema package).value.2.classes.keys ∧
      (m.classes.Keyed Class.name →
        m.classes.values.map Class.name <+:
          (m.schema package).value.2.classes.values.map Class.name) := by
  rw [m.value_schema package]
  refine ⟨?_, m.interfaces_completed, m.enums_completed, m.associations_completed, ?_, ?_⟩
  · rw [value_schema, document_completed, completed_completed]
  · rw [keys_classes_completed]
    exact List.prefix_append _ _
  · intro hkeyed
    rw [OrderedMap.map_values hkeyed, OrderedMap.map_values (m.keyed_classes_completed hkeyed),
      keys_classes_completed]
    exact List.prefix_append _ _

/-- A library with an association, a search and an event of its own. -/
def lendingModel : Model :=
  Model.empty
    |>.addClass { name := "Library" }
    |>.addInterface (Interface.addMethod { name := "LendingServices" }
        { name := "find", returnType := "Book", parameters := [⟨"title", "String"⟩] })
    |>.addInterface (Interface.addMethod { name := "LendingEvents" }
        { name := "onReturn", parameters := [⟨"book", "Book"⟩, ⟨"day", "int"⟩] })
    |>.addAssociation { left := "Library", right := "Book", label := "books" }

theorem schema_schema_lendingModel :
    lendingModel.classes.Keyed Class.name ∧
      lendingModel.classes.values.map Class.name <+:
        (lendingModel.schema defaultPackage).value.2.classes.values.map Class.name :=
  ⟨by decide, (schema_schema lendingModel defaultPackage).2.2.2.2.2 (by decide)⟩

end Model

end ClassModel
