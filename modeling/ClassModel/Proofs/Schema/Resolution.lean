/-
Every type has a definition.

A type in a schema needs none if it is a scalar or belongs to another package, and otherwise
it has to be a message or an enum of the same schema.  A name that was noted as a mention has
one: it was defined, or it was pending and a placeholder stands for it.

So what has to be shown is that every type was noted.  Fields are, and requests are.  Of the
responses those are not that deliver the one parameter of an event: the type of the parameter
is written down as it stands.  It has a definition only if something else in the model gives
it one.
-/
import ClassModel.Diagram.Reader
import ClassModel.Proofs.Schema.Written

namespace ClassModel

namespace Schema

/-! ### What a schema mentions and defines -/

namespace Document

/-- All messages of a schema, the placeholders among them. -/
def allMessages (d : Document) : List Message :=
  d.messages ++ d.placeholders.getD []

/-- The types of all fields. -/
def fieldTypes (d : Document) : List String :=
  d.allMessages.flatMap fun m => m.fields.map MessageField.type

/-- The procedures of all services. -/
def procedures (d : Document) : List Procedure :=
  d.services.flatMap Service.procedures

/-- The names of all messages and enums. -/
def definedNames (d : Document) : List String :=
  d.allMessages.map Message.name ++ d.enums.map EnumType.name

/-- A name is a scalar, belongs to another package or is defined in the schema. -/
def Resolves (d : Document) (name : String) : Prop :=
  name ∈ scalarTypes ∨ '.' ∈ name.toList ∨ name ∈ d.definedNames

instance (d : Document) (name : String) : Decidable (d.Resolves name) :=
  inferInstanceAs (Decidable (_ ∨ _ ∨ _))

/-- Every type of a field, every request and every response resolves. -/
def Complete (d : Document) : Prop :=
  (∀ name ∈ d.fieldTypes, d.Resolves name) ∧
    ∀ p ∈ d.procedures, d.Resolves p.request ∧ d.Resolves p.response

instance (d : Document) : Decidable d.Complete :=
  inferInstanceAs (Decidable (_ ∧ _))

theorem resolves_emptyMessage (d : Document) : d.Resolves emptyMessage :=
  Or.inr (Or.inl (by decide))

end Document

end Schema

open Schema

namespace Model

variable {m : Model} {name : String}

/-- The procedure delivers the one parameter of an event, whose type stands as it is. -/
def DeliversBare (m : Model) (p : Procedure) : Prop :=
  ∃ i ∈ m.interfaces.values, ∃ f ∈ i.methods.values,
    p = procedureOf (.ofName i.name) f ∧ ServiceKind.ofName i.name ≠ .services ∧
      f.parameters.map Parameter.type = [p.response]

/-! ### A name that was noted resolves -/

theorem mem_definedNames_of_define (package : String) (h : Note.define name ∈ m.notes) :
    name ∈ (m.document package).definedNames := by
  have hservice : ∀ i : Interface, Note.define name ∉ serviceNotes i := by
    intro i hi
    obtain ⟨f, -, hf⟩ := List.mem_flatMap.mp hi
    obtain ⟨n, -, hn⟩ := List.mem_map.mp hf
    cases hn
  rcases List.mem_append.mp h with h | h
  · rcases List.mem_append.mp h with h | h
    · obtain ⟨i, -, hi⟩ := List.mem_flatMap.mp h
      exact absurd hi (hservice i)
    · obtain ⟨c, hc, hnote⟩ := List.mem_flatMap.mp h
      have hname : name = c.name := by
        rcases List.mem_cons.mp hnote with hnote | hnote
        · exact Note.define.inj hnote
        · obtain ⟨a, -, ha⟩ := List.mem_map.mp hnote
          cases ha
      refine List.mem_append_left _ (List.mem_map.mpr ⟨messageOf c, ?_, hname.symm⟩)
      exact List.mem_append_left _ (List.mem_map_of_mem hc)
  · obtain ⟨e, he, hnote⟩ := List.mem_map.mp h
    refine List.mem_append_right _ (List.mem_map.mpr ⟨enumTypeOf e, List.mem_map_of_mem he, ?_⟩)
    exact Note.define.inj hnote

theorem resolves_of_pending (package : String)
    (h : name ∈ (TypeTracker.noteAll {} m.notes).pending) :
    (m.document package).Resolves name := by
  by_cases hneeds : needsDefinition name = true
  · refine Or.inr (Or.inr (List.mem_append_left _ ?_))
    have hpending : (TypeTracker.noteAll {} m.notes).hasPending = true := by
      cases hp : (TypeTracker.noteAll {} m.notes).pending with
      | nil =>
          rw [hp] at h
          cases h
      | cons n ns =>
          rw [TypeTracker.hasPending, hp]
          rfl
    refine List.mem_map.mpr ⟨{ name, fields := [] }, List.mem_append_right _ ?_, rfl⟩
    show _ ∈ (placeholdersOf _).getD []
    rw [placeholdersOf, if_pos hpending, Option.getD_some]
    exact List.mem_map.mpr ⟨name, List.mem_filter.mpr ⟨h, hneeds⟩, rfl⟩
  · simp only [needsDefinition, Bool.and_eq_true, Bool.not_eq_true', not_and, Bool.not_eq_false,
      List.contains_iff_mem] at hneeds
    by_cases hscalar : name ∈ scalarTypes
    · exact Or.inl hscalar
    · exact Or.inr (Or.inl (hneeds (by simpa using hscalar)))

/-- **A name that was noted as a mention resolves.** -/
theorem resolves_of_mention (package : String) (h : Note.mention name ∈ m.notes) :
    (m.document package).Resolves name := by
  rcases (TypeTracker.tracks_noteAll m.notes).of_mention h with hdefine | hpending
  · exact Or.inr (Or.inr (mem_definedNames_of_define package hdefine))
  · exact resolves_of_pending package hpending

/-! ### What is noted -/

theorem mention_of_mem_fieldTypes {package : String}
    (h : name ∈ (m.document package).fieldTypes) : Note.mention name ∈ m.notes := by
  obtain ⟨message, hmessage, htype⟩ := List.mem_flatMap.mp h
  obtain ⟨f, hf, rfl⟩ := List.mem_map.mp htype
  rcases List.mem_append.mp hmessage with hmessage | hmessage
  · obtain ⟨c, hc, rfl⟩ := List.mem_map.mp hmessage
    obtain ⟨⟨a, n⟩, ha, rfl⟩ := List.mem_map.mp hf
    refine List.mem_append_left _ (List.mem_append_right _ (List.mem_flatMap.mpr ⟨c, hc, ?_⟩))
    refine List.mem_cons_of_mem _ (List.mem_map.mpr ⟨a, ?_, rfl⟩)
    exact List.fst_mem_of_mem_zipIdx ha
  · -- A placeholder has no fields.
    obtain ⟨names, hnames⟩ : ∃ names : List String, (m.document package).placeholders.getD [] =
        names.map fun name => { name, fields := [] } := by
      show ∃ names : List String, (placeholdersOf _).getD [] = _
      unfold placeholdersOf
      split
      · exact ⟨_, rfl⟩
      · exact ⟨[], rfl⟩
    rw [hnames] at hmessage
    obtain ⟨_, -, rfl⟩ := List.mem_map.mp hmessage
    cases hf

theorem mention_of_mem_mentionsOf {i : Interface} {f : Method} (hi : i ∈ m.interfaces.values)
    (hf : f ∈ i.methods.values) (h : name ∈ mentionsOf (.ofName i.name) f) :
    Note.mention name ∈ m.notes := by
  refine List.mem_append_left _ (List.mem_append_left _ (List.mem_flatMap.mpr ⟨i, hi, ?_⟩))
  exact List.mem_flatMap.mpr ⟨f, hf, List.mem_map_of_mem h⟩

end Model

namespace Schema

/-- A request is empty or noted. -/
theorem request_mem_mentionsOf (kind : ServiceKind) (f : Method) :
    (procedureOf kind f).request = emptyMessage ∨
      (procedureOf kind f).request ∈ mentionsOf kind f := by
  cases kind with
  | services =>
      by_cases h : f.parameters.isEmpty = true
      · simp [procedureOf, h]
      · simp [procedureOf, mentionsOf, h]
  | dataProvider | events | plain => exact Or.inl rfl

/-- The response of an event is empty or noted, unless it is the type of a single parameter. -/
theorem response_mem_mentionsOf_event {kind : ServiceKind} (hkind : kind ≠ .services) (f : Method) :
    (procedureOf kind f).response = emptyMessage ∨
      (procedureOf kind f).response ∈ mentionsOf kind f ∨
        f.parameters.map Parameter.type = [(procedureOf kind f).response] := by
  cases kind with
  | services => exact absurd rfl hkind
  | dataProvider | events | plain =>
      rcases hparameters : f.parameters with _ | ⟨p, _ | ⟨q, ps⟩⟩
      · exact Or.inl (by simp [procedureOf, hparameters])
      · exact Or.inr (Or.inr (by simp [procedureOf, hparameters]))
      · exact Or.inr (Or.inl (by simp [procedureOf, mentionsOf, hparameters]))

/-- The response of a call is empty or noted. -/
theorem response_mem_mentionsOf_call (f : Method) :
    (procedureOf .services f).response = emptyMessage ∨
      (procedureOf .services f).response ∈ mentionsOf .services f := by
  by_cases h : f.returnType = "void"
  · exact Or.inl (by simp [procedureOf, h, typeName])
  · exact Or.inr (by simp [procedureOf, mentionsOf, h])

end Schema

namespace Model

variable {m : Model}

theorem resolves_of_empty_or_mention {i : Interface} {f : Method} {name : String}
    (hi : i ∈ m.interfaces.values) (hf : f ∈ i.methods.values) (package : String)
    (h : name = emptyMessage ∨ name ∈ mentionsOf (.ofName i.name) f) :
    (m.document package).Resolves name := by
  rcases h with rfl | h
  · exact Document.resolves_emptyMessage _
  · exact resolves_of_mention package (mention_of_mem_mentionsOf hi hf h)

/-- **Every type of a schema resolves, but for the types of parameters that events deliver
bare.** -/
theorem resolves_schema (m : Model) (package : String) :
    (∀ name ∈ (m.schema package).value.1.fieldTypes,
      (m.schema package).value.1.Resolves name) ∧
    ∀ p ∈ (m.schema package).value.1.procedures,
      (m.schema package).value.1.Resolves p.request ∧
        ((m.schema package).value.1.Resolves p.response ∨ m.DeliversBare p) := by
  rw [value_schema]
  refine ⟨fun name h => resolves_of_mention package (mention_of_mem_fieldTypes h), ?_⟩
  intro p hp
  obtain ⟨s, hs, hp⟩ := List.mem_flatMap.mp hp
  obtain ⟨i, hi, rfl⟩ := List.mem_map.mp hs
  obtain ⟨f, hf, rfl⟩ := List.mem_map.mp hp
  refine ⟨resolves_of_empty_or_mention hi hf package (request_mem_mentionsOf _ f), ?_⟩
  by_cases hkind : ServiceKind.ofName i.name = .services
  · refine Or.inl (resolves_of_empty_or_mention hi hf package ?_)
    rw [hkind]
    exact response_mem_mentionsOf_call f
  · rcases response_mem_mentionsOf_event hkind f with h | h | h
    · exact Or.inl (resolves_of_empty_or_mention hi hf package (Or.inl h))
    · exact Or.inl (resolves_of_empty_or_mention hi hf package (Or.inr h))
    · exact Or.inr ⟨i, hi, f, hf, rfl, hkind, h⟩

/-- An event with one parameter, whose type is declared nowhere. -/
def chatText : String :=
  "interface ChatEvents \x7b\n onMessage(Message m)\n\x7d"

theorem not_complete_schema_chatText :
    ¬((Diagram.read chatText).value.schema defaultPackage).value.1.Complete := by
  decide +kernel

end Model

end ClassModel
