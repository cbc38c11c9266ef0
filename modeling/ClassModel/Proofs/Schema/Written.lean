/-
What is written.

While a schema is written, a session goes from part to part.  None of the parts before the
placeholders looks into it: each comes to the same data, makes the same notes and queues the
same messages, whatever went before.  So every part is described by these three, and parts in
a row by putting them together.

The main statement gives the whole schema of a model as data.  Its services are those of the
interfaces, its messages those of the completed model, its enums those of the model, and its
placeholders are read off what a tracker holds after all notes.
-/
import ClassModel.Proofs.Schema.Fields
import ClassModel.Proofs.Schema.Tracking
import ClassModel.Conversion

namespace ClassModel

namespace Schema

/-! ### Steps that do not look back -/

/-- The session after some notes and some queued messages. -/
def Session.after (s : Session) (notes : List Note) (queued : List Class) : Session where
  types := s.types.noteAll notes
  queued := s.queued ++ queued

theorem Session.after_nil (s : Session) : s.after [] [] = s := by
  rw [after, List.append_nil]
  rfl

theorem Session.after_after (s : Session) (notes notes' : List Note) (queued queued' : List Class) :
    (s.after notes queued).after notes' queued' =
      s.after (notes ++ notes') (queued ++ queued') := by
  rw [after, after, after, TypeTracker.noteAll_append, List.append_assoc]

namespace Writing

variable {α β : Type}

/-- A step comes to a value, makes notes and queues messages, whatever went before. -/
def Writes (x : Writing α) (a : α) (notes : List Note) (queued : List Class) : Prop :=
  ∀ s : Session, (x.run s).value = (a, s.after notes queued)

theorem writes_pure (a : α) : Writes (pure a) a [] [] := by
  intro s
  rw [Session.after_nil]
  rfl

/-- What follows a step starts from the session after it. -/
theorem Writes.run_bind {x : Writing α} {a : α} {notes : List Note} {queued : List Class}
    (hx : Writes x a notes queued) (f : α → Writing β) (s : Session) :
    ((x >>= f).run s).value = ((f a).run (s.after notes queued)).value := by
  rw [StateT.run_bind, Traced.value_bind, hx s]

theorem Writes.mapM {f : α → Writing β} {g : α → β} {notes : α → List Note}
    {queued : α → List Class} (h : ∀ a, Writes (f a) (g a) (notes a) (queued a)) (as : List α) :
    Writes (as.mapM f) (as.map g) (as.flatMap notes) (as.flatMap queued) := by
  induction as with
  | nil => exact writes_pure []
  | cons a as ih =>
      intro s
      rw [List.mapM_cons, (h a).run_bind, ih.run_bind, Session.after_after]
      rfl

theorem Writes.mapM_of_queues_nothing {f : α → Writing β} {g : α → β} {notes : α → List Note}
    (h : ∀ a, Writes (f a) (g a) (notes a) []) (as : List α) :
    Writes (as.mapM f) (as.map g) (as.flatMap notes) [] := by
  have hall := Writes.mapM h as
  rwa [List.flatMap_eq_nil_iff.mpr fun _ _ => rfl] at hall

theorem writes_mention (name : String) : Writes (mention name) () [.mention name] [] := by
  intro s
  rw [Session.after, List.append_nil]
  rfl

theorem writes_define (name : String) : Writes (define name) () [.define name] [] := by
  intro s
  rw [Session.after, List.append_nil]
  rfl

theorem writes_queue (c : Class) : Writes (queue c) () [] [c] :=
  fun _ => rfl

theorem writes_report (e : Event) : Writes (report e) () [] [] := by
  intro s
  rw [Session.after_nil]
  rfl

theorem writes_mentions (names : List String) :
    Writes (names.forM mention) () (names.map .mention) [] := by
  induction names with
  | nil => exact writes_pure ()
  | cons name names ih =>
      intro s
      show ((mention name >>= fun _ => names.forM mention).run s).value = _
      rw [(writes_mention name).run_bind, ih, Session.after_after]
      rfl

end Writing

/-! ### The parts of a schema -/

/-- The service of an interface. -/
def serviceOf (i : Interface) : Service where
  name := i.name
  procedures := i.methods.values.map (procedureOf (.ofName i.name))

/-- The names that a service mentions. -/
def serviceNotes (i : Interface) : List Note :=
  i.methods.values.flatMap fun f => (mentionsOf (.ofName i.name) f).map .mention

/-- The messages made of the parameters in an interface. -/
def payloadsOf (i : Interface) : List Class :=
  i.methods.values.flatMap fun f => (payloadOf? (.ofName i.name) f).toList

/-- The field of an attribute. -/
def fieldOf (a : Attribute) (number : Nat) : MessageField where
  type := typeName a.type
  name := a.name
  number

/-- The message of a class. -/
def messageOf (c : Class) : Message where
  name := c.name
  fields := c.attributes.values.zipIdx.map fun (a, n) => fieldOf a (n + 1)

/-- The name that a message defines and those that it mentions. -/
def messageNotes (c : Class) : List Note :=
  .define c.name :: c.attributes.values.map fun a => .mention (typeName a.type)

/-- The enum type of an enum. -/
def enumTypeOf (e : Enum) : EnumType where
  name := e.name
  constants := e.properties.values.map fun p => ⟨p.name, p.value⟩

/-- The placeholders for what is pending. -/
def placeholdersOf (t : TypeTracker) : Option (List Message) :=
  if t.hasPending then
    some ((t.pending.filter needsDefinition).map fun name => { name, fields := [] })
  else
    none

namespace Writing

theorem writes_procedure (attached : Bool) (i : Interface) (f : Method) :
    Writes (procedure attached i f) (procedureOf (.ofName i.name) f)
      ((mentionsOf (.ofName i.name) f).map .mention)
      (if attached then (payloadOf? (.ofName i.name) f).toList else []) := by
  intro s
  unfold procedure
  rw [(writes_mentions _).run_bind]
  cases attached with
  | false =>
      show ((report _ >>= fun _ => pure _).run _).value = _
      rw [(writes_report _).run_bind, Session.after_nil]
      rfl
  | true =>
      rw [if_pos rfl]
      cases payloadOf? (.ofName i.name) f with
      | none => rfl
      | some c =>
          show ((queue c >>= fun _ => pure _).run _).value = _
          rw [(writes_queue c).run_bind, Session.after_after, List.append_nil]
          rfl

theorem writes_service (attached : Bool) (i : Interface) :
    Writes (service attached i) (serviceOf i) (serviceNotes i)
      (if attached then payloadsOf i else []) := by
  intro s
  rw [service]
  cases attached with
  | false =>
      rw [(Writes.mapM_of_queues_nothing (writes_procedure false i) _).run_bind]
      rfl
  | true =>
      rw [(Writes.mapM (writes_procedure true i) _).run_bind]
      rfl

theorem writes_services (is : List Interface) :
    Writes (services true is) (is.map serviceOf) (is.flatMap serviceNotes)
      (is.flatMap payloadsOf) :=
  .mapM (writes_service true) is

theorem writes_field (a : Attribute) (number : Nat) :
    Writes (field a number) (fieldOf a number) [.mention (typeName a.type)] [] := by
  intro s
  rw [field, (writes_mention _).run_bind]
  rfl

theorem writes_fields (as : List Attribute) :
    Writes (as.zipIdx.mapM fun (a, n) => field a (n + 1))
      (as.zipIdx.map fun (a, n) => fieldOf a (n + 1))
      (as.map fun a => .mention (typeName a.type)) [] := by
  have hfields := Writes.mapM_of_queues_nothing
    (fun p : Attribute × Nat => writes_field p.1 (p.2 + 1)) as.zipIdx
  have hnotes := congrArg (List.map fun a => Note.mention (typeName a.type))
    (List.zipIdx_map_fst 0 as)
  rw [List.map_map] at hnotes
  rw [← List.map_eq_flatMap] at hfields
  exact hnotes ▸ hfields

theorem writes_message (c : Class) : Writes (message c) (messageOf c) (messageNotes c) [] := by
  intro s
  rw [message, (writes_define c.name).run_bind, (writes_fields _).run_bind, Session.after_after]
  rfl

theorem writes_messages (cs : List Class) :
    Writes (messages cs) (cs.map messageOf) (cs.flatMap messageNotes) [] :=
  .mapM_of_queues_nothing writes_message cs

theorem writes_enumType (e : Enum) : Writes (enumType e) (enumTypeOf e) [.define e.name] [] := by
  intro s
  rw [enumType, (writes_define e.name).run_bind]
  rfl

theorem writes_enumTypes (es : List Enum) :
    Writes (enumTypes es) (es.map enumTypeOf) (es.map fun e => .define e.name) [] := by
  have h := Writes.mapM_of_queues_nothing writes_enumType es
  rwa [← List.map_eq_flatMap] at h

theorem value_placeholders (s : Session) :
    (placeholders.run s).value.1 = placeholdersOf s.types := by
  unfold placeholders placeholdersOf
  rw [StateT.run_bind, Traced.value_bind]
  show (StateT.run (m := Traced) (if s.types.hasPending then _ else _) s).value.1 = _
  split
  · rw [StateT.run_map, Traced.value_map, writes_messages, List.map_map]
    rfl
  · rfl

end Writing

end Schema

/-! ### The schema of a model -/

namespace Model

open Schema

variable (m : Model)

/-- The messages made of parameters, in the order of the methods. -/
def payloads : List Class :=
  m.interfaces.values.flatMap payloadsOf

/-- The model with its associations folded and the messages made of parameters registered. -/
def completed : Model :=
  m.payloads.foldl addClass m.folded

/-- All notes that are taken before the placeholders are written. -/
def notes : List Note :=
  m.interfaces.values.flatMap serviceNotes ++
    m.completed.classes.values.flatMap messageNotes ++
    m.enums.values.map fun e => .define e.name

/-- The schema of a model as data. -/
def document (package : String) : Document where
  package
  services := m.interfaces.values.map serviceOf
  messages := m.completed.classes.values.map messageOf
  enums := m.enums.values.map enumTypeOf
  placeholders := placeholdersOf (TypeTracker.noteAll {} m.notes)

/-- Completing changes the classes alone. -/
theorem completed_eq :
    m.completed =
      { m with
        classes :=
          m.payloads.foldl (fun cs c => cs.insert c.name c) m.folded.classes } := by
  rw [completed, foldl_addClass, folded_eq]

@[simp]
theorem interfaces_completed : m.completed.interfaces = m.interfaces := by
  rw [completed_eq]

@[simp]
theorem enums_completed : m.completed.enums = m.enums := by
  rw [completed_eq]

@[simp]
theorem associations_completed : m.completed.associations = m.associations := by
  rw [completed_eq]

/-- **The schema of a model is its document, and the model is completed.** -/
theorem value_schema (package : String) :
    (m.schema package).value = (m.document package, m.completed) := by
  have hfolded : m.foldAssociations.value.interfaces = m.interfaces := m.interfaces_folded
  have hservices : ((Writing.services true m.interfaces.values).run {}).value =
      (m.interfaces.values.map serviceOf,
        Session.after {} (m.interfaces.values.flatMap serviceNotes) m.payloads) :=
    Writing.writes_services _ _
  have hcompleted : (m.foldAssociations.value.addPayloads
      (Session.after {} (m.interfaces.values.flatMap serviceNotes) m.payloads).queued).value =
        m.completed := rfl
  have hnotes : ((Session.after {} (m.interfaces.values.flatMap serviceNotes) m.payloads).types
      |>.noteAll (m.completed.classes.values.flatMap messageNotes)
      |>.noteAll (m.enums.values.map fun e => .define e.name)) =
        TypeTracker.noteAll {} m.notes := by
    rw [notes, TypeTracker.noteAll_append, TypeTracker.noteAll_append]
    rfl
  unfold schema
  rw [Traced.value_within, Traced.value_bind, Traced.value_bind, hfolded, hservices]
  dsimp only
  rw [Traced.value_bind, hcompleted, Traced.value_bind, Writing.writes_messages]
  dsimp only
  rw [Traced.value_bind, Writing.writes_enumTypes, enums_completed]
  dsimp only
  rw [Traced.value_bind, Traced.value_pure, Writing.value_placeholders]
  show (Document.mk _ _ _ _
    (placeholdersOf (TypeTracker.noteAll (TypeTracker.noteAll _ _) _)), _) = _
  rw [hnotes]
  rfl

end Model

/-- The schema of a diagram is that of what is read of it. -/
theorem value_diagramToSchema (package text : String) :
    (Conversion.diagramToSchema package text).value =
      ((Diagram.read text).value.schema package).value.1.render := by
  unfold Conversion.diagramToSchema
  rw [Traced.value_within, Traced.value_bind, Traced.value_bind]
  cases ((Diagram.read text).value.schema package).value
  rfl

end ClassModel
