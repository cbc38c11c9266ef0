/-
Names without a definition.

A schema ends with one empty message for each name that it uses and nowhere defines.  Which
names are used can be said without a tracker: those of the methods, interface by interface,
and behind them the types of the attributes, class by class.  The classes are those that the
model has once its associations are fields and its parameters have messages, so a message both
defines its own name and uses others.  `Model.prepared` is that model, and it owes nothing to
the schema.

A tracker takes the definitions among the uses as they come, and it drops a pending name when
its definition arrives.  What is left at the end depends on neither: the used names, each at
its first use, without the defined ones.
-/
import ClassModel.Proofs.Schema.Calls

namespace ClassModel

open Schema

/-! ### The names in use -/

/-- The names that a method uses when it is called: its result, unless it has none, and the
request that carries its parameters. -/
def Method.usedInCall (f : Method) : List String :=
  (if f.returnType ≠ "void" then [typeName f.returnType] else []) ++
    if 1 ≤ f.parameters.length then [f.name ++ "Request"] else []

/-- The names that a method uses when it delivers an event: the message of several parameters,
and the empty request if there is any parameter. -/
def Method.usedInEvent (f : Method) : List String :=
  (if 2 ≤ f.parameters.length then [typeName f.event] else []) ++
    if 1 ≤ f.parameters.length then ["google.protobuf.Empty"] else []

/-- The names that the methods of an interface use. -/
def Interface.usedNames (i : Interface) : List String :=
  i.methods.values.flatMap fun f =>
    if i.HasCalls then f.usedInCall else f.usedInEvent

/-- The names that the attributes of a class use. -/
def Class.usedNames (c : Class) : List String :=
  c.attributes.values.map fun a => typeName a.type

namespace Model

variable (m : Model)

/-- The names that a model uses, interfaces before classes. -/
def usedNames : List String :=
  m.interfaces.values.flatMap Interface.usedNames ++ m.classes.values.flatMap Class.usedNames

/-- The names that a model declares as a class or as an enum. -/
def declaredNames : List String :=
  m.classes.values.map Class.name ++ m.enums.values.map Enum.name

/-- The used names that are not declared, each once and in the order of first use. -/
def undefinedNames : List String :=
  m.usedNames.eraseDups.filter (· ∉ m.declaredNames)

/-- The model that a schema is written of.  Every association has become a field of its owner,
and then every message has become a class, in the place of the class that had its name. -/
def prepared : Model :=
  { m with
    classes := (m.interfaces.values.flatMap parameterMessages).foldl
      (fun cs c => cs.insert c.name c)
      (m.associations.foldl (fun cs a => cs.modify a.owner (·.addAttribute a.asAttribute))
        m.classes) }

end Model

/-- The section of a schema for names without a definition. -/
def Schema.placeholderSection (names : List String) : String :=
  if names = [] then ""
  else "\n\n// UNREFERENCED MESSAGE TYPES FROM PARSED UML\n" ++
    spaced ((names.filter fun name => name ∉ scalarTypes ∧ '.' ∉ name.toList).map fun name =>
      "message " ++ name ++ " \x7b\n\x7d")

/-! ### Uses and definitions as notes -/

namespace Schema

/-- Dropping repetitions leaves none. -/
theorem nodup_eraseDups (names : List String) : names.eraseDups.Nodup := by
  cases names with
  | nil => exact List.nodup_nil
  | cons name names =>
      rw [List.eraseDups_cons, List.nodup_cons]
      refine ⟨fun h => ?_, nodup_eraseDups _⟩
      have hname := (List.mem_filter.mp (List.mem_eraseDups.mp h)).2
      simp at hname
termination_by names.length
decreasing_by exact Nat.lt_succ_of_le (List.length_filter_le _ _)

theorem mentions_map (names : List String) : mentions (names.map .mention) = names := by
  unfold mentions
  rw [List.filterMap_map]
  exact List.filterMap_some

theorem definitions_map_mention (names : List String) :
    definitions (names.map .mention) = [] := by
  unfold definitions
  simp [List.filterMap_map]

theorem mentions_flatMap {α : Type} (notes : α → List Note) (as : List α) :
    mentions (as.flatMap notes) = as.flatMap fun a => mentions (notes a) :=
  List.filterMap_flatMap

theorem definitions_flatMap {α : Type} (notes : α → List Note) (as : List α) :
    definitions (as.flatMap notes) = as.flatMap fun a => definitions (notes a) :=
  List.filterMap_flatMap

theorem mentionsOf_services (f : Method) : mentionsOf .services f = f.usedInCall := by
  unfold mentionsOf Method.usedInCall
  by_cases hvoid : f.returnType = "void" <;> cases f.parameters <;> simp [hvoid, requestName]

theorem mentionsOf_of_ne {kind : ServiceKind} (h : kind ≠ .services) (f : Method) :
    mentionsOf kind f = f.usedInEvent := by
  unfold Method.usedInEvent
  cases kind with
  | services => exact absurd rfl h
  | dataProvider | events | plain =>
      unfold mentionsOf
      rcases hparameters : f.parameters with _ | ⟨p, _ | ⟨q, ps⟩⟩
      · rfl
      · rfl
      · have hseveral : 2 ≤ (p :: q :: ps).length := by
          rw [List.length_cons, List.length_cons]
          omega
        rw [if_neg (Nat.not_lt.mpr hseveral), if_pos hseveral, eventName_eq]
        rfl

theorem mentions_serviceNotes (i : Interface) : mentions (serviceNotes i) = i.usedNames := by
  unfold serviceNotes Interface.usedNames
  rw [mentions_flatMap]
  refine congrArg (List.flatMap · _) (funext fun f => ?_)
  rw [mentions_map]
  by_cases hcalls : i.HasCalls
  · rw [if_pos hcalls, ofName_eq_services_iff.mpr hcalls, mentionsOf_services]
  · rw [if_neg hcalls, mentionsOf_of_ne (mt ofName_eq_services_iff.mp hcalls)]

theorem definitions_serviceNotes (i : Interface) : definitions (serviceNotes i) = [] := by
  unfold serviceNotes
  rw [definitions_flatMap, List.flatMap_eq_nil_iff]
  exact fun f _ => definitions_map_mention _

theorem messageNotes_eq (c : Class) :
    messageNotes c = [.define c.name] ++ c.usedNames.map .mention := by
  unfold messageNotes Class.usedNames
  rw [List.map_map]
  rfl

theorem mentions_messageNotes (c : Class) : mentions (messageNotes c) = c.usedNames := by
  rw [messageNotes_eq, mentions_append, mentions_map]
  rfl

theorem definitions_messageNotes (c : Class) : definitions (messageNotes c) = [c.name] := by
  rw [messageNotes_eq, definitions_append, definitions_map_mention]
  rfl

end Schema

namespace Model

variable (m : Model)

/-- What is noted as a mention is what the completed model uses. -/
theorem mentions_notes : mentions m.notes = m.completed.usedNames := by
  have henums : mentions (m.enums.values.map fun e => .define e.name) = [] := by
    unfold mentions
    simp [List.filterMap_map]
  unfold notes usedNames
  rw [mentions_append, mentions_append, mentions_flatMap, mentions_flatMap, henums,
    List.append_nil, interfaces_completed]
  simp only [mentions_serviceNotes, mentions_messageNotes]

/-- What is noted as a definition is what the completed model declares. -/
theorem definitions_notes : definitions m.notes = m.completed.declaredNames := by
  have henums : definitions (m.enums.values.map fun e => .define e.name) =
      m.enums.values.map Enum.name := by
    unfold definitions
    rw [List.filterMap_map]
    exact congrFun List.filterMap_eq_map _
  unfold notes declaredNames
  rw [definitions_append, definitions_append, definitions_flatMap, definitions_flatMap, henums,
    enums_completed]
  simp only [definitions_serviceNotes, definitions_messageNotes]
  rw [List.flatMap_eq_nil_iff.mpr fun _ _ => rfl, List.nil_append, ← List.map_eq_flatMap]

/-- What a tracker holds at the end is used and not declared. -/
theorem pending_notes : (TypeTracker.noteAll {} m.notes).pending = m.completed.undefinedNames := by
  rw [(TypeTracker.tracks_noteAll m.notes).pending, mentions_notes, definitions_notes]
  rfl

/-- Completing a model is preparing it. -/
theorem completed_eq_prepared : m.completed = m.prepared := by
  rw [completed_eq, folded_eq, payloads, funext payloadsOf_eq]
  rfl

theorem nodup_undefinedNames : m.undefinedNames.Nodup := by
  unfold undefinedNames
  exact (nodup_eraseDups _).filter _

theorem placeholders_document (package : String) :
    (m.document package).placeholders =
      if m.completed.undefinedNames = [] then none
      else some ((m.completed.undefinedNames.filter needsDefinition).map fun name =>
        { name, fields := [] }) := by
  show placeholdersOf _ = _
  unfold placeholdersOf TypeTracker.hasPending
  rw [pending_notes]
  cases m.completed.undefinedNames with
  | nil => rfl
  | cons name names => rfl

end Model

/-! ### The section of placeholders -/

namespace Schema

theorem render_emptyMessage (name : String) :
    ({ name, fields := [] } : Message).render = "message " ++ name ++ " \x7b\n\x7d" := by
  unfold Message.render
  rw [String.append_assoc, String.append_assoc, String.append_assoc]
  rfl

theorem needsDefinition_eq :
    needsDefinition = fun name => decide (name ∉ scalarTypes ∧ '.' ∉ name.toList) := by
  funext name
  unfold needsDefinition
  simp

/-- The section of placeholders stands behind everything else. -/
theorem Document.render_eq (d : Document) :
    d.render = { d with placeholders := none }.render ++
      match d.placeholders with
        | some ms => placeholderHeader ++ spaced (ms.map Message.render)
        | none => "" := by
  unfold Document.render
  dsimp only
  exact congrArg (· ++ _) String.append_empty.symm

end Schema

namespace Model

variable (m : Model)

theorem render_document (package : String) :
    (m.document package).render =
      { m.document package with placeholders := none }.render ++
        placeholderSection m.completed.undefinedNames := by
  have hmessages : ((m.completed.undefinedNames.filter needsDefinition).map fun name =>
      ({ name, fields := [] } : Message)).map Message.render =
        (m.completed.undefinedNames.filter needsDefinition).map fun name =>
          "message " ++ name ++ " \x7b\n\x7d" := by
    rw [List.map_map]
    exact List.map_congr_left fun name _ => render_emptyMessage name
  rw [Document.render_eq, placeholders_document]
  unfold placeholderSection
  by_cases hnone : m.completed.undefinedNames = []
  · rw [if_pos hnone, if_pos hnone]
  · rw [if_neg hnone, if_neg hnone, ← needsDefinition_eq, ← hmessages]
    rfl

/-- **A schema ends with an empty message for each name that the prepared model uses and does
not declare, in the order of first use, but for the scalar types and the names with a dot.  The
section is there exactly if there is such a name, also when no message is in it.** -/
theorem placeholders_schema (package : String) :
    (m.schema package).value.2 = m.prepared ∧
      ((m.schema package).value.1.placeholders.isSome ↔ m.prepared.undefinedNames ≠ []) ∧
      (m.schema package).value.1.placeholders.getD [] =
        (m.prepared.undefinedNames.filter fun name =>
          name ∉ scalarTypes ∧ '.' ∉ name.toList).map (fun name => { name, fields := [] }) ∧
      m.prepared.undefinedNames.Nodup ∧
      (m.schema package).value.1.render =
        { (m.schema package).value.1 with placeholders := none }.render ++
          placeholderSection m.prepared.undefinedNames := by
  rw [value_schema, ← needsDefinition_eq, ← completed_eq_prepared]
  refine ⟨rfl, ?_, ?_, m.completed.nodup_undefinedNames, m.render_document package⟩
  · rw [placeholders_document]
    split <;> simp [*]
  · rw [placeholders_document]
    split <;> simp [*]

/-- A market with calls, events and an enum.  The message `SaleEvent` is used before it becomes a
class, `Goods` is used by a call and in a message, and nothing in use declares `Stall`. -/
def marketModel : Model :=
  Model.empty
    |>.addClass (Class.addAttribute (Class.addAttribute { name := "Market" }
        { name := "title", type := "string" }) { name := "currency", type := "Currency" })
    |>.addInterface (Interface.addMethod (Interface.addMethod { name := "StockServices" }
        { name := "find", returnType := "Goods", parameters := [⟨"title", "String"⟩] })
        { name := "count", returnType := "int" })
    |>.addInterface (Interface.addMethod { name := "StockEvents" }
        { name := "onSale", parameters := [⟨"goods", "Goods"⟩, ⟨"price", "int"⟩] })
    |>.addEnum { name := "Currency" }
    |>.addAssociation { left := "Market", right := "Stall", label := "stalls" }

theorem placeholders_schema_marketModel :
    marketModel.prepared.usedNames =
        ["Goods", "findRequest", "int32", "SaleEvent", "google.protobuf.Empty",
          "string", "Currency", "Stall", "String", "Goods", "int32"] ∧
      (marketModel.schema defaultPackage).value.2.classes.keys =
        ["Market", "findRequest", "SaleEvent"] ∧
      (marketModel.schema defaultPackage).value.1.placeholders =
        some [⟨"Goods", []⟩, ⟨"Stall", []⟩, ⟨"String", []⟩] ∧
      ∃ front, (marketModel.schema defaultPackage).value.1.render =
        front ++ "\n\n// UNREFERENCED MESSAGE TYPES FROM PARSED UML\n" ++
          "\n\nmessage Goods \x7b\n\x7d\n\nmessage Stall \x7b\n\x7d\n\nmessage String \x7b\n\x7d" := by
  obtain ⟨hprepared, hsome, hmessages, -, htext⟩ := marketModel.placeholders_schema defaultPackage
  have hnames : marketModel.prepared.undefinedNames =
      ["Goods", "int32", "google.protobuf.Empty", "string", "Stall", "String"] := by
    decide +kernel
  refine ⟨by decide +kernel, ?_, ?_,
    { (marketModel.schema defaultPackage).value.1 with placeholders := none }.render,
    htext.trans ?_⟩
  · rw [hprepared]
    decide +kernel
  · obtain ⟨messages, hp⟩ := Option.isSome_iff_exists.mp (hsome.mpr (by rw [hnames]; simp))
    rw [hp, Option.getD_some, hnames] at hmessages
    rw [hp, hmessages]
    decide +kernel
  · have hsection : placeholderSection
          ["Goods", "int32", "google.protobuf.Empty", "string", "Stall", "String"] =
        "\n\n// UNREFERENCED MESSAGE TYPES FROM PARSED UML\n" ++
          "\n\nmessage Goods \x7b\n\x7d\n\nmessage Stall \x7b\n\x7d\n\nmessage String \x7b\n\x7d" := by
      decide +kernel
    rw [hnames, hsection, String.append_assoc]

end Model

end ClassModel
