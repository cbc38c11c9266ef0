/-
What can be done to a model.

A model comes about by a sequence of operations: entities, members and associations are added
by hand, a diagram or a source file is read into it, its associations are folded, or its schema
is made.  Each of them consists of elementary steps, whatever text it is given and also when it
rejects the text, so each of them keeps what the steps keep.

Therefore no operation can move a name, lose an association or put something under a name that
is not its own.  What a later operation may do is to write another entity over one of the same
name, in its place.
-/
import ClassModel.Proofs.Diagram.RoundTrip
import ClassModel.Proofs.Growth
import ClassModel.Proofs.Schema.Lines
import ClassModel.Source.Visit

namespace ClassModel

/-! ### Members that are read -/

theorem Class.Keyed.readLine {c : Class} (h : c.Keyed) (l : Line) : (c.readLine l).value.Keyed := by
  unfold Class.readLine
  cases memberLine? l.text with
  | none => exact h
  | some member =>
      cases member with
      | field a => exact h.addAttribute _
      | method f => exact h.addMethod _

theorem Interface.keyed_readLine {i : Interface} (h : i.methods.Keyed Method.name) (l : Line) :
    (i.readLine l).value.methods.Keyed Method.name := by
  unfold Interface.readLine
  cases methodLine? l.text with
  | none => exact h
  | some f => exact OrderedMap.keyed_insert h rfl

theorem Enum.keyed_readLine {e : Enum} (h : e.properties.Keyed EnumProperty.name) (l : Line) :
    (e.readLine l).properties.Keyed EnumProperty.name := by
  unfold Enum.readLine
  cases constantLine? l.text with
  | none => exact h
  | some p => exact OrderedMap.keyed_insert h rfl

namespace Source

theorem keyed_addMember {c : Class} (h : c.Keyed) (m : Member) : (addMember c m).Keyed := by
  cases m with
  | field f => exact List.foldlRecOn f.attributes _ h fun _ hd a _ => hd.addAttribute a
  | method p => exact h.addMethod p.method
  | constructor | block | type => exact h

theorem keyed_classOf (package : List String) (ms : List Modifier) (name : String)
    (superclass : Option ClassType) (interfaces : List ClassType) (members : List Member) :
    (classOf package ms name superclass interfaces members).Keyed := by
  unfold classOf
  exact List.foldlRecOn members _ ⟨OrderedMap.keyed_empty, OrderedMap.keyed_empty⟩
    fun _ hc m _ => keyed_addMember hc m

theorem keyed_interfaceOf (package : List String) (ms : List Modifier) (name : String)
    (members : List Member) :
    (interfaceOf package ms name members).methods.Keyed Method.name := by
  have hmember : ∀ (i : Interface) (m : Member), i.methods.Keyed Method.name →
      (addInterfaceMember i m).methods.Keyed Method.name := by
    intro i m h
    cases m with
    | method p => exact OrderedMap.keyed_insert h rfl
    | field | constructor | block | type => exact h
  unfold interfaceOf
  exact List.foldlRecOn (motive := fun i : Interface => i.methods.Keyed Method.name) members _
    OrderedMap.keyed_empty fun i hi m _ => hmember i m hi

theorem keyed_enumOf (package : List String) (name : String) (constants : List String) :
    (enumOf package name constants).properties.Keyed EnumProperty.name := by
  unfold enumOf
  exact List.foldlRecOn (motive := fun e : Enum => e.properties.Keyed EnumProperty.name) constants _
    OrderedMap.keyed_empty fun _ he _ _ => OrderedMap.keyed_insert he rfl

end Source

theorem Handler.keyed {h : Handler} {q : Class} (hq : h.payload? = some q) : q.Keyed := by
  refine ⟨h.keyed_attributes hq, ?_⟩
  obtain ⟨name, -, rfl⟩ := h.exists_payloadClass hq
  rw [payloadClass_eq]
  exact OrderedMap.keyed_empty

namespace Model

variable {m m' : Model}

/-! ### Reading a diagram -/

theorem Grows.readBlock (h : m.Grows m') (b : Block) : m.Grows (m'.readBlock b).value := by
  unfold Model.readBlock
  cases b.header.kind with
  | ofClass isAbstract superclass interfaces =>
      refine h.addClass ?_
      rw [Traced.value_foldlM]
      exact List.foldlRecOn b.body _ ⟨OrderedMap.keyed_empty, OrderedMap.keyed_empty⟩
        fun _ hc l _ => hc.readLine l
  | ofInterface =>
      refine h.addInterface ?_
      rw [Traced.value_foldlM]
      exact List.foldlRecOn (motive := fun i : Interface => i.methods.Keyed Method.name) b.body _
        OrderedMap.keyed_empty fun _ hi l _ => Interface.keyed_readLine hi l
  | ofEnum =>
      refine h.addEnum ?_
      exact List.foldlRecOn (motive := fun e : Enum => e.properties.Keyed EnumProperty.name) b.body _
        OrderedMap.keyed_empty fun _ he l _ => Enum.keyed_readLine he l

/-- A member that finds no place is dropped. -/
theorem Grows.attach (h : m.Grows m') (inline : InlineMember) (modifiers : Modifiers) :
    m.Grows (m'.attach inline modifiers).value := by
  rcases m'.attach_cases inline modifiers with hsame | ⟨a, -, hadd⟩ | ⟨f, -, hadd⟩
  · rw [hsame]
    exact h
  · exact h.addAttribute? hadd
  · exact h.addMethod? hadd

theorem Grows.readInline (h : m.Grows m') (s : Standalone) :
    m.Grows (m'.readInline s).value := by
  cases s with
  | inline l modifiers => exact h.attach l modifiers
  | composition | plain | unrecognized => exact h

theorem Grows.readComposition (h : m.Grows m') (s : Standalone) :
    m.Grows (m'.readComposition s) := by
  cases s with
  | composition r => exact h.addAssociation r.association
  | inline | plain | unrecognized => exact h

theorem Grows.readPlain (h : m.Grows m') (s : Standalone) : m.Grows (m'.readPlain s).value := by
  cases s with
  | plain r => exact h.addAssociation r.association
  | inline | composition | unrecognized => exact h

/-- All four passes of the reader are made of steps. -/
theorem Grows.readDiagram (h : m.Grows m') (text : String) :
    m.Grows (m'.readDiagram text).value := by
  show m.Grows (m'.readOutline _).value
  rw [value_readOutline]
  refine Grows.foldl (Grows.foldl (Grows.foldl (Grows.foldl h ?_) ?_) ?_) ?_
  · exact fun _ hn => hn.readBlock _
  · exact fun _ hn => hn.readInline _
  · exact fun _ hn => hn.readComposition _
  · exact fun _ hn => hn.readPlain _

/-! ### Reading a source file -/

theorem Grows.register (h : m.Grows m') (package : List String) (d : Source.Declaration) :
    m.Grows (Source.register package m' d).value := by
  cases d with
  | ofClass ms name superclass interfaces members =>
      refine Grows.addClass ?_
        (Source.keyed_classOf package ms name superclass interfaces members)
      exact h.foldl fun _ hn => hn.addAssociation _
  | ofInterface ms name parents members =>
      exact h.addInterface (Source.keyed_interfaceOf package ms name members)
  | ofEnum ms name interfaces constants members =>
      refine Grows.addEnum ?_ (Source.keyed_enumOf package name constants)
      exact h.foldl fun _ hn => hn.addAssociation _

theorem Grows.visit (h : m.Grows m') (u : Source.CompilationUnit) :
    m.Grows (m'.visit u).value := by
  show m.Grows (u.types.foldlM (Source.register u.package) m').value
  rw [Traced.value_foldlM]
  exact h.foldl fun _ hn => hn.register u.package _

theorem Grows.readSource (h : m.Grows m') {text : String} {read : Traced Model}
    (hread : m'.readSource text = .ok read) : m.Grows read.value := by
  unfold Model.readSource at hread
  cases hunit : Source.CompilationUnit.read text with
  | ok u =>
      rw [hunit] at hread
      cases hread
      exact h.visit u
  | error e =>
      rw [hunit] at hread
      cases hread

/-! ### Making a schema -/

theorem Grows.foldAssociation (h : m.Grows m') (a : Association) :
    m.Grows (m'.foldAssociation a).value := by
  rw [value_foldAssociation]
  exact h.addClassAttribute a.owner a.asAttribute

theorem Grows.foldAssociations (h : m.Grows m') : m.Grows m'.foldAssociations.value := by
  unfold Model.foldAssociations
  rw [Traced.value_foldlM]
  exact h.foldl fun _ hn => hn.foldAssociation _

theorem Grows.schema (h : m.Grows m') (package : String) :
    m.Grows (m'.schema package).value.2 := by
  rw [value_schema]
  refine Grows.foldl h.foldAssociations fun {n q} hq hn => hn.addClass ?_
  rw [payloads_eq] at hq
  obtain ⟨handler, -, hpayload⟩ := List.mem_filterMap.mp hq
  exact handler.keyed hpayload

end Model

/-! ### Operations -/

/-- What can be done to a model. -/
inductive Operation where
  | addClass (c : Class)
  | addInterface (i : Interface)
  | addEnum (e : Enum)
  | addAssociation (a : Association)
  | addClassAttribute (owner : String) (a : Attribute)
  | addClassMethod (owner : String) (f : Method)
  | addInterfaceMethod (owner : String) (f : Method)
  | readDiagram (text : String)
  | readSource (text : String)
  | foldAssociations
  | makeSchema (package : String)

/-- What an operation registers has its members under their names. -/
def Operation.Keyed : Operation → Prop
  | addClass c => c.Keyed
  | addInterface i => i.methods.Keyed Method.name
  | addEnum e => e.properties.Keyed EnumProperty.name
  | _ => True

namespace Model

/-- The model after an operation.  A source file that does not read changes nothing. -/
def perform (m : Model) : Operation → Model
  | .addClass c => m.addClass c
  | .addInterface i => m.addInterface i
  | .addEnum e => m.addEnum e
  | .addAssociation a => m.addAssociation a
  | .addClassAttribute owner a => m.addClassAttribute owner a
  | .addClassMethod owner f => m.addClassMethod owner f
  | .addInterfaceMethod owner f => m.addInterfaceMethod owner f
  | .readDiagram text => (m.readDiagram text).value
  | .readSource text =>
      match m.readSource text with
      | .ok read => read.value
      | .error _ => m
  | .foldAssociations => m.foldAssociations.value
  | .makeSchema package => (m.schema package).value.2

/-- The model after a sequence of operations on the empty one. -/
def run (operations : List Operation) : Model :=
  operations.foldl perform empty

/-- **Every operation is made of steps.** -/
theorem Grows.perform {m m' : Model} (h : m.Grows m') {o : Operation} (ho : o.Keyed) :
    m.Grows (m'.perform o) := by
  cases o with
  | addClass c => exact h.addClass ho
  | addInterface i => exact h.addInterface ho
  | addEnum e => exact h.addEnum ho
  | addAssociation a => exact h.addAssociation a
  | addClassAttribute owner a => exact h.addClassAttribute owner a
  | addClassMethod owner f => exact h.addClassMethod owner f
  | addInterfaceMethod owner f => exact h.addInterfaceMethod owner f
  | readDiagram text => exact h.readDiagram text
  | readSource text =>
      unfold Model.perform
      cases hread : m'.readSource text with
      | ok read =>
          simp only [hread]
          exact h.readSource hread
      | error e =>
          simp only [hread]
          exact h
  | foldAssociations => exact h.foldAssociations
  | makeSchema package => exact h.schema package

theorem grows_run {operations : List Operation} (h : ∀ o ∈ operations, o.Keyed) (m : Model) :
    m.Grows (operations.foldl Model.perform m) :=
  Grows.refl.foldl fun ho hn => hn.perform (h _ ho)

/-- **Whatever is done to a model, everything in it stands under its own name, and what was there
stays in front.** -/
theorem indexed_run {before after : List Operation} (h : ∀ o ∈ before ++ after, o.Keyed) :
    (run before).Indexed ∧ (run before).Extends (run (before ++ after)) := by
  obtain ⟨hbefore, hafter⟩ := List.forall_mem_append.mp h
  have hkeyed : (run before).Keyed := (grows_run hbefore empty).keyed keyed_empty
  refine ⟨hkeyed.indexed, ?_⟩
  unfold run
  rw [List.foldl_append]
  exact (grows_run hafter _).toExtends

/-- A ship that is added by hand and then drawn, with a source file that breaks off. -/
def shipOperations : List Operation :=
  [.addClass (Class.addAttribute { name := "Ship" } { name := "mast", type := "int" }),
    .readDiagram "interface Port\nShip *-- Port : home",
    .readSource "class Pier \x7b"]

/-- What is done to the ship afterwards. -/
def shipRefit : List Operation :=
  [.addInterfaceMethod "Port" { name := "enter" }, .readDiagram "class Ship", .makeSchema "harbour"]

theorem indexed_run_shipOperations :
    (∀ o ∈ shipOperations ++ shipRefit, o.Keyed) ∧ (run shipOperations).Indexed ∧
      (run shipOperations).Extends (run (shipOperations ++ shipRefit)) := by
  have hkeyed : ∀ o ∈ shipOperations ++ shipRefit, o.Keyed := by
    have hship : Class.Keyed
        (Class.addAttribute { name := "Ship" } { name := "mast", type := "int" }) :=
      ⟨by decide, by decide⟩
    simp [shipOperations, shipRefit, Operation.Keyed, hship]
  exact ⟨hkeyed, indexed_run hkeyed⟩

end Model

end ClassModel
