/-
What is left of a model in its stubs.

Reading the stubs of a model gives a model again, and this module says which one.  The
entities keep their names and their order.  A field that stands for many objects comes back
as an association, a class has the methods of its interfaces as its own ones, and what
stubs do not show is gone: static methods, abstract and protected methods of interfaces,
values of constants and the associations of the model.

Each stub is the text of a tree, so it reads as that tree, and what is left to follow is how
the tree is registered.
-/
import ClassModel.Conversion
import ClassModel.Proofs.Construction
import ClassModel.Proofs.Source.Collections
import ClassModel.Proofs.Source.Stubs

namespace ClassModel

open Source

/-! ### The model that comes back -/

/-- A method of a class as its stub shows it. -/
def Method.restored (m : Method) : Method :=
  { m with isStatic := false }

/-- A method of an interface as its stub shows it.  There `protected` says nothing. -/
def Method.restoredInInterface (m : Method) : Method :=
  { m with
    isAbstract := false
    isStatic := false
    visibility := if m.visibility = .prot then .pub else m.visibility }

/-- An attribute that does not stand for many objects. -/
def Attribute.isSingle (typeOf : String → TypeExpr) (a : Attribute) : Bool :=
  decide ¬∃ target, StandsForMany (typeOf a.type) target

/-- The association of an attribute that stands for many objects. -/
def Attribute.association? (typeOf : String → TypeExpr) (owner : String) (a : Attribute) :
    Option Association :=
  if ∃ target, StandsForMany (typeOf a.type) target then
    some { left := owner, right := (typeOf a.type).items, separator := "-->", leftToRight := .many
           rightToLeft := .unspecified, label := a.name }
  else none

/-- A class that comes back with the given methods. -/
def Class.restored (typeOf : String → TypeExpr) (c : Class) (methods : List Method) : Class :=
  { c with
    attributes := .ofValues Attribute.name (c.attributes.values.filter (·.isSingle typeOf))
    methods := .ofValues Method.name (methods.map Method.restored) }

/-- An interface that comes back. -/
def Interface.restored (i : Interface) : Interface :=
  { i with methods := .ofValues Method.name (i.methods.values.map Method.restoredInInterface) }

/-- An enum that comes back, without values. -/
def Enum.restored (e : Enum) : Enum :=
  { e with
    properties := .ofValues EnumProperty.name
      (e.properties.values.map fun p => { name := p.name }) }

/-- The model that comes back from the stubs of a model. -/
def Model.restored (typeOf : String → TypeExpr) (m : Model) : Model where
  classes := .ofValues Class.name (m.classes.values.map fun c =>
    c.restored typeOf (c.methods.values ++ Stub.inheritedMethods m c))
  interfaces := .ofValues Interface.name (m.interfaces.values.map Interface.restored)
  enums := .ofValues Enum.name (m.enums.values.map Enum.restored)
  associations := m.classes.values.flatMap fun c =>
    c.attributes.values.filterMap (·.association? typeOf c.name)

/-! ### Trees of names -/

namespace Source

variable {typeOf : String → TypeExpr}

theorem properClass_plainType {name : String} (h : IsName name) : ProperClass (plainType name) := by
  refine ⟨List.cons_ne_nil _ _, fun s hs => ?_⟩
  rcases List.mem_singleton.mp hs with rfl
  rw [TypeSegment.Proper]
  exact h

theorem proper_fieldOf {a : Attribute} (h : a.Stubbable typeOf) : (fieldOf typeOf a).Proper := by
  refine ⟨h.type.proper, List.cons_ne_nil _ _, fun d hd => ?_⟩
  rcases List.mem_singleton.mp hd with rfl
  exact h.name

theorem proper_procedureOf (inInterface : Bool) {m : Method} (h : m.Stubbable typeOf) :
    (procedureOf typeOf inInterface m).Proper := by
  constructor
  · intro t ht
    by_cases hvoid : m.returnType = "void"
    · rw [procedureOf, if_pos hvoid] at ht
      cases ht
    · rw [procedureOf, if_neg hvoid] at ht
      cases ht
      exact (h.returnType hvoid).proper
  · exact h.name
  · intro f hf
    obtain ⟨p, hp, rfl⟩ := List.mem_map.mp hf
    constructor
    · exact (h.parameters p hp).name
    · intro t ht
      cases ht
      exact (h.parameters p hp).type.proper
    · intro hnone
      cases hnone

theorem proper_classTree {c : Class} (hc : c.Stubbable typeOf) {methods : List Method}
    (hmethods : ∀ m ∈ methods, m.Stubbable typeOf) : (classTree typeOf c methods).Proper := by
  rw [classTree, Declaration.Proper, properMembers_iff]
  refine ⟨hc.name, fun t ht => ?_, fun t ht => ?_, fun d hd => ?_⟩
  · obtain ⟨p, hp, rfl⟩ := Option.map_eq_some_iff.mp ht
    exact properClass_plainType (hc.superclass p hp)
  · obtain ⟨i, hi, rfl⟩ := List.mem_map.mp ht
    exact properClass_plainType (hc.interfaces i hi)
  · rcases List.mem_append.mp hd with hd | hd
    · obtain ⟨a, ha, rfl⟩ := List.mem_map.mp hd
      rw [Function.comp_apply, Member.Proper]
      exact proper_fieldOf (hc.attributes a ha)
    · obtain ⟨m, hm, rfl⟩ := List.mem_map.mp hd
      rw [Function.comp_apply, Member.Proper]
      exact proper_procedureOf false (hmethods m hm)

theorem proper_interfaceTree {i : Interface} (hi : i.Stubbable typeOf) :
    (interfaceTree typeOf i).Proper := by
  rw [interfaceTree, Declaration.Proper, properMembers_iff]
  refine ⟨hi.name, fun t ht => absurd ht List.not_mem_nil, fun d hd => ?_⟩
  obtain ⟨m, hm, rfl⟩ := List.mem_map.mp hd
  rw [Function.comp_apply, Member.Proper]
  exact proper_procedureOf true (hi.methods m hm)

theorem proper_enumTree {e : Enum} (he : e.Stubbable) : (enumTree e).Proper := by
  rw [enumTree, Declaration.Proper, properMembers_iff]
  refine ⟨he.name, fun t ht => absurd ht List.not_mem_nil, fun c hc => ?_,
    fun d hd => absurd hd List.not_mem_nil⟩
  obtain ⟨p, hp, rfl⟩ := List.mem_map.mp hc
  exact he.properties p hp

/-- A stub reads as the tree it is the text of. -/
theorem read_stub {d : Declaration} (hd : d.Proper) {text : String}
    (h : LaidOut d.tokens text.toList) : CompilationUnit.read text = .ok ⟨[], [], [d]⟩ := by
  have hproper : (⟨[], [], [d]⟩ : CompilationUnit).Proper := by
    refine ⟨fun s hs => absurd hs List.not_mem_nil, fun p hp => absurd hp List.not_mem_nil, ?_⟩
    intro e he
    rcases List.mem_singleton.mp he with rfl
    exact hd
  have htokens : (⟨[], [], [d]⟩ : CompilationUnit).tokens = d.tokens := by
    simp [CompilationUnit.tokens, packageTokens]
  obtain ⟨r, hr⟩ := cut_compilationUnit hproper (htokens ▸ h)
  exact read_of_cut hr

/-! ### Members that come back -/

variable {m : Method} {a : Attribute}

theorem visibility?_ofVisibility (v : Visibility) :
    (Modifier.ofVisibility v).visibility? = some v := by
  cases v <;> rfl

theorem accessOf_ofVisibility (v : Visibility) (b : Bool) {m : Modifier}
    (hm : m.visibility? = none) :
    accessOf (Modifier.ofVisibility v :: if b then [m] else []) = v := by
  unfold accessOf
  cases b <;> simp [List.findSome?, hm, visibility?_ofVisibility]

theorem addDims_zero (t : TypeExpr) : t.addDims 0 = t := by
  cases t <;> rfl

theorem entries_fieldOf (a : Attribute) :
    (fieldOf typeOf a).entries = [(a.name, typeOf a.type)] := by
  unfold Field.entries fieldOf
  rw [List.map_singleton, addDims_zero]

/-- A field gives its attribute back unless that stands for many objects. -/
theorem attributes_fieldOf (h : a.Stubbable typeOf) :
    (fieldOf typeOf a).attributes = if a.isSingle typeOf then [a] else [] := by
  have haccess := accessOf_ofVisibility a.visibility a.isStatic (m := .static) rfl
  have hstatic : (Modifier.ofVisibility a.visibility ::
      if a.isStatic then [Modifier.static] else []).contains .static = a.isStatic := by
    cases a.visibility <;> cases a.isStatic <;> rfl
  have hmodifiers : (fieldOf typeOf a).modifiers =
      Modifier.ofVisibility a.visibility :: if a.isStatic then [Modifier.static] else [] := rfl
  unfold Field.attributes Attribute.isSingle
  rw [entries_fieldOf, hmodifiers]
  by_cases hmany : ∃ target, StandsForMany (typeOf a.type) target
  · simp [manyOf?_eq, hmany]
  · have hnone : (typeOf a.type).manyOf? = none := by rw [manyOf?_eq, if_neg hmany]
    rw [if_pos (decide_eq_true hmany)]
    simp only [List.filterMap_cons, List.filterMap_nil, hnone, haccess, hstatic, h.type.text_eq]

/-- A field gives an association if its attribute stands for many objects. -/
theorem associations_fieldOf (owner : String) (a : Attribute) :
    (fieldOf typeOf a).associations owner = (a.association? typeOf owner).toList := by
  unfold Field.associations Attribute.association?
  rw [entries_fieldOf]
  by_cases hmany : ∃ target, StandsForMany (typeOf a.type) target <;> simp [manyOf?_eq, hmany]

theorem parameter_formalOf {p : Parameter} (h : p.Stubbable typeOf) :
    (formalOf typeOf p).parameter = p := by
  obtain ⟨name, type⟩ := p
  show (⟨name, ((typeOf type).addDims 0).text⟩ : Parameter) = ⟨name, type⟩
  rw [addDims_zero, h.type.text_eq]

/-- Whatever the visibility, a tree gives the signature of its method back. -/
theorem methodWith_procedureOf (inInterface : Bool) (h : m.Stubbable typeOf) (v : Visibility) :
    (procedureOf typeOf inInterface m).methodWith v =
      { m with visibility := v, isAbstract := m.isAbstract && !inInterface, isStatic := false } := by
  have hparameters : (m.parameters.map (formalOf typeOf)).map Formal.parameter = m.parameters := by
    rw [List.map_map]
    exact (List.map_congr_left fun p hp => parameter_formalOf (h.parameters p hp)).trans
      (List.map_id _)
  have hresult : ((procedureOf typeOf inInterface m).methodWith v).returnType = m.returnType := by
    unfold Procedure.methodWith procedureOf
    by_cases hvoid : m.returnType = "void"
    · simp only [if_pos hvoid]
      exact hvoid.symm
    · simp only [if_neg hvoid]
      exact (h.returnType hvoid).text_eq
  have hflags : ∀ b : Bool, (Modifier.ofVisibility m.visibility ::
      if b then [Modifier.abstr] else []).contains .abstr = b ∧
        (Modifier.ofVisibility m.visibility ::
          if b then [Modifier.abstr] else []).contains .static = false := by
    intro b
    cases m.visibility <;> cases b <;> exact ⟨rfl, rfl⟩
  unfold Procedure.methodWith
  rw [Method.mk.injEq]
  exact ⟨rfl, hresult, hparameters, rfl, (hflags _).1, (hflags _).2⟩

theorem method_procedureOf (h : m.Stubbable typeOf) :
    (procedureOf typeOf false m).method = m.restored := by
  unfold Procedure.method
  rw [methodWith_procedureOf false h]
  unfold procedureOf Method.restored
  rw [accessOf_ofVisibility _ _ rfl, Bool.not_false, Bool.and_true]

theorem interfaceMethod_procedureOf (h : m.Stubbable typeOf) :
    (procedureOf typeOf true m).interfaceMethod = m.restoredInInterface := by
  have haccess : interfaceAccessOf [Modifier.ofVisibility m.visibility] =
      if m.visibility = .prot then .pub else m.visibility := by
    cases m.visibility <;> rfl
  unfold Procedure.interfaceMethod
  rw [methodWith_procedureOf true h]
  unfold procedureOf Method.restoredInInterface
  rw [Bool.not_true, Bool.and_false, if_neg Bool.false_ne_true, haccess]

/-! ### Entities that come back -/

theorem foldl_addMember_fields {as : List Attribute} (has : ∀ a ∈ as, a.Stubbable typeOf)
    (c : Class) :
    (as.map (Member.field ∘ fieldOf typeOf)).foldl addMember c =
      (as.filter (·.isSingle typeOf)).foldl Class.addAttribute c := by
  induction as generalizing c with
  | nil => rfl
  | cons a as ih =>
      have hfield : addMember c (.field (fieldOf typeOf a)) =
          (if a.isSingle typeOf then [a] else []).foldl Class.addAttribute c := by
        show (fieldOf typeOf a).attributes.foldl Class.addAttribute c = _
        rw [attributes_fieldOf (has a List.mem_cons_self)]
      rw [List.map_cons, List.foldl_cons, Function.comp_apply, hfield,
        ih fun b hb => has b (List.mem_cons_of_mem a hb)]
      by_cases hsingle : a.isSingle typeOf = true
      · rw [if_pos hsingle, List.filter_cons_of_pos hsingle]
        rfl
      · rw [if_neg hsingle, List.filter_cons_of_neg hsingle]
        rfl

theorem foldl_addMember_methods {ms : List Method} (hms : ∀ m ∈ ms, m.Stubbable typeOf)
    (c : Class) :
    (ms.map (Member.method ∘ procedureOf typeOf false)).foldl addMember c =
      (ms.map Method.restored).foldl Class.addMethod c := by
  induction ms generalizing c with
  | nil => rfl
  | cons m ms ih =>
      have hmethod : addMember c (.method (procedureOf typeOf false m)) =
          c.addMethod m.restored := by
        show c.addMethod (procedureOf typeOf false m).method = _
        rw [method_procedureOf (hms m List.mem_cons_self)]
      rw [List.map_cons, List.foldl_cons, Function.comp_apply, hmethod,
        ih fun d hd => hms d (List.mem_cons_of_mem m hd)]
      rfl

theorem foldl_addInterfaceMember {ms : List Method} (hms : ∀ m ∈ ms, m.Stubbable typeOf)
    (i : Interface) :
    (ms.map (Member.method ∘ procedureOf typeOf true)).foldl addInterfaceMember i =
      (ms.map Method.restoredInInterface).foldl Interface.addMethod i := by
  induction ms generalizing i with
  | nil => rfl
  | cons m ms ih =>
      have hmethod : addInterfaceMember i (.method (procedureOf typeOf true m)) =
          i.addMethod m.restoredInInterface := by
        show i.addMethod (procedureOf typeOf true m).interfaceMethod = _
        rw [interfaceMethod_procedureOf (hms m List.mem_cons_self)]
      rw [List.map_cons, List.foldl_cons, Function.comp_apply, hmethod,
        ih fun d hd => hms d (List.mem_cons_of_mem m hd)]
      rfl

/-- The tree of a class is registered as the class that comes back. -/
theorem classOf_classTree {c : Class} (hc : c.Stubbable typeOf) {methods : List Method}
    (hmethods : ∀ m ∈ methods, m.Stubbable typeOf) :
    classOf [] ((if c.isAbstract then [.abstr] else []) ++ [Modifier.ofVisibility c.visibility])
      c.name (c.superclass.map plainType) (c.interfaces.map plainType)
      (c.attributes.values.map (Member.field ∘ fieldOf typeOf) ++
        methods.map (Member.method ∘ procedureOf typeOf false)) = c.restored typeOf methods := by
  have hplain : ∀ name, qualifiedName (plainType name) = name := by
    intro name
    show String.intercalate "." [name] = name
    rw [String.intercalate_singleton]
  have hsuper : (c.superclass.map plainType).map qualifiedName = c.superclass := by
    cases c.superclass with
    | none => rfl
    | some p => exact congrArg some (hplain p)
  have hinterfaces : (c.interfaces.map plainType).map qualifiedName = c.interfaces := by
    rw [List.map_map]
    exact (List.map_congr_left fun name _ => hplain name).trans (List.map_id _)
  have hflags : accessOf ((if c.isAbstract then [.abstr] else []) ++
      [Modifier.ofVisibility c.visibility]) = c.visibility ∧
        ((if c.isAbstract then [Modifier.abstr] else []) ++
          [Modifier.ofVisibility c.visibility]).contains .abstr = c.isAbstract := by
    cases c.isAbstract <;> cases c.visibility <;> exact ⟨rfl, rfl⟩
  unfold classOf
  rw [hsuper, hinterfaces, hflags.1, hflags.2, List.foldl_append,
    foldl_addMember_fields hc.attributes, foldl_addMember_methods hmethods, foldl_addMethod,
    foldl_addAttribute]
  rfl

theorem interfaceOf_interfaceTree {i : Interface} (hi : i.Stubbable typeOf) :
    interfaceOf [] [Modifier.ofVisibility i.visibility] i.name
      (i.methods.values.map (Member.method ∘ procedureOf typeOf true)) = i.restored := by
  have haccess : accessOf [Modifier.ofVisibility i.visibility] = i.visibility :=
    accessOf_ofVisibility i.visibility false (m := .static) rfl
  unfold interfaceOf
  rw [haccess, foldl_addInterfaceMember hi.methods, foldl_interfaceAddMethod]
  rfl

theorem enumOf_enumTree (e : Enum) :
    enumOf [] e.name (e.properties.values.map EnumProperty.name) = e.restored := by
  unfold enumOf
  rw [List.foldl_map]
  have hfold := foldl_addProperty ({ name := e.name } : Enum)
    (e.properties.values.map fun p => { name := p.name })
  rw [List.foldl_map] at hfold
  exact hfold

/-- The associations of a class come in the order of its attributes. -/
theorem associations_classTree (c : Class) (methods : List Method) :
    (c.attributes.values.map (Member.field ∘ fieldOf typeOf) ++
      methods.map (Member.method ∘ procedureOf typeOf false)).flatMap
        (Member.associations c.name) =
      c.attributes.values.filterMap (·.association? typeOf c.name) := by
  have hfields : ∀ as : List Attribute, (as.map (Member.field ∘ fieldOf typeOf)).flatMap
      (Member.associations c.name) = as.filterMap (·.association? typeOf c.name) := by
    intro as
    induction as with
    | nil => rfl
    | cons a as ih =>
        rw [List.map_cons, List.flatMap_cons, ih]
        show (fieldOf typeOf a).associations c.name ++ _ = _
        rw [associations_fieldOf]
        cases h : a.association? typeOf c.name <;> simp [h]
  have hmethods : (methods.map (Member.method ∘ procedureOf typeOf false)).flatMap
      (Member.associations c.name) = [] := by
    rw [List.flatMap_map]
    exact List.flatMap_eq_nil_iff.mpr fun m _ => rfl
  rw [List.flatMap_append, hfields, hmethods, List.append_nil]

/-! ### Registering trees -/

/-- What registering a declaration without a package makes of a model. -/
def registered (m : Model) (d : Declaration) : Model :=
  (register [] m d).value

theorem registered_classTree (m : Model) {c : Class} (hc : c.Stubbable typeOf)
    {methods : List Method} (hmethods : ∀ m ∈ methods, m.Stubbable typeOf) :
    registered m (classTree typeOf c methods) =
      ((c.attributes.values.filterMap (·.association? typeOf c.name)).foldl
        Model.addAssociation m).addClass (c.restored typeOf methods) := by
  unfold registered classTree
  rw [register, Traced.value_ofEvents, classOf_classTree hc hmethods]
  show ((List.flatMap (Member.associations c.name) _).foldl _ m).addClass _ = _
  rw [associations_classTree]

theorem registered_interfaceTree (m : Model) {i : Interface} (hi : i.Stubbable typeOf) :
    registered m (interfaceTree typeOf i) = m.addInterface i.restored := by
  unfold registered interfaceTree
  rw [register, Traced.value_pure, interfaceOf_interfaceTree hi]

theorem registered_enumTree (m : Model) (e : Enum) :
    registered m (enumTree e) = m.addEnum e.restored := by
  unfold registered enumTree
  rw [register, Traced.value_pure, enumOf_enumTree]
  rfl

/-! ### Reading files -/

/-- No file is passed over. -/
def SkipsNothing {α : Type} (x : Traced α) : Prop :=
  ∀ path, Event.sourceSkipped path ∉ x.events

section Skips

variable {α β : Type} {x : Traced α}

theorem skipsNothing_pure (a : α) : SkipsNothing (pure a : Traced α) := by
  intro path h
  cases h

theorem skipsNothing_ofEvents (a : α) {es : List Event} (h : ∀ path, .sourceSkipped path ∉ es) :
    SkipsNothing (Traced.ofEvents a es) := by
  intro path hpath
  rw [Traced.events_ofEvents] at hpath
  exact h path hpath

theorem skipsNothing_emit {e : Event} (h : ∀ path, e ≠ .sourceSkipped path) :
    SkipsNothing (Traced.emit e) :=
  skipsNothing_ofEvents () fun path hpath => h path (List.mem_singleton.mp hpath).symm

theorem SkipsNothing.bind (h : SkipsNothing x) {f : α → Traced β}
    (hf : SkipsNothing (f x.value)) : SkipsNothing (x >>= f) := by
  intro path hpath
  rw [Traced.events_bind, List.mem_append] at hpath
  exact hpath.elim (h path) (hf path)

theorem SkipsNothing.within (h : SkipsNothing x) (a : Activity) : SkipsNothing (x.within a) := by
  intro path hpath
  rw [Traced.events_within] at hpath
  exact h path hpath

theorem skipsNothing_foldlM {f : β → α → Traced β} {l : List α}
    (h : ∀ a ∈ l, ∀ b, SkipsNothing (f b a)) (b : β) : SkipsNothing (l.foldlM f b) := by
  induction l generalizing b with
  | nil => exact skipsNothing_pure b
  | cons a l ih =>
      rw [List.foldlM_cons]
      exact (h a List.mem_cons_self b).bind (ih (fun c hc => h c (List.mem_cons_of_mem a hc)) _)

/-- A file that reads is not passed over, whatever it declares. -/
theorem skipsNothing_visit (m : Model) (u : CompilationUnit) : SkipsNothing (m.visit u) := by
  refine SkipsNothing.bind (skipsNothing_foldlM (fun d _ m => ?_) m) (SkipsNothing.bind
    (skipsNothing_emit (by simp)) (skipsNothing_pure _))
  cases d with
  | ofClass ms name superclass interfaces members =>
      refine skipsNothing_ofEvents _ fun path h => ?_
      obtain ⟨member, -, he⟩ := List.mem_filterMap.mp h
      cases member <;> simp [nestedEvent?] at he
  | ofInterface => exact skipsNothing_pure _
  | ofEnum => exact skipsNothing_pure _

end Skips

end Source

namespace Conversion

variable {m : Model} {s : SourcesState} {f : SourceFile} {u : CompilationUnit}

/-- What reading one more file makes of a model. -/
def readInto (m : Model) (f : SourceFile) : Model :=
  match CompilationUnit.read f.text with
  | .ok u => (m.visit u).value
  | .error _ => m

theorem model_next (s : SourcesState) (f : SourceFile) :
    (s.next f).value.model = readInto s.model f := by
  unfold SourcesState.next Model.readSource readInto
  cases CompilationUnit.read f.text <;> rfl

/-- The model of source files is read file by file. -/
theorem value_sourcesToModel (files : List SourceFile) :
    (sourcesToModel files).value = files.foldl readInto {} := by
  have hfold : ∀ (files : List SourceFile) (s : SourcesState),
      (files.foldl (fun s f => (s.next f).value) s).model = files.foldl readInto s.model := by
    intro files
    induction files with
    | nil => exact fun _ => rfl
    | cons f files ih =>
        intro s
        rw [List.foldl_cons, List.foldl_cons, ih, model_next]
  show (files.foldlM SourcesState.next {}).value.model = _
  rw [Traced.value_foldlM, hfold]

theorem skipsNothing_next (hread : CompilationUnit.read f.text = .ok u) (s : SourcesState) :
    SkipsNothing (s.next f) := by
  unfold SourcesState.next Model.readSource
  rw [hread]
  refine SkipsNothing.bind (skipsNothing_emit (by simp))
    (SkipsNothing.bind (SkipsNothing.within ?_ _) (skipsNothing_pure _))
  exact SkipsNothing.bind (skipsNothing_emit (by simp))
    (skipsNothing_visit _ u)

/-- If every file reads, no file is passed over. -/
theorem skipsNothing_sourcesToModel {files : List SourceFile}
    (h : ∀ f ∈ files, ∃ u, CompilationUnit.read f.text = .ok u) :
    SkipsNothing (sourcesToModel files) := by
  refine SkipsNothing.within (SkipsNothing.bind (skipsNothing_foldlM ?_ _) ?_) _
  · intro f hf s
    obtain ⟨u, hu⟩ := h f hf
    exact skipsNothing_next hu s
  · exact SkipsNothing.bind (skipsNothing_emit (by simp)) (skipsNothing_pure _)

theorem readInto_of_read {text : String} {d : Declaration}
    (hread : CompilationUnit.read text = .ok ⟨[], [], [d]⟩) (m : Model) (path : String) :
    readInto m ⟨path, text⟩ = registered m d := by
  unfold readInto
  rw [hread]
  rfl

end Conversion

/-! ### Stubs read back -/

section Stubs

variable {typeOf : String → TypeExpr} {m : Model}

theorem stubbable_inheritedMethods (hm : m.Stubbable typeOf) (c : Class) :
    ∀ p ∈ Stub.inheritedMethods m c, p.Stubbable typeOf := by
  intro p hp
  obtain ⟨name, -, hmem⟩ := List.mem_flatMap.mp hp
  cases hi : m.interface? name with
  | none =>
      rw [hi] at hmem
      cases hmem
  | some i =>
      rw [hi] at hmem
      exact (hm.interfaces i (OrderedMap.mem_values_of_get? hi)).methods p hmem

/-- The methods that the stub of a class shows. -/
theorem stubbable_methods (hm : m.Stubbable typeOf) {c : Class} (hc : c ∈ m.classes.values) :
    ∀ p ∈ c.methods.values ++ Stub.inheritedMethods m c, p.Stubbable typeOf := by
  intro p hp
  rcases List.mem_append.mp hp with hp | hp
  · exact (hm.classes c hc).methods p hp
  · exact stubbable_inheritedMethods hm c p hp

theorem read_renderClassIn (hm : m.Stubbable typeOf) {c : Class} (hc : c ∈ m.classes.values) :
    CompilationUnit.read (Stub.renderClassIn m c) =
      .ok ⟨[], [], [classTree typeOf c (c.methods.values ++ Stub.inheritedMethods m c)]⟩ :=
  read_stub (proper_classTree (hm.classes c hc) (stubbable_methods hm hc))
    (laidOut_classText (hm.classes c hc) (stubbable_methods hm hc))

theorem read_renderInterface {i : Interface} (hi : i.Stubbable typeOf) :
    CompilationUnit.read (Stub.renderInterface i) = .ok ⟨[], [], [interfaceTree typeOf i]⟩ :=
  read_stub (proper_interfaceTree hi) (laidOut_interface hi)

theorem read_renderEnum {e : Enum} (he : e.Stubbable) :
    CompilationUnit.read (Stub.renderEnum e) = .ok ⟨[], [], [enumTree e]⟩ :=
  read_stub (proper_enumTree he) (laidOut_enum he)

/-- Every stub reads. -/
theorem read_stubFiles (hm : m.Stubbable typeOf) :
    ∀ f ∈ Conversion.stubFiles (stubs m), ∃ u, CompilationUnit.read f.text = .ok u := by
  intro f hf
  obtain ⟨s, hs, rfl⟩ := List.mem_map.mp hf
  rcases List.mem_append.mp hs with hs | hs
  · rcases List.mem_append.mp hs with hs | hs
    · obtain ⟨c, hc, rfl⟩ := List.mem_map.mp hs
      exact ⟨_, read_renderClassIn hm hc⟩
    · obtain ⟨i, hi, rfl⟩ := List.mem_map.mp hs
      exact ⟨_, read_renderInterface (hm.interfaces i hi)⟩
  · obtain ⟨e, he, rfl⟩ := List.mem_map.mp hs
    exact ⟨_, read_renderEnum (hm.enums e he)⟩

/-- Stubs are read one after the other, each into what it adds to the model. -/
theorem foldl_readInto {α : Type} {stub : α → Stub} {add : Model → α → Model} {xs : List α}
    (h : ∀ x ∈ xs, ∀ m, Conversion.readInto m ⟨(stub x).fileName, (stub x).body⟩ = add m x)
    (m : Model) :
    (Conversion.stubFiles (xs.map stub)).foldl Conversion.readInto m = xs.foldl add m := by
  unfold Conversion.stubFiles
  rw [List.map_map, List.foldl_map]
  induction xs generalizing m with
  | nil => rfl
  | cons x xs ih =>
      rw [List.foldl_cons, List.foldl_cons]
      show List.foldl _ (Conversion.readInto m ⟨(stub x).fileName, (stub x).body⟩) xs = _
      rw [h x List.mem_cons_self]
      exact ih (fun y hy => h y (List.mem_cons_of_mem x hy)) _

/-- Classes with associations in front of them. -/
theorem foldl_classes (r : Class → Class) (as : Class → List Association) (cs : List Class)
    (m : Model) :
    cs.foldl (fun m c => ((as c).foldl Model.addAssociation m).addClass (r c)) m =
      { m with
        classes := (cs.map r).foldl (fun acc c => acc.insert c.name c) m.classes
        associations := m.associations ++ cs.flatMap as } := by
  induction cs generalizing m with
  | nil => simp
  | cons c cs ih =>
      rw [List.foldl_cons, ih, foldl_addAssociation]
      simp [Model.addClass]

/-- The types of the model of a library. -/
def libraryTypes (text : String) : TypeExpr :=
  if text = "ArrayList<Book>" then
    .reference [.applied "ArrayList" [.type (.reference [.plain "Book"] 0)]] 0
  else if text = "int" then .primitive "int" 0
  else .reference [.plain text] 0

/-- A class that holds many objects, an interface and an enum. -/
def libraryModel : Model where
  classes := .ofValues Class.name
    [{ name := "Shelf", superclass := some "Item", interfaces := ["Store"]
       attributes := .ofValues Attribute.name
        [{ name := "books", type := "ArrayList<Book>" }, { name := "size", type := "int" }] }]
  interfaces := .ofValues Interface.name
    [{ name := "Store"
       methods := .ofValues Method.name
        [{ name := "add", parameters := [{ name := "b", type := "Book" }], visibility := .prot }] }]
  enums := .ofValues Enum.name
    [{ name := "Genre", properties := .ofValues EnumProperty.name [{ name := "NOVEL", value := "1" }] }]

theorem stubbable_libraryModel : libraryModel.Stubbable libraryTypes := by
  have hbook : WritesType libraryTypes "Book" := by
    refine ⟨?_, rfl⟩
    show TypeExpr.Proper (.reference [.plain "Book"] 0)
    simp only [TypeExpr.Proper, properSegments, TypeSegment.Proper]
    decide
  have hint : WritesType libraryTypes "int" := by
    refine ⟨?_, rfl⟩
    show TypeExpr.Proper (.primitive "int" 0)
    simp only [TypeExpr.Proper]
    decide
  have hbooks : WritesType libraryTypes "ArrayList<Book>" := by
    refine ⟨?_, rfl⟩
    show TypeExpr.Proper
      (.reference [.applied "ArrayList" [.type (.reference [.plain "Book"] 0)]] 0)
    simp only [TypeExpr.Proper, properSegments, TypeSegment.Proper, properArguments,
      TypeArgument.Proper]
    decide
  refine ⟨fun c hc => ?_, fun i hi => ?_, fun e he => ?_⟩
  · obtain rfl := List.mem_singleton.mp hc
    refine ⟨by decide, ?_, by decide, fun a ha => ?_, fun m hm => nomatch hm⟩
    · rintro p ⟨⟩
      decide
    · rcases List.mem_cons.mp ha with rfl | ha
      · exact ⟨by decide, hbooks⟩
      · obtain rfl := List.mem_singleton.mp ha
        exact ⟨by decide, hint⟩
  · obtain rfl := List.mem_singleton.mp hi
    refine ⟨by decide, fun m hm => ?_⟩
    obtain rfl := List.mem_singleton.mp hm
    refine ⟨by decide, fun hvoid => absurd rfl hvoid, fun p hp => ?_⟩
    obtain rfl := List.mem_singleton.mp hp
    exact ⟨by decide, hbook⟩
  · obtain rfl := List.mem_singleton.mp he
    exact ⟨by decide, by decide⟩

example : (libraryModel.restored libraryTypes).associations =
    [{ left := "Shelf", right := "Book", separator := "-->", leftToRight := .many, label := "books" }] := by
  decide

end Stubs

end ClassModel
