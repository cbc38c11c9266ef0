/-
What is read of a written diagram.

Reading a written diagram gives the model back, up to two things that the written form does
not keep.  Every association comes back as a composition, and a method that returns a type
named `abstract` without being abstract comes back abstract and without a type;
`Model.redrawn` is the model with both.

The proof follows the reader.  The lines of an entity are folded into the entity, the blocks
of a diagram into its maps, and the statements into its associations, and each fold inserts
values under their own names, in order, which builds the map they came from.
-/
import ClassModel.Conversion
import ClassModel.Proofs.Construction
import ClassModel.Proofs.Diagram.Outlines

namespace ClassModel

open LineParser

/-! ### What the written form keeps -/

/-- The method that is read of the line of a method. -/
def Method.redrawn (m : Method) : Method :=
  if m.Misread then { m with returnType := "void", isAbstract := true } else m

/-- The class that is read of a written class. -/
def Class.redrawn (c : Class) : Class :=
  { c with methods := c.methods.mapValues Method.redrawn }

/-- The interface that is read of a written interface. -/
def Interface.redrawn (i : Interface) : Interface :=
  { i with methods := i.methods.mapValues Method.redrawn }

/-- The association that is read of a written association. -/
def Association.composed (a : Association) : Association :=
  { a with separator := "*-->" }

/-- The model with compositions for associations. -/
def Model.composed (m : Model) : Model :=
  { m with associations := m.associations.map Association.composed }

/-- The model that is read of a written model. -/
def Model.redrawn (m : Model) : Model where
  classes := m.classes.mapValues Class.redrawn
  interfaces := m.interfaces.mapValues Interface.redrawn
  enums := m.enums
  associations := m.associations.map Association.composed

@[simp]
theorem Method.name_redrawn (m : Method) : m.redrawn.name = m.name := by
  rw [redrawn]
  split <;> rfl

@[simp]
theorem Class.name_redrawn (c : Class) : c.redrawn.name = c.name := rfl

@[simp]
theorem Interface.name_redrawn (i : Interface) : i.redrawn.name = i.name := rfl

theorem Method.redrawn_of_not_misread {m : Method} (h : ¬m.Misread) : m.redrawn = m :=
  if_neg h

theorem Class.redrawn_of_not_misread {c : Class} (h : ∀ m ∈ c.methods.values, ¬m.Misread) :
    c.redrawn = c := by
  rw [redrawn, OrderedMap.mapValues_eq_self fun m hm => Method.redrawn_of_not_misread (h m hm)]

theorem Interface.redrawn_of_not_misread {i : Interface} (h : ∀ m ∈ i.methods.values, ¬m.Misread) :
    i.redrawn = i := by
  rw [redrawn, OrderedMap.mapValues_eq_self fun m hm => Method.redrawn_of_not_misread (h m hm)]

/-- Without a method of that kind, only the separators change. -/
theorem Model.redrawn_of_not_misread {m : Model}
    (hc : ∀ c ∈ m.classes.values, ∀ f ∈ c.methods.values, ¬f.Misread)
    (hi : ∀ i ∈ m.interfaces.values, ∀ f ∈ i.methods.values, ¬f.Misread) :
    m.redrawn = m.composed := by
  rw [redrawn, composed,
    OrderedMap.mapValues_eq_self fun c h => Class.redrawn_of_not_misread (hc c h),
    OrderedMap.mapValues_eq_self fun i h => Interface.redrawn_of_not_misread (hi i h)]

/-! ### Folds of a reader -/

/-- A fold does not see the elements that change nothing. -/
theorem foldl_filter {α β : Type} {p : α → Bool} {f : β → α → β}
    (h : ∀ a, p a = false → ∀ b, f b a = b) (l : List α) (b : β) :
    (l.filter p).foldl f b = l.foldl f b := by
  induction l generalizing b with
  | nil => rfl
  | cons a l ih =>
      by_cases ha : p a = true
      · rw [List.filter_cons_of_pos ha, List.foldl_cons, List.foldl_cons, ih]
      · rw [List.filter_cons_of_neg ha, List.foldl_cons, h a (by simpa using ha), ih]

/-! ### Members -/

theorem memberLine?_nil : memberLine? [] = none := by
  decide +kernel

theorem methodLine?_nil : methodLine? [] = none := by
  decide +kernel

/-- A blank line of a class body changes nothing. -/
theorem value_classReadLine_nil (c : Class) : (c.readLine { text := [] }).value = c := by
  rw [Class.readLine, memberLine?_nil]
  rfl

theorem value_interfaceReadLine_nil (i : Interface) : (i.readLine { text := [] }).value = i := by
  rw [Interface.readLine, methodLine?_nil]
  rfl

/-- The line of an attribute adds the attribute. -/
theorem value_readLine_lineOfAttribute (c : Class) {a : Attribute} (ha : a.Drawable) :
    (c.readLine (lineOfAttribute a)).value = c.addAttribute a := by
  have hread := memberLine?_attributeText ha.name ha.type
  rw [attributeText_eq] at hread
  rw [Class.readLine, lineOfAttribute, hread]
  rfl

/-- The method that the line of a method describes. -/
theorem method_asRead (m : Method) :
    m.asRead.method { isStatic := m.isStatic } = m.redrawn := by
  rw [Method.redrawn, Method.asRead, MethodLine.method]
  by_cases h : m.Misread
  · simp [h]
  · simp [h]

/-- The line of a method adds the method, as it is read. -/
theorem value_readLine_lineOfMethod (c : Class) {m : Method} (hm : m.Writable) :
    (c.readLine (lineOfMethod m)).value = c.addMethod m.redrawn := by
  have hread := memberLine?_methodText hm
  rw [methodText_eq] at hread
  rw [Class.readLine, lineOfMethod, hread, ← method_asRead]
  rfl

theorem value_interfaceReadLine_lineOfMethod (i : Interface) {m : Method} (hm : m.Writable) :
    (i.readLine (lineOfMethod m)).value = i.addMethod m.redrawn := by
  have hread := methodLine?_methodText hm
  rw [methodText_eq] at hread
  rw [Interface.readLine, lineOfMethod, hread, ← method_asRead]
  rfl

/-! ### Entities -/

section Classes

theorem foldl_readLine_attributes (c : Class) {as : List Attribute} (ha : ∀ a ∈ as, a.Drawable) :
    (as.map lineOfAttribute).foldl (fun c l => (c.readLine l).value) c =
      as.foldl Class.addAttribute c := by
  induction as generalizing c with
  | nil => rfl
  | cons a as ih =>
      rw [List.map_cons, List.foldl_cons, List.foldl_cons,
        value_readLine_lineOfAttribute c (ha a (by simp)), ih _ fun b hb => ha b (by simp [hb])]

theorem foldl_readLine_methods (c : Class) {ms : List Method} (hm : ∀ m ∈ ms, m.Drawable) :
    (ms.map lineOfMethod).foldl (fun c l => (c.readLine l).value) c =
      (ms.map Method.redrawn).foldl Class.addMethod c := by
  induction ms generalizing c with
  | nil => rfl
  | cons m ms ih =>
      rw [List.map_cons, List.map_cons, List.foldl_cons, List.foldl_cons,
        value_readLine_lineOfMethod c (hm m (by simp)).toWritable,
        ih _ fun n hn => hm n (by simp [hn])]

theorem foldl_readLine_linesOfMembers (c : Class) {as : List Attribute} {ms : List Method}
    (ha : ∀ a ∈ as, a.Drawable) (hm : ∀ m ∈ ms, m.Drawable) :
    (linesOfMembers as ms).foldl (fun c l => (c.readLine l).value) c =
      (ms.map Method.redrawn).foldl Class.addMethod (as.foldl Class.addAttribute c) := by
  have hgap : ∀ c : Class, (if as = [] ∨ ms = [] then [] else [({ text := [] } : Line)]).foldl
      (fun c l => (c.readLine l).value) c = c := by
    intro c
    split
    · rfl
    · exact value_classReadLine_nil c
  rw [linesOfMembers, List.foldl_append, List.foldl_append, foldl_readLine_attributes c ha, hgap,
    foldl_readLine_methods _ hm]

theorem foldl_readLine_bodyOf (c : Class) (ls : List Line) :
    (bodyOf ls).foldl (fun c l => (c.readLine l).value) c =
      ls.foldl (fun c l => (c.readLine l).value) c := by
  rw [bodyOf, List.foldl_cons, List.foldl_append, value_classReadLine_nil, List.foldl_cons,
    value_classReadLine_nil, List.foldl_nil]

/-- The members of a class, added to the class without them, make up the class. -/
theorem foldl_members {c : Class} (hc : c.Keyed) (hv : c.visibility = .pub) :
    (c.methods.values.map Method.redrawn).foldl Class.addMethod
      (c.attributes.values.foldl Class.addAttribute
        { name := c.name, superclass := c.superclass, interfaces := c.interfaces,
          isAbstract := c.isAbstract }) = c.redrawn := by
  have hmethods := OrderedMap.foldl_insert_values
    (OrderedMap.keyed_mapValues hc.methods Method.name_redrawn)
  rw [OrderedMap.values_mapValues] at hmethods
  rw [foldl_addAttribute, OrderedMap.foldl_insert_values hc.attributes, foldl_addMethod]
  show ({ c with methods := _, visibility := .pub } : Class) = _
  rw [hmethods, ← hv]
  rfl

/-- The declaration of a class adds the class. -/
theorem value_readBlock_blockOfClass (m : Model) {c : Class} (hc : c.Drawable) (hk : c.Keyed) :
    (m.readBlock (blockOfClass c)).value = m.addClass c.redrawn := by
  have hfold : ((blockOfClass c).body.foldlM Class.readLine
      ({ name := c.name, superclass := c.superclass, interfaces := c.interfaces,
         isAbstract := c.isAbstract || false } : Class)).value = c.redrawn := by
    have hbody : (blockOfClass c).body = if c.hasMembers then
        bodyOf (linesOfMembers c.attributes.values c.methods.values) else [] := rfl
    rw [Traced.value_foldlM, Bool.or_false, ← foldl_members hk hc.visibility, hbody]
    by_cases h : c.hasMembers = true
    · rw [if_pos h, foldl_readLine_bodyOf, foldl_readLine_linesOfMembers _ hc.attributes hc.methods]
    · have hnil : c.attributes.values = [] ∧ c.methods.values = [] := by
        rw [values_eq_nil_iff, values_eq_nil_iff]
        simpa [Class.hasMembers] using h
      rw [if_neg h, hnil.1, hnil.2]
      rfl
  rw [Model.readBlock]
  show m.addClass _ = _
  exact congrArg m.addClass hfold

end Classes

section Interfaces

theorem foldl_interfaceReadLine_methods (i : Interface) {ms : List Method}
    (hm : ∀ m ∈ ms, m.Drawable) :
    (linesOfMethods ms).foldl (fun i l => (i.readLine l).value) i =
      (ms.map Method.redrawn).foldl Interface.addMethod i := by
  have hlines : ∀ (i : Interface) (ms : List Method), (∀ m ∈ ms, m.Drawable) →
      (ms.map lineOfMethod).foldl (fun i l => (i.readLine l).value) i =
        (ms.map Method.redrawn).foldl Interface.addMethod i := by
    intro i ms hm
    induction ms generalizing i with
    | nil => rfl
    | cons m ms ih =>
        rw [List.map_cons, List.map_cons, List.foldl_cons, List.foldl_cons,
          value_interfaceReadLine_lineOfMethod i (hm m (by simp)).toWritable,
          ih _ fun n hn => hm n (by simp [hn])]
  rw [linesOfMethods]
  split
  · rename_i hnil
    rw [hnil]
    exact value_interfaceReadLine_nil i
  · exact hlines i ms hm

/-- The declaration of an interface adds the interface. -/
theorem value_readBlock_blockOfInterface (m : Model) {i : Interface} (hi : i.Drawable)
    (hk : i.methods.Keyed Method.name) :
    (m.readBlock (blockOfInterface i)).value = m.addInterface i.redrawn := by
  have hmethods := OrderedMap.foldl_insert_values
    (OrderedMap.keyed_mapValues hk Method.name_redrawn)
  rw [OrderedMap.values_mapValues] at hmethods
  have hfold : ((blockOfInterface i).body.foldlM Interface.readLine
      ({ name := i.name } : Interface)).value = i.redrawn := by
    rw [Traced.value_foldlM, blockOfInterface, bodyOf, List.foldl_cons, List.foldl_append,
      value_interfaceReadLine_nil, List.foldl_cons, value_interfaceReadLine_nil, List.foldl_nil,
      foldl_interfaceReadLine_methods _ hi.methods, foldl_interfaceAddMethod]
    show ({ i with methods := _, visibility := .pub } : Interface) = _
    rw [hmethods, ← hi.visibility]
    rfl
  rw [Model.readBlock]
  show m.addInterface _ = _
  exact congrArg m.addInterface hfold

end Interfaces

section Enums

theorem constantLine?_nil : constantLine? [] = none := by
  decide +kernel

/-- A blank line of an enum body names no constant. -/
theorem enumReadLine_nil (e : Enum) : e.readLine { text := [] } = e := by
  rw [Enum.readLine, constantLine?_nil]

theorem enumReadLine_constantText (e : Enum) {p : EnumProperty} (hp : p.Drawable) :
    e.readLine { text := constantText p } = e.addProperty p := by
  rw [Enum.readLine, constantLine?_constantText hp]
  show e.addProperty { name := p.name, value := _ } = _
  rw [getD_of_left_out]

theorem foldl_enumReadLine (e : Enum) {ps : List EnumProperty} (hp : ∀ p ∈ ps, p.Drawable) :
    (ps.map fun p => ({ text := constantText p } : Line)).foldl Enum.readLine e =
      ps.foldl Enum.addProperty e := by
  induction ps generalizing e with
  | nil => rfl
  | cons p ps ih =>
      rw [List.map_cons, List.foldl_cons, List.foldl_cons,
        enumReadLine_constantText e (hp p (by simp)), ih _ fun q hq => hp q (by simp [hq])]

/-- The declaration of an enum adds the enum. -/
theorem value_readBlock_blockOfEnum (m : Model) {e : Enum} (he : e.Drawable)
    (hk : e.properties.Keyed EnumProperty.name) :
    (m.readBlock (blockOfEnum e)).value = m.addEnum e := by
  have hproperties : e.properties.values.foldl Enum.addProperty ({ name := e.name } : Enum) = e := by
    rw [foldl_addProperty]
    show ({ name := e.name, properties := _ } : Enum) = e
    rw [OrderedMap.foldl_insert_values hk]
  have hfold : (blockOfEnum e).body.foldl Enum.readLine ({ name := e.name } : Enum) = e := by
    have hbody : (blockOfEnum e).body = if e.properties.isEmpty then [] else
        bodyOf (e.properties.values.map fun p => { text := constantText p }) := rfl
    rw [hbody]
    by_cases h : e.properties.isEmpty = true
    · rw [if_pos h]
      rw [values_eq_nil_iff.mpr h] at hproperties
      exact hproperties
    · rw [if_neg h, bodyOf, List.foldl_cons, List.foldl_append, enumReadLine_nil, List.foldl_cons,
        enumReadLine_nil, List.foldl_nil, foldl_enumReadLine _ he.properties, hproperties]
  rw [Model.readBlock]
  show m.addEnum _ = _
  exact congrArg m.addEnum hfold

end Enums

/-! ### Diagrams -/

/-- Folding declarations that each add an entity. -/
theorem foldl_readBlock_map {α : Type} (f : α → Block) (add : Model → α → Model) {xs : List α}
    (h : ∀ x ∈ xs, ∀ m : Model, (m.readBlock (f x)).value = add m x) (m : Model) :
    (xs.map f).foldl (fun m b => (m.readBlock b).value) m = xs.foldl add m := by
  induction xs generalizing m with
  | nil => rfl
  | cons x xs ih =>
      rw [List.map_cons, List.foldl_cons, List.foldl_cons, h x (by simp),
        ih fun y hy => h y (by simp [hy])]

/-- The declarations of a diagram, read in order. -/
theorem foldl_diagramBlocks {m : Model} (hm : m.Drawable) (hk : m.Keyed) :
    (diagramBlocks m).foldl (fun m b => (m.readBlock b).value) Model.empty =
      { m.redrawn with associations := [] } := by
  have hclasses := foldl_readBlock_map blockOfClass (fun m c => m.addClass c.redrawn)
    fun c hc m' => value_readBlock_blockOfClass m' (hm.classes c hc) (hk.classMembers c hc)
  have hinterfaces := foldl_readBlock_map blockOfInterface (fun m i => m.addInterface i.redrawn)
    fun i hi m' => value_readBlock_blockOfInterface m' (hm.interfaces i hi) (hk.methods i hi)
  have henums := foldl_readBlock_map blockOfEnum Model.addEnum
    fun e he m' => value_readBlock_blockOfEnum m' (hm.enums e he) (hk.properties e he)
  have hc : ∀ m' : Model, m.classes.values.foldl (fun m c => m.addClass c.redrawn) m' =
      { m' with classes :=
          m.redrawn.classes.values.foldl (fun acc c => acc.insert c.name c) m'.classes } := by
    intro m'
    rw [← foldl_addClass, Model.redrawn, OrderedMap.values_mapValues, List.foldl_map]
  have hi : ∀ m' : Model, m.interfaces.values.foldl (fun m i => m.addInterface i.redrawn) m' =
      { m' with interfaces :=
          m.redrawn.interfaces.values.foldl (fun acc i => acc.insert i.name i) m'.interfaces } := by
    intro m'
    rw [← foldl_addInterface, Model.redrawn, OrderedMap.values_mapValues, List.foldl_map]
  have hkeyedClasses : m.redrawn.classes.Keyed Class.name :=
    OrderedMap.keyed_mapValues hk.classes Class.name_redrawn
  have hkeyedInterfaces : m.redrawn.interfaces.Keyed Interface.name :=
    OrderedMap.keyed_mapValues hk.interfaces Interface.name_redrawn
  rw [diagramBlocks, List.foldl_append, List.foldl_append, hclasses, hinterfaces, henums, hc, hi,
    foldl_addEnum]
  show ({ classes := m.redrawn.classes.values.foldl (fun acc c => acc.insert c.name c) ∅
          interfaces := m.redrawn.interfaces.values.foldl (fun acc i => acc.insert i.name i) ∅
          enums := m.enums.values.foldl (fun acc e => acc.insert e.name e) ∅
          associations := [] } : Model) = _
  rw [OrderedMap.foldl_insert_values hkeyedClasses, OrderedMap.foldl_insert_values hkeyedInterfaces,
    OrderedMap.foldl_insert_values hk.enums]
  rfl

/-- An association is read of the relation it is written as. -/
theorem association_relation (a : Association) : a.relation.association = a.composed := by
  rw [Association.relation, Relation.association, Association.composed]
  simp only [ofLiteral_quotedLiteral, getD_of_left_out]

/-- What an outline is read into follows from its declarations and its statements. -/
theorem value_readOutline (m : Model) (o : Outline) :
    (m.readOutline o).value =
      o.statements.foldl (fun m s => (m.readPlain s).value)
        (o.statements.foldl Model.readComposition
          (o.statements.foldl (fun m s => (m.readInline s).value)
            (o.blocks.foldl (fun m b => (m.readBlock b).value) m))) := by
  have hinline : ∀ s : Standalone, s.speaks = false → ∀ m : Model, (m.readInline s).value = m := by
    intro s hs m
    cases s <;> first | rfl | cases hs
  have hcomposition : ∀ s : Standalone, s.speaks = false →
      ∀ m : Model, m.readComposition s = m := by
    intro s hs m
    cases s <;> first | rfl | cases hs
  have hplain : ∀ s : Standalone, s.speaks = false → ∀ m : Model, (m.readPlain s).value = m := by
    intro s hs m
    cases s <;> first | rfl | cases hs
  rw [Outline.statements, foldl_filter hplain, foldl_filter hcomposition, foldl_filter hinline]
  simp only [Model.readOutline, Traced.value_bind, Traced.value_foldlM, Traced.value_pure]

/-- The associations of a diagram, read in order. -/
theorem foldl_readComposition (m : Model) (as : List Association) :
    (as.map fun a => Standalone.composition a.relation).foldl Model.readComposition m =
      { m with associations := m.associations ++ as.map Association.composed } := by
  induction as generalizing m with
  | nil => simp
  | cons a as ih =>
      rw [List.map_cons, List.foldl_cons, ih, Model.readComposition, association_relation,
        Model.addAssociation]
      simp

/-- **What is read of a written model.** -/
theorem value_read_render {m : Model} (hm : m.Drawable) (hk : m.Keyed) (hkept : m.Kept) :
    (Diagram.read (Diagram.render m)).value = m.redrawn := by
  obtain ⟨hblocks, hstatements⟩ := (draws_diagramLines hm hkept).ofLines
  have hinline : ∀ (as : List Association) (m : Model),
      (as.map fun a => Standalone.composition a.relation).foldl
        (fun m s => (m.readInline s).value) m = m := by
    intro as m
    induction as with
    | nil => rfl
    | cons a as ih => exact ih
  have hplain : ∀ (as : List Association) (m : Model),
      (as.map fun a => Standalone.composition a.relation).foldl
        (fun m s => (m.readPlain s).value) m = m := by
    intro as m
    induction as with
    | nil => rfl
    | cons a as ih => exact ih
  rw [Diagram.read, Model.readDiagram, Traced.value_within, Traced.value_bind,
    value_stripModifiers_render (not_mem_diagramLines hm),
    value_readOutline, hblocks, hstatements, diagramStatements, hinline, hplain,
    foldl_readComposition, foldl_diagramBlocks hm hk]
  rfl

/-! ### Plain models -/

/-- A suffix without anything that means something to a diagram elsewhere. -/
def TypeSuffix.Plain : TypeSuffix → Prop
  | arguments inner => inner ≠ [] ∧ (∀ c ∈ inner, c ∉ "<>\x7b\x7d()\n".toList) ∧
      matchedSquares 0 inner = true
  | array size => ∀ c ∈ size, isWordChar c = true

instance (x : TypeSuffix) : Decidable x.Plain := by
  cases x
  · exact inferInstanceAs (Decidable (_ ∧ _ ∧ _))
  · exact inferInstanceAs (Decidable (∀ _ ∈ _, _))

/-- A plain type: a word with plain suffixes. -/
abbrev IsPlainType (type : String) : Prop :=
  IsType TypeSuffix.Plain type.toList

/-- An attribute with a word for its name and a plain type. -/
structure Attribute.Plain (a : Attribute) : Prop where
  name : IsWord a.name.toList
  type : IsPlainType a.type

/-- A method of words and plain types that does not return the word `abstract`. -/
structure Method.Plain (m : Method) : Prop where
  name : IsWord m.name.toList
  returnType : IsPlainType m.returnType
  notAbstract : m.returnType ≠ "abstract"
  parameterName : ∀ p ∈ m.parameters, IsWord p.name.toList
  parameterType : ∀ p ∈ m.parameters, IsPlainType p.type

/-- A public class of words and plain members. -/
structure Class.Plain (c : Class) : Prop extends c.Headed where
  attributes : ∀ a ∈ c.attributes.values, a.Plain
  methods : ∀ m ∈ c.methods.values, m.Plain
  visibility : c.visibility = .pub

/-- A public interface of words and plain methods. -/
structure Interface.Plain (i : Interface) : Prop where
  name : IsWord i.name.toList
  methods : ∀ m ∈ i.methods.values, m.Plain
  visibility : i.visibility = .pub

/-- A model of words, plain types, and labels without spaces at either end. -/
structure Model.Plain (m : Model) : Prop where
  classes : ∀ c ∈ m.classes.values, c.Plain
  interfaces : ∀ i ∈ m.interfaces.values, i.Plain
  enums : ∀ e ∈ m.enums.values, e.Drawable
  associations : ∀ a ∈ m.associations, a.Drawable

namespace TypeSuffix

variable {x : TypeSuffix}

theorem Plain.nested (h : x.Plain) : x.Nested := by
  cases x with
  | arguments inner =>
      obtain ⟨hne, hall, hsquares⟩ := h
      refine ⟨hne, fun c hc => ?_, hsquares⟩
      have hnot := hall c hc
      constructor
      · rintro rfl
        exact hnot (by decide)
      · rintro rfl
        exact hnot (by decide)
  | array size => exact h

/-- The characters of a plain suffix. -/
theorem Plain.chars (h : x.Plain) : ∀ c ∈ x.text, c ∉ "\x7b\x7d()\n".toList := by
  intro c hc
  cases x with
  | arguments inner =>
      obtain ⟨-, hall, -⟩ := h
      rw [text, List.cons_append, List.mem_cons, List.mem_append, List.mem_singleton] at hc
      rcases hc with rfl | hc | rfl
      · decide
      · exact fun hmem => hall c hc (List.mem_cons_of_mem _ (List.mem_cons_of_mem _ hmem))
      · decide
  | array size =>
      rw [text, List.cons_append, List.mem_cons, List.mem_append, List.mem_singleton] at hc
      rcases hc with rfl | hc | rfl
      · decide
      · intro hmem
        have hw := h c hc
        simp only [String.reduceToList, List.mem_cons, List.not_mem_nil, or_false] at hmem
        rcases hmem with rfl | rfl | rfl | rfl | rfl <;> exact absurd hw (by decide)
      · decide

end TypeSuffix

section Types

variable {type : String}

theorem IsPlainType.nested (h : IsPlainType type) : IsNestedType type :=
  h.mono fun _ => TypeSuffix.Plain.nested

theorem IsPlainType.readable (h : IsPlainType type) : IsType TypeSuffix.Readable type.toList :=
  h.nested.readable

/-- The characters of a plain type. -/
theorem IsPlainType.chars (h : IsPlainType type) :
    ∀ c ∈ type.toList, c ∉ "\x7b\x7d()\n".toList := by
  obtain ⟨head, xs, hhead, hxs, he⟩ := h
  intro c hc
  rw [he, List.mem_append, List.mem_flatMap] at hc
  rcases hc with hc | ⟨x, hx, hc⟩
  · exact (TypeSuffix.Plain.chars (x := .array head) hhead.chars) c (by simp [TypeSuffix.text, hc])
  · exact (hxs x hx).chars c hc

theorem IsPlainType.unmarked (h : IsPlainType type) : Unmarked type.toList :=
  unmarked_of_not_mem fun hc => h.chars _ hc (by decide)

theorem IsPlainType.braces (h : IsPlainType type) : braces type.toList = [] := by
  refine braces_of_forall fun c hc => ?_
  have hnot := h.chars c hc
  rw [← Bool.not_eq_true, isBrace, Bool.or_eq_true, beq_iff_eq, beq_iff_eq]
  rintro (rfl | rfl)
  · exact hnot (by decide)
  · exact hnot (by decide)

end Types

theorem Attribute.Plain.drawable {a : Attribute} (h : a.Plain) : a.Drawable :=
  ⟨h.name, h.type.readable, fun hc => h.type.chars _ hc (by decide)⟩

theorem Method.Plain.typesText {m : Method} (h : m.Plain) :
    ∀ c ∈ m.typesText, c ∉ "\x7b\x7d()\n".toList := by
  intro c hc
  rw [Method.typesText, List.mem_append, List.mem_flatMap] at hc
  rcases hc with hc | ⟨p, hp, hc⟩
  · exact h.returnType.chars c hc
  · exact (h.parameterType p hp).chars c hc

theorem Method.Plain.drawable {m : Method} (h : m.Plain) : m.Drawable where
  name := h.name
  returnType := h.returnType.readable
  listed := listed_of_forall fun p hp => (h.parameterType p hp).nested.depthThrough
  parameterName := h.parameterName
  parameterType := fun p hp => (h.parameterType p hp).readable
  noParenthesis := by
    intro p hp c hc
    have hnot := (h.parameterType p hp).chars c hc
    constructor
    · rintro rfl
      exact hnot (by decide)
    · rintro rfl
      exact hnot (by decide)
  oneLine := fun hc => h.typesText _ hc (by decide)

theorem Method.Plain.typesUnmarked {m : Method} (h : m.Plain) : m.TypesUnmarked :=
  ⟨h.returnType.unmarked, fun p hp => (h.parameterType p hp).unmarked⟩

theorem kept_of_plain {as : List Attribute} {ms : List Method} (ha : ∀ a ∈ as, a.Plain)
    (hm : ∀ m ∈ ms, m.Plain) : Kept as ms := by
  have hbraces : braces (typesText as ms) = [] := by
    refine braces_of_forall fun c hc => ?_
    have hnot : c ∉ "\x7b\x7d()\n".toList := by
      rw [typesText, List.mem_append, List.mem_flatMap, List.mem_flatMap] at hc
      rcases hc with ⟨a, h, hc⟩ | ⟨m, h, hc⟩
      · exact (ha a h).type.chars c hc
      · exact (hm m h).typesText c hc
    rw [← Bool.not_eq_true, isBrace, Bool.or_eq_true, beq_iff_eq, beq_iff_eq]
    rintro (rfl | rfl)
    · exact hnot (by decide)
    · exact hnot (by decide)
  refine ⟨fun a h => (ha a h).type.unmarked, fun m h => (hm m h).typesUnmarked, ?_⟩
  rw [← openDepth_braces, hbraces, openDepth_nil]

theorem Model.Plain.drawable {m : Model} (h : m.Plain) : m.Drawable where
  classes := fun c hc =>
    { (h.classes c hc).toHeaded with
      attributes := fun a ha => ((h.classes c hc).attributes a ha).drawable
      methods := fun f hf => ((h.classes c hc).methods f hf).drawable
      visibility := (h.classes c hc).visibility }
  interfaces := fun i hi =>
    { name := (h.interfaces i hi).name
      methods := fun f hf => ((h.interfaces i hi).methods f hf).drawable
      visibility := (h.interfaces i hi).visibility }
  enums := h.enums
  associations := h.associations

theorem Model.Plain.kept {m : Model} (h : m.Plain) : m.Kept where
  classes := fun c hc => kept_of_plain (h.classes c hc).attributes (h.classes c hc).methods
  interfaces := fun i hi => kept_of_plain (by simp) (h.interfaces i hi).methods

/-- **A plain model that was built comes back from its diagram**, with compositions for its
associations and all else as it was, in the same order. -/
theorem value_read_render_of_plain {m : Model} (hbuilt : m.Built) (hplain : m.Plain) :
    (Diagram.read (Diagram.render m)).value = m.composed := by
  rw [value_read_render hplain.drawable hbuilt.keyed hplain.kept]
  exact Model.redrawn_of_not_misread
    (fun c hc f hf h => ((hplain.classes c hc).methods f hf).notAbstract h.2)
    fun i hi f hf h => ((hplain.interfaces i hi).methods f hf).notAbstract h.2

/-- A shelf of books: static and abstract members, nested and repeated suffixes, a clause of
each kind, a labelled association. -/
def shelfModel : Model :=
  (((Model.empty.addClass
    ((({ name := "Shelf", superclass := some "Furniture", interfaces := ["Storage", "Labelled"],
         isAbstract := true } : Class).addAttribute
      { name := "books", type := "Map<String[], Book>", isStatic := true }).addMethod
      { name := "find", returnType := "Book[2][]", visibility := .prot, isAbstract := true
        parameters := [⟨"title", "String"⟩, ⟨"by", "Pair<int, Set[s]>"⟩] })).addInterface
    (({ name := "Storage" } : Interface).addMethod { name := "clear" })).addEnum
    ((({ name := "Color" } : Enum).addProperty { name := "RED", value := "1" }).addProperty
      { name := "GREEN" })).addAssociation
    { left := "Shelf", right := "Book", separator := "o--", leftToRight := .many
      label := "holds \t some" }

theorem value_read_render_shelfModel :
    shelfModel.Built ∧ shelfModel.Plain ∧
      (Diagram.read (Diagram.render shelfModel)).value = shelfModel.composed := by
  have hbuilt : shelfModel.Built :=
    .addAssociation (.addEnum (.addInterface (.addClass .empty
      (.addMethod (.addAttribute (.new ..) _) _)) (.addMethod (.new ..) _))
      (.addProperty (.addProperty (.new _) _) _)) _
  have hword : ∀ s : String, IsWord s.toList → IsPlainType s := fun _ h => IsType.of_isWord h
  have hbooks : IsPlainType "Map<String[], Book>" :=
    ⟨"Map".toList, [.arguments "String[], Book".toList], by decide, by decide, rfl⟩
  have hresult : IsPlainType "Book[2][]" :=
    ⟨"Book".toList, [.array "2".toList, .array []], by decide, by decide, rfl⟩
  have hby : IsPlainType "Pair<int, Set[s]>" :=
    ⟨"Pair".toList, [.arguments "int, Set[s]".toList], by decide, by decide, rfl⟩
  have hplain : shelfModel.Plain := by
    refine ⟨?_, ?_, ?_, ?_⟩
    · intro c hc
      rcases List.mem_singleton.mp hc with rfl
      refine ⟨⟨by decide, by decide, by decide⟩, ?_, ?_, rfl⟩
      · intro a ha
        rcases List.mem_singleton.mp ha with rfl
        exact ⟨by decide, hbooks⟩
      · intro f hf
        rcases List.mem_singleton.mp hf with rfl
        refine ⟨by decide, hresult, by decide, by decide, ?_⟩
        intro p hp
        rcases (List.mem_cons.mp hp).imp_right List.mem_singleton.mp with rfl | rfl
        · exact hword _ (by decide)
        · exact hby
    · intro i hi
      rcases List.mem_singleton.mp hi with rfl
      refine ⟨by decide, ?_, rfl⟩
      intro f hf
      rcases List.mem_singleton.mp hf with rfl
      exact ⟨by decide, hword _ (by decide), by decide, by decide, by simp⟩
    · intro e he
      rcases List.mem_singleton.mp he with rfl
      refine ⟨by decide, ?_⟩
      intro p hp
      rcases (List.mem_cons.mp hp).imp_right List.mem_singleton.mp with rfl | rfl
      · exact ⟨by decide, by decide⟩
      · exact ⟨by decide, by decide⟩
    · intro a ha
      rcases List.mem_singleton.mp ha with rfl
      exact ⟨by decide, by decide, by decide⟩
  exact ⟨hbuilt, hplain, value_read_render_of_plain hbuilt hplain⟩

end ClassModel
