/-
Models that are built by adding to them.

A map does not know what its keys have to do with its values.  In a model that was built by
the operations that add to it, every entity and every member stands under its own name, and
that is an invariant of the operations: each of them inserts under the name of what it
inserts, or changes members without changing names.

Under that invariant a map is determined by its values in order.  Inserting them one after
the other builds it again, which is what reading a written model comes down to.
-/
import ClassModel.Model

namespace ClassModel

namespace OrderedMap

variable {α : Type} {key : α → String} {m : OrderedMap α}

/-- Every value stands under its own key. -/
def Keyed (key : α → String) (m : OrderedMap α) : Prop :=
  ∀ e ∈ m.entries, e.1 = key e.2

instance (key : α → String) (m : OrderedMap α) : Decidable (m.Keyed key) :=
  inferInstanceAs (Decidable (∀ e ∈ m.entries, e.1 = key e.2))

theorem keyed_empty : (∅ : OrderedMap α).Keyed key := by
  intro e he
  cases he

theorem mem_place {k : String} {v : α} {l : List (String × α)} {e : String × α}
    (h : e ∈ place k v l) : e = (k, v) ∨ e ∈ l := by
  induction l with
  | nil => exact Or.inl (List.mem_singleton.mp h)
  | cons d r ih =>
      rw [place] at h
      split at h
      · rcases List.mem_cons.mp h with h | h
        · exact Or.inl h
        · exact Or.inr (List.mem_cons_of_mem _ h)
      · rcases List.mem_cons.mp h with h | h
        · exact Or.inr (h ▸ List.mem_cons_self)
        · exact (ih h).imp_right (List.mem_cons_of_mem _)

theorem mem_values_of_get? {k : String} {v : α} (h : m.get? k = some v) : v ∈ m.values := by
  obtain ⟨e, he, rfl⟩ := Option.map_eq_some_iff.mp h
  exact List.mem_map_of_mem (List.mem_of_find?_eq_some he)

theorem mem_values_insert {k : String} {v w : α} (h : w ∈ (m.insert k v).values) :
    w = v ∨ w ∈ m.values := by
  obtain ⟨e, he, rfl⟩ := List.mem_map.mp h
  rcases mem_place he with rfl | he
  · exact Or.inl rfl
  · exact Or.inr (List.mem_map_of_mem he)

theorem keyed_insert (h : m.Keyed key) {k : String} {v : α} (hk : k = key v) :
    (m.insert k v).Keyed key := by
  intro e he
  rcases mem_place he with rfl | he
  · exact hk
  · exact h e he

theorem mem_values_modify {k : String} {f : α → α} {w : α} (h : w ∈ (m.modify k f).values) :
    ∃ v ∈ m.values, w = v ∨ w = f v := by
  obtain ⟨e, he, rfl⟩ := List.mem_map.mp h
  obtain ⟨d, hd, rfl⟩ := List.mem_map.mp he
  refine ⟨d.2, List.mem_map_of_mem hd, ?_⟩
  split
  · exact Or.inr rfl
  · exact Or.inl rfl

theorem keyed_modify (h : m.Keyed key) {f : α → α} (hf : ∀ v, key (f v) = key v) (k : String) :
    (m.modify k f).Keyed key := by
  intro e he
  obtain ⟨d, hd, rfl⟩ := List.mem_map.mp he
  split
  · rw [hf]
    exact h d hd
  · exact h d hd

/-- The map with every value changed under its key. -/
def mapValues (f : α → α) (m : OrderedMap α) : OrderedMap α :=
  ⟨m.entries.map fun e => (e.1, f e.2), by
    rw [List.map_map]
    exact m.nodup⟩

theorem values_mapValues (f : α → α) (m : OrderedMap α) :
    (m.mapValues f).values = m.values.map f := by
  rw [values, mapValues, List.map_map, values, List.map_map]
  rfl

theorem keyed_mapValues (h : m.Keyed key) {f : α → α} (hf : ∀ v, key (f v) = key v) :
    (m.mapValues f).Keyed key := by
  intro e he
  obtain ⟨d, hd, rfl⟩ := List.mem_map.mp he
  rw [hf]
  exact h d hd

theorem mapValues_eq_self {f : α → α} (h : ∀ v ∈ m.values, f v = v) : m.mapValues f = m := by
  refine ext ?_
  have hentry : ∀ e ∈ m.entries, (e.1, f e.2) = id e := by
    intro e he
    rw [h e.2 (List.mem_map_of_mem he)]
    rfl
  exact (List.map_congr_left hentry).trans (List.map_id _)

theorem place_of_not_mem {k : String} {v : α} {l : List (String × α)}
    (h : k ∉ l.map Prod.fst) : place k v l = l ++ [(k, v)] := by
  induction l with
  | nil => rfl
  | cons e r ih =>
      rw [List.map_cons, List.mem_cons, not_or] at h
      rw [place, if_neg (Ne.symm h.1), ih h.2]
      rfl

/-- Inserting values under keys that are new and distinct puts them at the end. -/
theorem entries_foldl_insert {vs : List α} (m : OrderedMap α)
    (hnodup : (m.keys ++ vs.map key).Nodup) :
    (vs.foldl (fun acc v => acc.insert (key v) v) m).entries =
      m.entries ++ vs.map fun v => (key v, v) := by
  induction vs generalizing m with
  | nil => simp
  | cons v vs ih =>
      have hnew : key v ∉ m.keys := by
        intro h
        have := (List.nodup_append.mp hnodup).2.2 _ h (key v) (by simp)
        exact this rfl
      have hinsert : (m.insert (key v) v).entries = m.entries ++ [(key v, v)] :=
        place_of_not_mem hnew
      have hkeys : (m.insert (key v) v).keys = m.keys ++ [key v] := by
        rw [keys, hinsert, List.map_append, keys]
        rfl
      rw [List.foldl_cons, ih, hinsert]
      · simp
      · rw [hkeys]
        simpa using hnodup

/-- Values in order under their own keys; one that repeats a key takes the place of the
earlier one. -/
def ofValues (key : α → String) (vs : List α) : OrderedMap α :=
  vs.foldl (fun acc v => acc.insert (key v) v) ∅

theorem values_ofValues {vs : List α} (h : (vs.map key).Nodup) :
    (ofValues key vs).values = vs := by
  unfold ofValues values
  rw [entries_foldl_insert ∅ (by simpa [keys_empty] using h)]
  show ([] ++ vs.map fun v => (key v, v)).map Prod.snd = vs
  rw [List.nil_append, List.map_map]
  exact List.map_id vs

theorem map_values (h : m.Keyed key) : m.values.map key = m.keys := by
  rw [values, List.map_map]
  exact List.map_congr_left fun e he => (h e he).symm

theorem nodup_values (h : m.Keyed key) : (m.values.map key).Nodup := by
  rw [map_values h]
  exact m.nodup

/-- **The values of a map, inserted in order, build the map.** -/
theorem foldl_insert_values (h : m.Keyed key) :
    m.values.foldl (fun acc v => acc.insert (key v) v) ∅ = m := by
  have hentries : m.values.map (fun v => (key v, v)) = m.entries := by
    have hentry : ∀ e ∈ m.entries, ((fun v => (key v, v)) ∘ Prod.snd) e = id e := by
      intro e he
      rw [Function.comp_apply, ← h e he]
      rfl
    rw [values, List.map_map]
    exact (List.map_congr_left hentry).trans (List.map_id _)
  refine ext ?_
  rw [entries_foldl_insert, hentries]
  · rfl
  · rw [keys_empty, List.nil_append]
    exact nodup_values h

end OrderedMap

/-! ### Adding one after the other -/

section Folds

variable (c : Class) (i : Interface) (e : Enum) (m : Model)

theorem foldl_addAttribute (as : List Attribute) :
    as.foldl Class.addAttribute c =
      { c with attributes := as.foldl (fun acc a => acc.insert a.name a) c.attributes } :=
  List.foldl_hom (fun acc => ({ c with attributes := acc } : Class)) fun _ _ => rfl

theorem foldl_addMethod (ms : List Method) :
    ms.foldl Class.addMethod c =
      { c with methods := ms.foldl (fun acc m => acc.insert m.name m) c.methods } :=
  List.foldl_hom (fun acc => ({ c with methods := acc } : Class)) fun _ _ => rfl

theorem foldl_interfaceAddMethod (ms : List Method) :
    ms.foldl Interface.addMethod i =
      { i with methods := ms.foldl (fun acc m => acc.insert m.name m) i.methods } :=
  List.foldl_hom (fun acc => ({ i with methods := acc } : Interface)) fun _ _ => rfl

theorem foldl_addProperty (ps : List EnumProperty) :
    ps.foldl Enum.addProperty e =
      { e with properties := ps.foldl (fun acc p => acc.insert p.name p) e.properties } :=
  List.foldl_hom (fun acc => ({ e with properties := acc } : Enum)) fun _ _ => rfl

theorem foldl_addClass (cs : List Class) :
    cs.foldl Model.addClass m =
      { m with classes := cs.foldl (fun acc c => acc.insert c.name c) m.classes } :=
  List.foldl_hom (fun acc => ({ m with classes := acc } : Model)) fun _ _ => rfl

theorem foldl_addInterface (is : List Interface) :
    is.foldl Model.addInterface m =
      { m with interfaces := is.foldl (fun acc i => acc.insert i.name i) m.interfaces } :=
  List.foldl_hom (fun acc => ({ m with interfaces := acc } : Model)) fun _ _ => rfl

theorem foldl_addEnum (es : List Enum) :
    es.foldl Model.addEnum m =
      { m with enums := es.foldl (fun acc e => acc.insert e.name e) m.enums } :=
  List.foldl_hom (fun acc => ({ m with enums := acc } : Model)) fun _ _ => rfl

theorem foldl_addAssociation (as : List Association) :
    as.foldl Model.addAssociation m = { m with associations := m.associations ++ as } := by
  induction as generalizing m with
  | nil => simp
  | cons a as ih =>
      rw [List.foldl_cons, ih]
      simp [Model.addAssociation]

end Folds

/-! ### Every entity under its own name -/

/-- Attributes and methods stand under their names. -/
structure Class.Keyed (c : Class) : Prop where
  attributes : c.attributes.Keyed Attribute.name
  methods : c.methods.Keyed Method.name

/-- Entities and their members stand under their names. -/
structure Model.Keyed (m : Model) : Prop where
  classes : m.classes.Keyed Class.name
  classMembers : ∀ c ∈ m.classes.values, c.Keyed
  interfaces : m.interfaces.Keyed Interface.name
  methods : ∀ i ∈ m.interfaces.values, i.methods.Keyed Method.name
  enums : m.enums.Keyed Enum.name
  properties : ∀ e ∈ m.enums.values, e.properties.Keyed EnumProperty.name

theorem Class.Keyed.addAttribute {c : Class} (h : c.Keyed) (a : Attribute) :
    (c.addAttribute a).Keyed :=
  ⟨OrderedMap.keyed_insert h.attributes rfl, h.methods⟩

theorem Class.Keyed.addMethod {c : Class} (h : c.Keyed) (m : Method) : (c.addMethod m).Keyed :=
  ⟨h.attributes, OrderedMap.keyed_insert h.methods rfl⟩

/-! ### Building -/

/-- A class that was built by adding members to an empty one. -/
inductive Class.Built : Class → Prop where
  | new (name : String) (superclass : Option String) (interfaces : List String) (isAbstract : Bool)
      (visibility : Visibility) :
      Built { name, superclass, interfaces, isAbstract, visibility }
  | addAttribute {c : Class} (h : Built c) (a : Attribute) : Built (c.addAttribute a)
  | addMethod {c : Class} (h : Built c) (m : Method) : Built (c.addMethod m)

/-- An interface that was built by adding methods to an empty one. -/
inductive Interface.Built : Interface → Prop where
  | new (name : String) (visibility : Visibility) : Built { name, visibility }
  | addMethod {i : Interface} (h : Built i) (m : Method) : Built (i.addMethod m)

/-- An enum that was built by adding constants to an empty one. -/
inductive Enum.Built : Enum → Prop where
  | new (name : String) : Built { name }
  | addProperty {e : Enum} (h : Built e) (p : EnumProperty) : Built (e.addProperty p)

/-- A model that was built by adding to the empty one. -/
inductive Model.Built : Model → Prop where
  | empty : Built Model.empty
  | addClass {m : Model} {c : Class} (h : Built m) (hc : c.Built) : Built (m.addClass c)
  | addInterface {m : Model} {i : Interface} (h : Built m) (hi : i.Built) : Built (m.addInterface i)
  | addEnum {m : Model} {e : Enum} (h : Built m) (he : e.Built) : Built (m.addEnum e)
  | addAssociation {m : Model} (h : Built m) (a : Association) : Built (m.addAssociation a)
  | addAttribute {m m' : Model} {owner : String} {a : Attribute} (h : Built m)
      (hm : m.addAttribute? owner a = some m') : Built m'
  | addMethod {m m' : Model} {owner : String} {method : Method} (h : Built m)
      (hm : m.addMethod? owner method = some m') : Built m'

theorem Class.Built.keyed {c : Class} (h : c.Built) : c.Keyed := by
  induction h with
  | new => exact ⟨OrderedMap.keyed_empty, OrderedMap.keyed_empty⟩
  | addAttribute _ a ih => exact ih.addAttribute a
  | addMethod _ m ih => exact ih.addMethod m

theorem Interface.Built.keyed {i : Interface} (h : i.Built) : i.methods.Keyed Method.name := by
  induction h with
  | new => exact OrderedMap.keyed_empty
  | addMethod _ m ih => exact OrderedMap.keyed_insert ih rfl

theorem Enum.Built.keyed {e : Enum} (h : e.Built) : e.properties.Keyed EnumProperty.name := by
  induction h with
  | new => exact OrderedMap.keyed_empty
  | addProperty _ p ih => exact OrderedMap.keyed_insert ih rfl

namespace Model

variable {m m' : Model}

/-! ### Members of a type that is there -/

/-- Add an attribute to the class of a name, if there is one. -/
def addClassAttribute (m : Model) (owner : String) (a : Attribute) : Model :=
  { m with classes := m.classes.modify owner (·.addAttribute a) }

/-- Add a method to the class of a name, if there is one. -/
def addClassMethod (m : Model) (owner : String) (f : Method) : Model :=
  { m with classes := m.classes.modify owner (·.addMethod f) }

/-- Add a method to the interface of a name, if there is one. -/
def addInterfaceMethod (m : Model) (owner : String) (f : Method) : Model :=
  { m with interfaces := m.interfaces.modify owner (·.addMethod f) }

theorem addAttribute?_eq_some {owner : String} {a : Attribute}
    (h : m.addAttribute? owner a = some m') : m' = m.addClassAttribute owner a := by
  obtain ⟨-, h⟩ := Option.ite_none_right_eq_some.mp h
  exact (Option.some.inj h).symm

theorem addMethod?_eq_some {owner : String} {f : Method} (h : m.addMethod? owner f = some m') :
    m' = m.addClassMethod owner f ∨ m' = m.addInterfaceMethod owner f := by
  unfold addMethod? at h
  split at h
  · exact Or.inl (Option.some.inj h).symm
  · obtain ⟨-, h⟩ := Option.ite_none_right_eq_some.mp h
    exact Or.inr (Option.some.inj h).symm

/-! ### Keeping names -/

theorem Keyed.addClass (h : m.Keyed) {c : Class} (hc : c.Keyed) : (m.addClass c).Keyed := by
  refine { h with classes := OrderedMap.keyed_insert h.classes rfl, classMembers := ?_ }
  intro d hd
  rcases OrderedMap.mem_values_insert hd with rfl | hd
  · exact hc
  · exact h.classMembers d hd

theorem Keyed.addInterface (h : m.Keyed) {i : Interface} (hi : i.methods.Keyed Method.name) :
    (m.addInterface i).Keyed := by
  refine { h with interfaces := OrderedMap.keyed_insert h.interfaces rfl, methods := ?_ }
  intro d hd
  rcases OrderedMap.mem_values_insert hd with rfl | hd
  · exact hi
  · exact h.methods d hd

theorem Keyed.addEnum (h : m.Keyed) {e : Enum} (he : e.properties.Keyed EnumProperty.name) :
    (m.addEnum e).Keyed := by
  refine { h with enums := OrderedMap.keyed_insert h.enums rfl, properties := ?_ }
  intro d hd
  rcases OrderedMap.mem_values_insert hd with rfl | hd
  · exact he
  · exact h.properties d hd

theorem Keyed.addAssociation (h : m.Keyed) (a : Association) : (m.addAssociation a).Keyed :=
  { h with }

/-- A class may be changed so long as it keeps its name and its members theirs. -/
theorem Keyed.modifyClass (h : m.Keyed) (owner : String) {f : Class → Class}
    (hname : ∀ c, (f c).name = c.name) (hf : ∀ c, c.Keyed → (f c).Keyed) :
    ({ m with classes := m.classes.modify owner f } : Model).Keyed := by
  refine { h with classes := OrderedMap.keyed_modify h.classes hname owner, classMembers := ?_ }
  intro d hd
  obtain ⟨c, hc, rfl | rfl⟩ := OrderedMap.mem_values_modify hd
  · exact h.classMembers _ hc
  · exact hf c (h.classMembers c hc)

theorem Keyed.addClassAttribute (h : m.Keyed) (owner : String) (a : Attribute) :
    (m.addClassAttribute owner a).Keyed :=
  h.modifyClass owner (fun c => c.name_addAttribute a) fun _ hc => hc.addAttribute a

theorem Keyed.addClassMethod (h : m.Keyed) (owner : String) (f : Method) :
    (m.addClassMethod owner f).Keyed :=
  h.modifyClass owner (fun c => c.name_addMethod f) fun _ hc => hc.addMethod f

theorem Keyed.addInterfaceMethod (h : m.Keyed) (owner : String) (f : Method) :
    (m.addInterfaceMethod owner f).Keyed := by
  refine { h with
    interfaces := OrderedMap.keyed_modify h.interfaces (fun i => i.name_addMethod f) owner
    methods := ?_ }
  intro d hd
  obtain ⟨i, hi, rfl | rfl⟩ := OrderedMap.mem_values_modify hd
  · exact h.methods _ hi
  · exact OrderedMap.keyed_insert (h.methods i hi) rfl

theorem Keyed.addAttribute (h : m.Keyed) {owner : String} {a : Attribute}
    (hm : m.addAttribute? owner a = some m') : m'.Keyed := by
  rw [addAttribute?_eq_some hm]
  exact h.addClassAttribute owner a

theorem Keyed.addMethod (h : m.Keyed) {owner : String} {method : Method}
    (hm : m.addMethod? owner method = some m') : m'.Keyed := by
  rcases addMethod?_eq_some hm with rfl | rfl
  · exact h.addClassMethod owner method
  · exact h.addInterfaceMethod owner method

theorem keyed_empty : Model.empty.Keyed :=
  ⟨OrderedMap.keyed_empty, fun _ h => absurd h List.not_mem_nil, OrderedMap.keyed_empty,
    fun _ h => absurd h List.not_mem_nil, OrderedMap.keyed_empty,
    fun _ h => absurd h List.not_mem_nil⟩

/-- **In a model that was built, everything stands under its own name.** -/
theorem Built.keyed (h : m.Built) : m.Keyed := by
  induction h with
  | empty => exact keyed_empty
  | addClass _ hc ih => exact ih.addClass hc.keyed
  | addInterface _ hi ih => exact ih.addInterface hi.keyed
  | addEnum _ he ih => exact ih.addEnum he.keyed
  | addAssociation _ a ih => exact ih.addAssociation a
  | addAttribute _ hm ih => exact ih.addAttribute hm
  | addMethod _ hm ih => exact ih.addMethod hm

end Model

end ClassModel
