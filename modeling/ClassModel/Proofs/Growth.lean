/-
Models that grow.

A reader, the folding of associations and the making of a schema all change a model by the
same few elementary steps: an entity is registered, an association is appended, or a type
gets one more member.  `Model.Grows` says that such steps lead from one model to another, and
whatever each of the steps keeps is kept by everything that is made of them.

Two things are kept.  Every entity and every member stands under its own name, so far as it
did before.  And the model only ever gets longer: the names of each kind stay where they are,
new ones follow behind them, and associations are appended.  That is `Model.Extends`.
-/
import ClassModel.Proofs.Construction

namespace ClassModel

/-! ### Maps -/

namespace OrderedMap

variable {α : Type}

/-- The keys of a map are the names of its values, and no two values share a name. -/
structure Indexed (name : α → String) (m : OrderedMap α) : Prop where
  keys : m.keys = m.values.map name
  nodup : (m.values.map name).Nodup

theorem Keyed.indexed {name : α → String} {m : OrderedMap α} (h : m.Keyed name) :
    m.Indexed name :=
  ⟨(map_values h).symm, nodup_values h⟩

/-- An insertion leaves the keys where they are. -/
theorem prefix_keys_insert (m : OrderedMap α) (k : String) (v : α) :
    m.keys <+: (m.insert k v).keys := by
  by_cases hk : k ∈ m.keys
  · have hsame : (m.insert k v).keys = m.keys := by rw [keys_insert, if_pos hk]
    exact hsame ▸ List.prefix_rfl
  · rw [keys_insert, if_neg hk]
    exact List.prefix_append _ _

end OrderedMap

/-! ### What is kept -/

/-- In every map of a model the keys are the names of the values, and no name occurs twice. -/
structure Model.Indexed (m : Model) : Prop where
  classes : m.classes.Indexed Class.name
  attributes : ∀ c ∈ m.classes.values, c.attributes.Indexed Attribute.name
  classMethods : ∀ c ∈ m.classes.values, c.methods.Indexed Method.name
  interfaces : m.interfaces.Indexed Interface.name
  interfaceMethods : ∀ i ∈ m.interfaces.values, i.methods.Indexed Method.name
  enums : m.enums.Indexed Enum.name
  properties : ∀ e ∈ m.enums.values, e.properties.Indexed EnumProperty.name

theorem Model.Keyed.indexed {m : Model} (h : m.Keyed) : m.Indexed where
  classes := h.classes.indexed
  attributes := fun c hc => (h.classMembers c hc).attributes.indexed
  classMethods := fun c hc => (h.classMembers c hc).methods.indexed
  interfaces := h.interfaces.indexed
  interfaceMethods := fun i hi => (h.methods i hi).indexed
  enums := h.enums.indexed
  properties := fun e he => (h.properties e he).indexed

/-- Names of each kind and associations stand where they stood, and others may follow. -/
structure Model.Extends (m m' : Model) : Prop where
  classes : m.classes.keys <+: m'.classes.keys
  interfaces : m.interfaces.keys <+: m'.interfaces.keys
  enums : m.enums.keys <+: m'.enums.keys
  associations : m.associations <+: m'.associations

namespace Model

variable {m m' m'' : Model}

theorem Extends.refl (m : Model) : m.Extends m :=
  ⟨List.prefix_rfl, List.prefix_rfl, List.prefix_rfl, List.prefix_rfl⟩

theorem Extends.trans (h : m.Extends m') (h' : m'.Extends m'') : m.Extends m'' :=
  ⟨h.classes.trans h'.classes, h.interfaces.trans h'.interfaces, h.enums.trans h'.enums,
    h.associations.trans h'.associations⟩

/-! ### Elementary steps -/

/-- Changing classes where they stand leaves their names in place. -/
theorem extends_modifyClass (m : Model) (owner : String) (f : Class → Class) :
    m.Extends { m with classes := m.classes.modify owner f } :=
  { Extends.refl m with classes := m.classes.keys_modify owner f ▸ List.prefix_rfl }

theorem extends_modifyInterface (m : Model) (owner : String) (f : Interface → Interface) :
    m.Extends { m with interfaces := m.interfaces.modify owner f } :=
  { Extends.refl m with interfaces := m.interfaces.keys_modify owner f ▸ List.prefix_rfl }

/-- Elementary steps lead from the first model to the second.  What is registered has its
members under their names. -/
inductive Grows (m : Model) : Model → Prop where
  | refl : Grows m m
  | addClass {m' : Model} {c : Class} (h : Grows m m') (hc : c.Keyed) : Grows m (m'.addClass c)
  | addInterface {m' : Model} {i : Interface} (h : Grows m m')
      (hi : i.methods.Keyed Method.name) : Grows m (m'.addInterface i)
  | addEnum {m' : Model} {e : Enum} (h : Grows m m') (he : e.properties.Keyed EnumProperty.name) :
      Grows m (m'.addEnum e)
  | addAssociation {m' : Model} (h : Grows m m') (a : Association) :
      Grows m (m'.addAssociation a)
  | addClassAttribute {m' : Model} (h : Grows m m') (owner : String) (a : Attribute) :
      Grows m (m'.addClassAttribute owner a)
  | addClassMethod {m' : Model} (h : Grows m m') (owner : String) (f : Method) :
      Grows m (m'.addClassMethod owner f)
  | addInterfaceMethod {m' : Model} (h : Grows m m') (owner : String) (f : Method) :
      Grows m (m'.addInterfaceMethod owner f)

namespace Grows

/-- **Steps keep everything under its name.** -/
theorem keyed (h : m.Grows m') (hm : m.Keyed) : m'.Keyed := by
  induction h with
  | refl => exact hm
  | addClass _ hc ih => exact ih.addClass hc
  | addInterface _ hi ih => exact ih.addInterface hi
  | addEnum _ he ih => exact ih.addEnum he
  | addAssociation _ a ih => exact ih.addAssociation a
  | addClassAttribute _ owner a ih => exact ih.addClassAttribute owner a
  | addClassMethod _ owner f ih => exact ih.addClassMethod owner f
  | addInterfaceMethod _ owner f ih => exact ih.addInterfaceMethod owner f

/-- **Steps only make a model longer.** -/
theorem toExtends (h : m.Grows m') : m.Extends m' := by
  induction h with
  | refl => exact Extends.refl m
  | @addClass m' c _ _ ih =>
      exact ih.trans
        { Extends.refl m' with classes := m'.classes.prefix_keys_insert c.name c }
  | @addInterface m' i _ _ ih =>
      exact ih.trans
        { Extends.refl m' with interfaces := m'.interfaces.prefix_keys_insert i.name i }
  | @addEnum m' e _ _ ih =>
      exact ih.trans { Extends.refl m' with enums := m'.enums.prefix_keys_insert e.name e }
  | @addAssociation m' _ a ih =>
      exact ih.trans { Extends.refl m' with associations := List.prefix_append _ [a] }
  | addClassAttribute _ owner a ih => exact ih.trans (extends_modifyClass _ owner _)
  | addClassMethod _ owner f ih => exact ih.trans (extends_modifyClass _ owner _)
  | addInterfaceMethod _ owner f ih => exact ih.trans (extends_modifyInterface _ owner _)

/-- A member that is added where it finds a place is a step. -/
theorem addAttribute? (h : m.Grows m') {owner : String} {a : Attribute}
    (hadd : m'.addAttribute? owner a = some m'') : m.Grows m'' := by
  rw [addAttribute?_eq_some hadd]
  exact h.addClassAttribute owner a

theorem addMethod? (h : m.Grows m') {owner : String} {f : Method}
    (hadd : m'.addMethod? owner f = some m'') : m.Grows m'' := by
  rcases addMethod?_eq_some hadd with rfl | rfl
  · exact h.addClassMethod owner f
  · exact h.addInterfaceMethod owner f

/-- What each element of a list does is made of steps, and so is what the list does. -/
theorem foldl {α : Type} {f : Model → α → Model} {l : List α} (h : m.Grows m')
    (hf : ∀ {n : Model} {a : α}, a ∈ l → m.Grows n → m.Grows (f n a)) :
    m.Grows (l.foldl f m') :=
  List.foldlRecOn l f h fun _ hn _ ha => hf ha hn

end Grows

end Model

end ClassModel
