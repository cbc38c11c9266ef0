/-
Fields for associations.

Folding goes through the associations one by one, and each writes one field of its owner.  So
a class takes in the fields of the associations it owns, in their order, and nothing else in
the model changes.  Taking them in twice is taking them in once.

A field is known by its owner and its name, and the name is the label of the association.
Labels need not differ: two associations of one owner may share a label, or none may be
written, and a label may be the name of a declared attribute.  Then the later one stands.
That is the only way to lose anything.
-/
import ClassModel.Proofs.Overwriting
import ClassModel.Schema.Folding

namespace ClassModel

/-! ### What a class takes in -/

/-- The class with fields for associations. -/
def Class.takeIn (c : Class) (as : List Association) : Class :=
  as.foldl (fun c a => c.addAttribute a.asAttribute) c

theorem Class.takeIn_eq (c : Class) (as : List Association) :
    c.takeIn as =
      { c with
        attributes := (as.map Association.asAttribute).foldl
          (fun acc a => acc.insert a.name a) c.attributes } := by
  rw [← foldl_addAttribute, List.foldl_map]
  rfl

theorem Class.Keyed.takeIn {c : Class} (h : c.Keyed) (as : List Association) :
    (c.takeIn as).attributes.Keyed Attribute.name := by
  rw [Class.takeIn_eq]
  exact OrderedMap.keyed_foldl_insert h.attributes _

theorem Class.takeIn_takeIn (c : Class) (as : List Association) :
    (c.takeIn as).takeIn as = c.takeIn as := by
  rw [takeIn_eq (c.takeIn as), takeIn_eq c, OrderedMap.foldl_insert_foldl_insert]

/-- Under a name stands the field of the last association with that label, or else the
declared attribute. -/
theorem Class.get?_attributes_takeIn (c : Class) (as : List Association) (name : String) :
    (c.takeIn as).attributes.get? name =
      ((as.findRev? fun a => a.label = name).map Association.asAttribute).or
        (c.attributes.get? name) := by
  rw [takeIn_eq]
  show OrderedMap.get? _ name = _
  rw [OrderedMap.get?_foldl_insert, OrderedMap.findRev?_map]
  rfl

/-! ### What becomes of the model -/

namespace Model

variable (m : Model)

/-- The associations that a class of the given name owns. -/
def owned (name : String) : List Association :=
  m.associations.filter fun a => a.owner = name

/-- The model with its associations folded into fields. -/
def folded : Model :=
  m.foldAssociations.value

theorem value_foldAssociation (a : Association) :
    (m.foldAssociation a).value =
      { m with classes := m.classes.modify a.owner (·.addAttribute a.asAttribute) } := by
  unfold foldAssociation addAttribute?
  cases h : m.class? a.owner with
  | some c => rfl
  | none =>
      rw [OrderedMap.modify_of_get?_eq_none h]
      rfl

/-- Folding changes the classes alone. -/
theorem folded_eq :
    m.folded =
      { m with
        classes := m.associations.foldl
          (fun cs a => cs.modify a.owner (·.addAttribute a.asAttribute)) m.classes } := by
  unfold folded foldAssociations
  rw [Traced.value_foldlM]
  simp only [value_foldAssociation]
  exact List.foldl_hom (fun cs => ({ m with classes := cs } : Model)) fun _ _ => rfl

@[simp]
theorem interfaces_folded : m.folded.interfaces = m.interfaces := by
  rw [folded_eq]

@[simp]
theorem enums_folded : m.folded.enums = m.enums := by
  rw [folded_eq]

@[simp]
theorem associations_folded : m.folded.associations = m.associations := by
  rw [folded_eq]

@[simp]
theorem keys_classes_folded : m.folded.classes.keys = m.classes.keys := by
  rw [folded_eq]
  exact OrderedMap.keys_foldl_modify _ _ _ _

/-- **Folding lets each class take in the associations it owns.** -/
theorem class?_folded (name : String) :
    m.folded.class? name = (m.class? name).map fun c => c.takeIn (m.owned name) := by
  rw [folded_eq]
  exact OrderedMap.get?_foldl_modify Association.owner
    (fun a (c : Class) => c.addAttribute a.asAttribute) _ _ _

end Model

/-! ### Fields and where they stand -/

/-- Where a field stands: the name of its class and its own name. -/
@[ext]
structure Place where
  owner : String
  name : String
  deriving DecidableEq

/-- Where the field for an association stands. -/
def Association.place (a : Association) : Place :=
  ⟨a.owner, a.label⟩

/-- The attribute at a place. -/
def Model.field? (m : Model) (p : Place) : Option Attribute :=
  (m.class? p.owner).bind fun c => c.attributes.get? p.name

theorem Model.isSome_class?_of_field? {m : Model} {p : Place} {f : Attribute}
    (hf : m.field? p = some f) : (m.class? p.owner).isSome := by
  obtain ⟨c, hc, -⟩ := Option.bind_eq_some_iff.mp hf
  rw [hc]
  rfl

/-- At a place stands the field of the last association that is folded there, or else the
declared attribute. -/
theorem Model.field?_folded {m : Model} {p : Place} (hp : (m.class? p.owner).isSome) :
    m.folded.field? p =
      ((m.associations.findRev? fun a => a.place = p).map Association.asAttribute).or
        (m.field? p) := by
  obtain ⟨c, hc⟩ := Option.isSome_iff_exists.mp hp
  have hplace : (fun a : Association => decide (a.place = p)) =
      fun a => decide (a.owner = p.owner) && decide (a.label = p.name) := by
    funext a
    simp only [Association.place, Place.ext_iff, Bool.decide_and]
  rw [field?, field?, class?_folded, hc]
  show (c.takeIn _).attributes.get? _ = _
  rw [Class.get?_attributes_takeIn, owned]
  simp only [List.findRev?_eq_find?_reverse, ← List.filter_reverse, List.find?_filter, hplace,
    Bool.decide_and, Bool.decide_eq_true]
  rfl

/-- An association with a declared owner has a field, its own or that of a later one in its
place. -/
theorem Model.exists_field?_folded {m : Model} (i : Fin m.associations.length)
    (hdeclared : (m.class? m.associations[i].owner).isSome) :
    ∃ j, i ≤ j ∧ m.associations[j].place = m.associations[i].place ∧
      m.folded.field? m.associations[i].place = some m.associations[j].asAttribute := by
  obtain ⟨j, hij, hplace, hfind⟩ := OrderedMap.exists_getElem_findRev?
    (p := fun b : Association => decide (b.place = m.associations[i].place)) i (decide_eq_true rfl)
  have hplaced : (m.class? m.associations[i].place.owner).isSome := hdeclared
  refine ⟨j, hij, of_decide_eq_true hplace, ?_⟩
  rw [field?_folded hplaced, hfind]
  rfl

/-- A declared attribute stays what it is, or an association is folded in its place. -/
theorem Model.field?_folded_of_field? {m : Model} {p : Place} {f : Attribute}
    (hf : m.field? p = some f) :
    m.folded.field? p = some f ∨
      ∃ a ∈ m.associations, a.place = p ∧ m.folded.field? p = some a.asAttribute := by
  rw [field?_folded (isSome_class?_of_field? hf), hf]
  cases hfind : m.associations.findRev? fun a => a.place = p with
  | none => exact Or.inl rfl
  | some a =>
      obtain ⟨ha, hplace⟩ := OrderedMap.of_findRev? hfind
      exact Or.inr ⟨a, ha, of_decide_eq_true hplace, rfl⟩

/-! ### What folding keeps -/

/-- Every association with a declared owner has a field of its own there, of the type at its
other end, and every declared attribute keeps its type. -/
def Model.FoldsApart (m : Model) : Prop :=
  (∃ place : Fin m.associations.length → Place,
    (∀ i j, (m.class? m.associations[i].owner).isSome →
      (m.class? m.associations[j].owner).isSome → place i = place j → i = j) ∧
    ∀ i, (m.class? m.associations[i].owner).isSome →
      (place i).owner = m.associations[i].owner ∧
        (m.folded.field? (place i)).map Attribute.type = some m.associations[i].target) ∧
  ∀ p f, m.field? p = some f → (m.folded.field? p).map Attribute.type = some f.type

/-- **Folding loses nothing but by a clash of names.**  Associations have one field only if they
share their owner and their label.  The field is the one of the association, or of a later one
that shares both with it.  A declared attribute stays what it is, or an association of its name
is folded into its class. -/
theorem Model.exists_places_folded (m : Model) :
    ∃ place : Fin m.associations.length → Place,
      (∀ i j, place i = place j →
        m.associations[i].owner = m.associations[j].owner ∧
          m.associations[i].label = m.associations[j].label) ∧
      (∀ i, (m.class? m.associations[i].owner).isSome →
        (place i).owner = m.associations[i].owner ∧
          ∃ j, i ≤ j ∧ m.associations[j].owner = m.associations[i].owner ∧
            m.associations[j].label = m.associations[i].label ∧
            (m.folded.field? (place i)).map Attribute.type = some m.associations[j].target) ∧
      ∀ p f, m.field? p = some f →
        m.folded.field? p = some f ∨
          ∃ a ∈ m.associations, a.owner = p.owner ∧ a.label = p.name ∧
            m.folded.field? p = some a.asAttribute := by
  refine ⟨fun i => m.associations[i].place, fun i j h => Place.mk.inj h, ?_, ?_⟩
  · intro i hdeclared
    obtain ⟨j, hij, hplace, hfield⟩ := exists_field?_folded i hdeclared
    obtain ⟨howner, hlabel⟩ := Place.mk.inj hplace
    refine ⟨rfl, j, hij, howner, hlabel, ?_⟩
    rw [hfield]
    rfl
  · intro p f hf
    refine (field?_folded_of_field? hf).imp_right ?_
    rintro ⟨a, ha, rfl, hfield⟩
    exact ⟨a, ha, rfl, rfl, hfield⟩

/-- A library with two associations without a label. -/
def forkModel : Model :=
  Model.empty
    |>.addClass { name := "Library" }
    |>.addClass { name := "Book" }
    |>.addClass { name := "Author" }
    |>.addAssociation { left := "Library", right := "Book" }
    |>.addAssociation { left := "Library", right := "Author" }

theorem keyed_forkModel : forkModel.Keyed :=
  Model.Built.keyed (.addAssociation (.addAssociation (.addClass (.addClass (.addClass .empty
    (.new ..)) (.new ..)) (.new ..)) _) _)

theorem not_foldsApart_forkModel : forkModel.Keyed ∧ ¬forkModel.FoldsApart := by
  refine ⟨keyed_forkModel, ?_⟩
  rintro ⟨⟨place, -, h⟩, -⟩
  obtain ⟨howner, htype⟩ := h ⟨0, by decide⟩ (by decide)
  obtain ⟨f, hf, hbook⟩ := Option.map_eq_some_iff.mp htype
  obtain ⟨c, hc, hget⟩ := Option.bind_eq_some_iff.mp hf
  have htypes : ∀ c ∈ forkModel.folded.class? "Library",
      ∀ f ∈ c.attributes.values, f.type ≠ "Book" := by
    decide
  rw [howner] at hc
  exact htypes c hc f (OrderedMap.mem_values_of_get? hget) hbook

end ClassModel
