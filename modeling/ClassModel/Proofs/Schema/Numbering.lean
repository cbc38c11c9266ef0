/-
Field numbers.

The fields of a message are numbered in the order of the attributes, so a number is a place in
a list, and whoever reads data that was written with an older schema relies on the place.
Folding associations adds attributes to classes and writes over some, under any labels: labels
that repeat, that are empty or that are names of declared attributes.

No declared attribute moves.  The map of attributes keeps the places of its keys, and what
comes under a new key goes behind all of them.  So a number is lost by no association, and all
that an association of the same name can change is the type.
-/
import ClassModel.Format
import ClassModel.Proofs.Schema.Written

namespace ClassModel

open Schema

/-! ### Places and numbers -/

/-- The field at a place has the number of the place, counted from one. -/
theorem Schema.getElem?_fields_messageOf (c : Class) (i : Nat) :
    (messageOf c).fields[i]? = c.attributes.values[i]?.map fun a => fieldOf a (i + 1) := by
  show (c.attributes.values.zipIdx.map _)[i]? = _
  rw [List.getElem?_map, List.getElem?_zipIdx, Option.map_map, Nat.zero_add]
  rfl

/-- A class is written with its attributes as fields, whatever was written before. -/
theorem Schema.Writing.value_message (c : Class) (s : Session) :
    ((message c).run s).value.1 = messageOf c := by
  rw [writes_message c s]

/-- The line of a field with its number. -/
def Schema.numberedLine (a : Attribute) (number : Nat) : String :=
  "\t" ++ typeName a.type ++ " " ++ a.name ++ " = " ++ toString number ++ ";\n"

/-- The text of a class in a schema has a line for each attribute, numbered from one. -/
theorem Class.value_write_schema (c : Class) (whole : Option Model) (s : Session) :
    ((c.write whole .schema).run s).value.1 =
      "message " ++ c.name ++ " \x7b\n" ++
        String.join (c.attributes.values.zipIdx.map fun (a, n) => numberedLine a (n + 1)) ++
        "\x7d" := by
  unfold Class.write
  rw [StateT.run_map, Traced.value_map]
  dsimp only
  rw [Writing.value_message]
  unfold messageOf Message.render
  rw [List.map_map]
  rfl

/-! ### Attributes that are written over -/

/-- The type that the last association with a label has at its other end. -/
def lastTarget? (as : List Association) (label : String) : Option String :=
  (as.findRev? fun a => a.label = label).map Association.target

namespace Attribute

/-- The field of the last association with the name of the attribute, or else the attribute. -/
def writtenOver (a : Attribute) (as : List Association) : Attribute :=
  ((as.findRev? fun x => x.label = a.name).map Association.asAttribute).getD a

theorem name_writtenOver (a : Attribute) (as : List Association) :
    (a.writtenOver as).name = a.name := by
  unfold writtenOver
  cases hlast : as.findRev? fun x => x.label = a.name with
  | none => rfl
  | some x => exact of_decide_eq_true (OrderedMap.of_findRev? hlast).2

theorem type_writtenOver (a : Attribute) (as : List Association) :
    (a.writtenOver as).type = (lastTarget? as a.name).getD a.type := by
  unfold writtenOver lastTarget?
  cases as.findRev? fun x => x.label = a.name <;> rfl

end Attribute

namespace Class

variable (c : Class) (as : List Association)

/-- Taking in associations changes the attributes alone. -/
theorem takeIn_frame : c.takeIn as = { c with attributes := (c.takeIn as).attributes } := by
  rw [takeIn_eq]

/-- Declared attributes come first, and new ones follow in the order of the first association
with their name. -/
theorem keys_attributes_takeIn :
    (c.takeIn as).attributes.keys =
      c.attributes.keys ++
        ((as.map Association.label).filter (· ∉ c.attributes.keys)).eraseDups := by
  rw [takeIn_eq]
  show OrderedMap.keys (List.foldl _ _ _) = _
  rw [OrderedMap.keys_foldl_insert, List.map_map]
  rfl

variable {c}

/-- At the place of a declared attribute stands what it is written over with. -/
theorem getElem?_attributes_takeIn (h : c.Keyed) {i : Nat} {a : Attribute}
    (ha : c.attributes.values[i]? = some a) :
    (c.takeIn as).attributes.values[i]? = some (a.writtenOver as) := by
  rw [takeIn_eq]
  show (OrderedMap.values (List.foldl _ _ _))[i]? = _
  rw [OrderedMap.getElem?_values_foldl_insert h.attributes _ ha, OrderedMap.findRev?_map]
  rfl

/-- A new attribute has the type of the last association with its name. -/
theorem lastTarget?_of_mem_takeIn (h : c.Keyed) {b : Attribute}
    (hb : b ∈ (c.takeIn as).attributes.values) (hnew : b.name ∉ c.attributes.keys) :
    lastTarget? as b.name = some b.type := by
  have hget := OrderedMap.get?_of_mem_values (h.takeIn as) hb
  have hnone : c.attributes.get? b.name = none := by
    rw [← Option.not_isSome_iff_eq_none]
    exact fun hsome => hnew (OrderedMap.isSome_get?_iff.mp hsome)
  rw [get?_attributes_takeIn, hnone, Option.or_none] at hget
  obtain ⟨a, ha, rfl⟩ := Option.map_eq_some_iff.mp hget
  rw [lastTarget?, ha]
  rfl

end Class

/-! ### Numbers that stay -/

/-- A class comes out of the folding of the associations that it owns with its numbers kept. -/
structure Class.KeepsNumbers (c d : Class) (as : List Association) : Prop where
  /-- Every declared attribute is where it was, its type is that of the last association of its
  name or else the declared one, and it is written with the number of its place. -/
  declared : ∀ (i : Nat) (a : Attribute), c.attributes.values[i]? = some a →
    ∃ b : Attribute, d.attributes.values[i]? = some b ∧ b.name = a.name ∧
      b.type = (lastTarget? as a.name).getD a.type ∧
      ∀ s, ((Writing.message d).run s).value.1.fields[i]? =
        some { type := typeName b.type, name := a.name, number := i + 1 }
  /-- New names come behind all declared ones, in the order of their first association. -/
  names : d.attributes.values.map Attribute.name =
    c.attributes.values.map Attribute.name ++
      ((as.map Association.label).filter (· ∉ c.attributes.values.map Attribute.name)).eraseDups
  /-- A new attribute has the type of the last association of its name. -/
  added : ∀ b ∈ d.attributes.values, b.name ∉ c.attributes.values.map Attribute.name →
    lastTarget? as b.name = some b.type
  /-- The text of the class has a line for each attribute, with its place as the number. -/
  written : ∀ (whole : Option Model) (s : Session),
    ((d.write whole .schema).run s).value.1 =
      "message " ++ d.name ++ " \x7b\n" ++
        String.join (d.attributes.values.zipIdx.map fun (b, n) => numberedLine b (n + 1)) ++
        "\x7d"
  /-- Nothing but attributes changes; methods are what they were. -/
  frame : d = { c with attributes := d.attributes }
  /-- A class without associations is what it was. -/
  unowned : as = [] → d = c

theorem Class.keepsNumbers_takeIn {c : Class} (h : c.Keyed) (as : List Association) :
    c.KeepsNumbers (c.takeIn as) as := by
  have hkeys := OrderedMap.map_values h.attributes
  refine ⟨?_, ?_, ?_, (c.takeIn as).value_write_schema, c.takeIn_frame as, ?_⟩
  · intro i a ha
    have hplace := getElem?_attributes_takeIn as h ha
    refine ⟨_, hplace, a.name_writtenOver as, a.type_writtenOver as, fun s => ?_⟩
    rw [Writing.value_message, getElem?_fields_messageOf, hplace, ← a.name_writtenOver as]
    rfl
  · rw [OrderedMap.map_values (h.takeIn as), hkeys]
    exact c.keys_attributes_takeIn as
  · rw [hkeys]
    exact fun b hb hnew => lastTarget?_of_mem_takeIn as h hb hnew
  · rintro rfl
    rfl

/-- **Folding associations renumbers no field.**  Whatever associations a model has, each class
keeps the places of its attributes and with them the numbers of their fields.  New fields come
behind them.  The methods of classes and interfaces stay, and so does a class that owns no
association. -/
theorem Model.Keyed.keepsNumbers_folded {m : Model} (h : m.Keyed) :
    m.folded.interfaces = m.interfaces ∧
      ∀ name c, m.class? name = some c →
        ∃ d, m.folded.class? name = some d ∧ c.KeepsNumbers d (m.owned name) := by
  refine ⟨m.interfaces_folded, fun name c hc => ?_⟩
  have hkeyed := h.classMembers c (OrderedMap.mem_values_of_get? hc)
  refine ⟨c.takeIn (m.owned name), ?_, c.keepsNumbers_takeIn hkeyed _⟩
  rw [class?_folded, hc]
  rfl

/-- A ship with two attributes.  An association with its diamond on the right takes the name of
the second one, and the sails are given twice. -/
def mastModel : Model :=
  Model.empty
    |>.addClass (Class.addAttribute (Class.addAttribute { name := "Ship" }
      { name := "hull", type := "int" }) { name := "mast", type := "int" })
    |>.addAssociation { left := "Ship", right := "Sail", label := "sails" }
    |>.addAssociation { left := "Mast", right := "Ship", separator := "<--*", label := "mast" }
    |>.addAssociation { left := "Port", right := "Ship", label := "berth" }
    |>.addAssociation { left := "Ship", right := "Canvas", label := "sails" }

theorem keyed_mastModel : mastModel.Keyed :=
  Model.Built.keyed (.addAssociation (.addAssociation (.addAssociation (.addAssociation
    (.addClass .empty (.addAttribute (.addAttribute (.new ..) _) _)) _) _) _) _)

theorem Model.Keyed.keepsNumbers_folded_mastModel :
    mastModel.Keyed ∧ mastModel.folded.interfaces = mastModel.interfaces ∧
      ∃ c d, mastModel.class? "Ship" = some c ∧ mastModel.folded.class? "Ship" = some d ∧
        d.attributes.values.map Attribute.name = ["hull", "mast", "sails"] ∧
        (∀ s, ((Writing.message d).run s).value.1.fields[1]? =
          some { type := "Mast", name := "mast", number := 2 }) ∧
        ∀ s, ((d.write (some mastModel) .schema).run s).value.1 =
          "message Ship \x7b\n\tint32 hull = 1;\n\tMast mast = 2;\n\tCanvas sails = 3;\n\x7d" := by
  obtain ⟨hinterfaces, hclasses⟩ := keyed_mastModel.keepsNumbers_folded
  let ship : Class := Class.addAttribute (Class.addAttribute { name := "Ship" }
    { name := "hull", type := "int" }) { name := "mast", type := "int" }
  have hship : mastModel.class? "Ship" = some ship := by decide
  obtain ⟨d, hd, hkeeps⟩ := hclasses "Ship" ship hship
  refine ⟨keyed_mastModel, hinterfaces, ship, d, hship, hd, ?_, ?_, ?_⟩
  · rw [hkeeps.names]
    decide
  · have hmast : ship.attributes.values[1]? = some { name := "mast", type := "int" } := by decide
    obtain ⟨b, -, -, htype, hfield⟩ := hkeeps.declared 1 _ hmast
    have hlast : (lastTarget? (mastModel.owned "Ship") "mast").getD "int" = "Mast" := by decide
    intro s
    rw [hfield s, htype, hlast]
    decide
  · have hfolded : mastModel.folded.class? "Ship" = some (ship.takeIn (mastModel.owned "Ship")) := by
      rw [class?_folded, hship]
      rfl
    obtain rfl := Option.some.inj (hd.symm.trans hfolded)
    intro s
    rw [hkeeps.written (some mastModel) s]
    decide

end ClassModel
