/-
The lines of a schema.

A message is a line with its name, one line for each field and a closing brace, and an enum is
written likewise.  The lines can be found again in the text, because no part of them holds a
line feed.

The fields of a message come from three places: from attributes, from parameters and from
associations.  Attributes and parameters were read as a type and a word.  An association gives
its label, and nothing is done to it.  A diagram need not write one, and if it does the label
may hold spaces, so the name of the field is empty or no word.  In the same way the number of a
constant is the word behind it in the diagram, whatever that is, and empty if there is none.
-/
import ClassModel.Conversion
import ClassModel.Proofs.Diagram.ReadModels
import ClassModel.Proofs.Schema.Repeating
import ClassModel.Proofs.Schema.Resolution
import ClassModel.Proofs.Schema.Undefined
import ClassModel.Text.Number

namespace ClassModel

/-! ### What a line should be -/

/-- The text of a decimal integer: digits, perhaps behind a minus sign. -/
def isInteger (s : List Char) : Bool :=
  match s with
  | '-' :: r => isDigits r
  | _ => isDigits s

namespace Schema

/-- A message whose fields have words for names and positive numbers, and none of them twice. -/
structure Message.WellFormed (m : Message) : Prop where
  words : ∀ f ∈ m.fields, IsWord f.name.toList
  positive : ∀ f ∈ m.fields, 0 < f.number
  names : (m.fields.map MessageField.name).Nodup
  numbers : (m.fields.map MessageField.number).Nodup

/-- An enum whose constants have words for names and integers for numbers. -/
structure EnumType.WellFormed (e : EnumType) : Prop where
  words : ∀ c ∈ e.constants, IsWord c.name.toList
  integers : ∀ c ∈ e.constants, isInteger c.value.toList = true

/-- A schema of well formed messages and enums. -/
structure Document.WellFormed (d : Document) : Prop where
  messages : ∀ m ∈ d.allMessages, m.WellFormed
  enums : ∀ e ∈ d.enums, e.WellFormed

/-! ### Lines and texts -/

/-- The line of a field without its line feed. -/
def MessageField.line (f : MessageField) : List Char :=
  '\t' :: (f.type.toList ++ ' ' :: (f.name.toList ++
    (" = ".toList ++ ((toString f.number).toList ++ [';']))))

/-- The line of a constant without its line feed. -/
def Constant.line (c : Constant) : List Char :=
  '\t' :: (c.name.toList ++ (" = ".toList ++ (c.value.toList ++ [';'])))

/-- The lines of a message. -/
def Message.lines (m : Message) : List (List Char) :=
  bracedLines ("message " ++ m.name).toList (m.fields.map MessageField.line)

/-- The lines of an enum. -/
def EnumType.lines (e : EnumType) : List (List Char) :=
  bracedLines ("enum " ++ e.name).toList (e.constants.map Constant.line)

theorem joinLines_append_singleton (ls : List (List Char)) (last : List Char) :
    joinLines (ls ++ [last]) = ls.flatMap (· ++ ['\n']) ++ last := by
  induction ls with
  | nil => simp [joinLines]
  | cons l ls ih =>
      rw [List.cons_append, joinLines_cons (by simp), ih, List.flatMap_cons]
      simp

/-- A header with members that each end their line, and a closing brace. -/
theorem joinLines_bracedLines_eq (header : List Char) (members : List (List Char)) :
    joinLines (bracedLines header members) =
      header ++ (' ' :: '\x7b' :: '\n' :: (members.flatMap (· ++ ['\n']) ++ ['\x7d'])) := by
  unfold bracedLines
  rw [joinLines_cons (by simp), joinLines_append_singleton]
  simp [openingMark]

theorem Message.toList_render (m : Message) : m.render.toList = joinLines m.lines := by
  have hfields : (String.join (m.fields.map MessageField.render)).toList =
      (m.fields.map MessageField.line).flatMap (· ++ ['\n']) := by
    rw [String.toList_join, List.flatMap_map, List.flatMap_map]
    refine congrArg (List.flatMap · _) (funext fun f => ?_)
    simp [MessageField.render, MessageField.line, String.toList_append]
  unfold Message.render Message.lines
  rw [joinLines_bracedLines_eq]
  simp [String.toList_append, hfields]

theorem EnumType.toList_render (e : EnumType) : e.render.toList = joinLines e.lines := by
  have hconstants : (String.join (e.constants.map Constant.render)).toList =
      (e.constants.map Constant.line).flatMap (· ++ ['\n']) := by
    rw [String.toList_join, List.flatMap_map, List.flatMap_map]
    refine congrArg (List.flatMap · _) (funext fun c => ?_)
    simp [Constant.render, Constant.line, String.toList_append]
  unfold EnumType.render EnumType.lines
  rw [joinLines_bracedLines_eq]
  simp [String.toList_append, hconstants]

end Schema

/-! ### Where fields come from -/

/-- The parameters of a method that can be written make attributes that can be written. -/
theorem Method.Drawable.asAttribute {f : Method} (h : f.Drawable) {p : Parameter}
    (hp : p ∈ f.parameters) : p.asAttribute.Drawable := by
  refine ⟨h.parameterName p hp, h.parameterType p hp, fun hc => h.oneLine ?_⟩
  unfold Method.typesText
  exact List.mem_append_right _ (List.mem_flatMap.mpr ⟨p, hp, hc⟩)

/-- The attributes of a message made of parameters are the parameters. -/
theorem Handler.mem_attributes {h : Handler} {q : Class} (hq : h.payload? = some q) {a : Attribute}
    (ha : a ∈ q.attributes.values) : ∃ p ∈ h.method.parameters, a = p.asAttribute := by
  obtain ⟨name, -, rfl⟩ := h.exists_payloadClass hq
  rw [payloadClass_eq] at ha
  rcases OrderedMap.mem_values_foldl_insert ha with ha | ha
  · obtain ⟨p, hp, rfl⟩ := List.mem_map.mp ha
    exact ⟨p, hp, rfl⟩
  · cases ha

theorem Handler.keyed_attributes {h : Handler} {q : Class} (hq : h.payload? = some q) :
    q.attributes.Keyed Attribute.name := by
  obtain ⟨name, -, rfl⟩ := h.exists_payloadClass hq
  rw [payloadClass_eq]
  exact OrderedMap.keyed_foldl_insert OrderedMap.keyed_empty _

/-- An attribute of a class that took in associations was there, or an association gave it. -/
theorem Class.mem_attributes_takeIn {c : Class} {as : List Association} {a : Attribute}
    (ha : a ∈ (c.takeIn as).attributes.values) :
    a ∈ c.attributes.values ∨ ∃ b ∈ as, a = b.asAttribute := by
  rw [Class.takeIn_eq] at ha
  rcases OrderedMap.mem_values_foldl_insert ha with ha | ha
  · obtain ⟨b, hb, rfl⟩ := List.mem_map.mp ha
    exact Or.inr ⟨b, hb, rfl⟩
  · exact Or.inl ha

/-- An association that a class takes in gives it a field of its label. -/
theorem Class.exists_attribute_takeIn (c : Class) {as : List Association} {b : Association}
    (hb : b ∈ as) : ∃ a ∈ (c.takeIn as).attributes.values, a.name = b.label := by
  obtain ⟨before, after, rfl⟩ := List.append_of_mem hb
  obtain ⟨d, hlast, hlabel, -⟩ := OrderedMap.exists_findRev?_append_cons
    (p := fun a : Association => decide (a.label = b.label)) before after (decide_eq_true rfl)
  have hget := c.get?_attributes_takeIn (before ++ b :: after) b.label
  rw [hlast] at hget
  exact ⟨d.asAttribute, OrderedMap.mem_values_of_get? hget, of_decide_eq_true hlabel⟩

namespace Model

open Schema

variable {m : Model}

/-- The field for an association is written: a class of the owner's name is declared, and no
message made of parameters takes its place. -/
def Folds (m : Model) (a : Association) : Prop :=
  (m.class? a.owner).isSome ∧ a.owner ∉ m.payloads.map Class.name

/-- There is a last method for a name exactly if some message bears it. -/
theorem lastHandler?_eq_none_iff {name : String} :
    m.lastHandler? name = none ↔ name ∉ m.payloads.map Class.name := by
  rw [lastHandler?, List.findRev?_eq_find?_reverse, List.find?_eq_none, payloads_eq]
  constructor
  · intro hnone hname
    obtain ⟨q, hq, rfl⟩ := List.mem_map.mp hname
    obtain ⟨h, hmem, hpayload⟩ := List.mem_filterMap.mp hq
    refine hnone h (List.mem_reverse.mpr hmem) ?_
    rw [hpayload]
    exact decide_eq_true rfl
  · intro hname h hmem hany
    obtain ⟨q, hq, hqname⟩ := (Option.any_eq_true _ _).mp hany
    refine hname (List.mem_map.mpr ⟨q, ?_, of_decide_eq_true hqname⟩)
    exact List.mem_filterMap.mpr ⟨h, List.mem_reverse.mp hmem, hq⟩

/-- Under a name without a message stands the declared class with its fields. -/
theorem class?_completed_of_not_mem {name : String} (h : name ∉ m.payloads.map Class.name) :
    m.completed.class? name = (m.class? name).map fun c => c.takeIn (m.owned name) := by
  rw [class?_completed, lastHandler?_eq_none_iff.mpr h, class?_folded]
  rfl

/-- **A class that comes out is made of parameters, or it is a declared class with its fields for
associations.** -/
theorem class_completed_cases (hm : m.Keyed) {c : Class} (hc : c ∈ m.completed.classes.values) :
    (∃ h ∈ m.handlers, h.payload? = some c) ∨
      ∃ d, m.class? c.name = some d ∧ c.name ∉ m.payloads.map Class.name ∧
        c = d.takeIn (m.owned c.name) := by
  have hclass : m.completed.class? c.name = some c :=
    OrderedMap.get?_of_mem_values (m.keyed_classes_completed hm.classes) hc
  cases hlast : m.lastHandler? c.name with
  | some h =>
      obtain ⟨hmem, hname⟩ := OrderedMap.of_findRev? hlast
      obtain ⟨q, hq, -⟩ := (Option.any_eq_true _ _).mp hname
      rw [class?_completed, hlast, Option.bind_some, hq] at hclass
      exact Or.inl ⟨h, hmem, hq.trans hclass⟩
  | none =>
      have hname := lastHandler?_eq_none_iff.mp hlast
      rw [class?_completed_of_not_mem hname] at hclass
      obtain ⟨d, hd, he⟩ := Option.map_eq_some_iff.mp hclass
      exact Or.inr ⟨d, hd, hname, he.symm⟩

/-- A method of an interface can be written if the model can. -/
theorem drawable_of_mem_handlers (hm : m.Drawable) {h : Handler} (hh : h ∈ m.handlers) :
    h.method.Drawable := by
  obtain ⟨i, hi, hmem⟩ := List.mem_flatMap.mp hh
  obtain ⟨f, hf, rfl⟩ := List.mem_map.mp hmem
  exact (hm.interfaces i hi).methods f hf

/-- An attribute that comes out can be written on a line of a diagram, or it is the field for an
association. -/
theorem attribute_completed_cases (hm : m.Sound) {c : Class} {a : Attribute}
    (hc : c ∈ m.completed.classes.values) (ha : a ∈ c.attributes.values) :
    a.Drawable ∨ ∃ b ∈ m.associations, m.Folds b ∧ a = b.asAttribute := by
  rcases class_completed_cases hm.keyed hc with ⟨h, hh, hq⟩ | ⟨d, hd, hname, he⟩
  · obtain ⟨p, hp, rfl⟩ := Handler.mem_attributes hq ha
    exact Or.inl ((drawable_of_mem_handlers hm.drawable hh).asAttribute hp)
  · rw [he] at ha
    rcases Class.mem_attributes_takeIn ha with ha | ⟨b, hb, rfl⟩
    · exact Or.inl ((hm.drawable.classes d (OrderedMap.mem_values_of_get? hd)).attributes a ha)
    · obtain ⟨hb, howner⟩ := List.mem_filter.mp hb
      rw [decide_eq_true_eq] at howner
      refine Or.inr ⟨b, hb, ⟨?_, ?_⟩, rfl⟩
      · rw [howner, hd]
        rfl
      · rwa [howner]

/-- The field for an association comes out under its label. -/
theorem exists_attribute_completed {b : Association} (hb : b ∈ m.associations) (hfolds : m.Folds b) :
    ∃ c ∈ m.completed.classes.values, ∃ a ∈ c.attributes.values, a.name = b.label := by
  obtain ⟨hdeclared, hname⟩ := hfolds
  obtain ⟨d, hd⟩ := Option.isSome_iff_exists.mp hdeclared
  have hclass := class?_completed_of_not_mem hname
  rw [hd, Option.map_some] at hclass
  have howned : b ∈ m.owned b.owner := List.mem_filter.mpr ⟨hb, decide_eq_true rfl⟩
  obtain ⟨a, ha, hlabel⟩ := d.exists_attribute_takeIn howned
  exact ⟨_, OrderedMap.mem_values_of_get? hclass, a, ha, hlabel⟩

theorem keyed_attributes_completed (hm : m.Keyed) {c : Class}
    (hc : c ∈ m.completed.classes.values) : c.attributes.Keyed Attribute.name := by
  rcases class_completed_cases hm hc with ⟨h, -, hq⟩ | ⟨d, hd, -, he⟩
  · exact Handler.keyed_attributes hq
  · rw [he]
    exact (hm.classMembers d (OrderedMap.mem_values_of_get? hd)).takeIn _

end Model

/-! ### Names on one line -/

/-- A text without a line feed. -/
def OneLine (s : String) : Prop :=
  '\n' ∉ s.toList

instance (s : String) : Decidable (OneLine s) :=
  inferInstanceAs (Decidable (_ ∉ _))

theorem IsWord.oneLine {s : String} (h : IsWord s.toList) : OneLine s :=
  not_mem_of_isWord h (by decide)

theorem IsWord.append {v w : List Char} (hv : ∀ c ∈ v, isWordChar c = true) (hw : IsWord w) :
    IsWord (v ++ w) := by
  refine ⟨List.append_ne_nil_of_right_ne_nil v hw.ne_nil, fun c hc => ?_⟩
  rcases List.mem_append.mp hc with hc | hc
  · exact hv c hc
  · exact hw.chars c hc

theorem Association.Drawable.isWord_target {b : Association} (h : b.Drawable) :
    IsWord b.target.toList := by
  unfold Association.target
  split
  · exact h.left
  · exact h.right

theorem Association.Drawable.oneLine_label {b : Association} (h : b.Drawable) :
    OneLine b.label := by
  intro hc
  have := h.label.chars _ hc
  revert this
  decide

namespace Schema

theorem oneLine_typeName {type : String} (h : OneLine type) : OneLine (typeName type) := by
  unfold typeName
  split
  · decide
  · split
    · decide
    · exact h

theorem typeName_ne_empty {type : String} (h : type ≠ "") : typeName type ≠ "" := by
  unfold typeName
  split
  · decide
  · split
    · decide
    · exact h

theorem isWord_requestName {f : Method} (h : IsWord f.name.toList) :
    IsWord (requestName f).toList := by
  unfold requestName
  rw [String.toList_append]
  exact IsWord.append h.chars (by decide)

theorem isWord_eventName {f : Method} (h : IsWord f.name.toList) :
    IsWord (eventName f).toList := by
  unfold eventName
  split
  · rw [String.toList_append, String.toList_ofList]
    exact IsWord.append (fun c hc => h.chars c (List.mem_of_mem_drop hc)) (by decide)
  · exact h

end Schema

namespace Model

open Schema

variable {m : Model}

/-- The name of a message is a word. -/
theorem isWord_name_completed (hm : m.Sound) {c : Class} (hc : c ∈ m.completed.classes.values) :
    IsWord c.name.toList := by
  rcases class_completed_cases hm.keyed hc with ⟨h, hh, hq⟩ | ⟨d, hd, -, he⟩
  · have hname := (drawable_of_mem_handlers hm.drawable hh).name
    obtain ⟨name, hcases, rfl⟩ := h.exists_payloadClass hq
    rw [payloadClass_eq]
    rcases hcases with rfl | rfl
    · exact isWord_requestName hname
    · exact isWord_eventName hname
  · rw [he, Class.takeIn_eq]
    exact (hm.drawable.classes d (OrderedMap.mem_values_of_get? hd)).name

/-- The attributes that come out have a type, and they stand on one line. -/
theorem oneLine_attribute_completed (hm : m.Sound) {c : Class} {a : Attribute}
    (hc : c ∈ m.completed.classes.values) (ha : a ∈ c.attributes.values) :
    a.type ≠ "" ∧ OneLine a.type ∧ OneLine a.name := by
  rcases attribute_completed_cases hm hc ha with hdrawable | ⟨b, hb, -, rfl⟩
  · refine ⟨fun htype => hdrawable.type.ne_nil ?_, hdrawable.oneLine, hdrawable.name.oneLine⟩
    rw [htype]
    rfl
  · have hdrawable := hm.drawable.associations b hb
    have htarget := hdrawable.isWord_target
    refine ⟨fun htype => htarget.ne_nil ?_, htarget.oneLine, hdrawable.oneLine_label⟩
    exact String.toList_eq_nil_iff.mpr htype

/-- The names in use stand on one line. -/
theorem oneLine_usedNames (hm : m.Sound) {name : String} (h : name ∈ m.completed.usedNames) :
    OneLine name := by
  unfold usedNames at h
  rw [interfaces_completed] at h
  rcases List.mem_append.mp h with h | h
  · obtain ⟨i, hi, h⟩ := List.mem_flatMap.mp h
    obtain ⟨f, hf, h⟩ := List.mem_flatMap.mp h
    have hdrawable := (hm.drawable.interfaces i hi).methods f hf
    have hreturn : OneLine f.returnType := fun hc =>
      hdrawable.oneLine (List.mem_append_left _ hc)
    have hcall : ∀ n ∈ f.usedInCall, OneLine n := by
      intro n hn
      simp only [Method.usedInCall, List.mem_append, List.mem_ite_nil_right,
        List.mem_singleton] at hn
      rcases hn with ⟨-, rfl⟩ | ⟨-, rfl⟩
      · exact oneLine_typeName hreturn
      · exact (isWord_requestName hdrawable.name).oneLine
    have hevent : ∀ n ∈ f.usedInEvent, OneLine n := by
      intro n hn
      simp only [Method.usedInEvent, List.mem_append, List.mem_ite_nil_right,
        List.mem_singleton] at hn
      rcases hn with ⟨-, rfl⟩ | ⟨-, rfl⟩
      · rw [← eventName_eq]
        exact oneLine_typeName (isWord_eventName hdrawable.name).oneLine
      · decide
    split at h
    · exact hcall name h
    · exact hevent name h
  · obtain ⟨c, hc, h⟩ := List.mem_flatMap.mp h
    obtain ⟨a, ha, rfl⟩ := List.mem_map.mp h
    exact oneLine_typeName (oneLine_attribute_completed hm hc ha).2.1

end Model

/-! ### Lines of what was read -/

namespace Schema

/-- The text of a message is cut into its lines.  Every field has a type, the numbers count the
fields from one, and no name is there twice. -/
structure Message.Lined (m : Message) : Prop where
  lines : splitOnChar '\n' m.render.toList = m.lines
  types : ∀ f ∈ m.fields, f.type ≠ ""
  numbers : m.fields.map MessageField.number = List.range' 1 m.fields.length
  names : (m.fields.map MessageField.name).Nodup

/-- The text of an enum is cut into its lines, and the constants have words for names. -/
structure EnumType.Lined (e : EnumType) : Prop where
  lines : splitOnChar '\n' e.render.toList = e.lines
  words : ∀ c ∈ e.constants, IsWord c.name.toList

theorem not_mem_toDigits (n : Nat) : '\n' ∉ Nat.toDigits 10 n := by
  intro hc
  have hdigit := Nat.isDigit_of_mem_toDigits (by decide) (by decide) hc
  revert hdigit
  decide

theorem splitOnChar_bracedLines {header : String} {members : List (List Char)}
    (hheader : OneLine header) (hmembers : ∀ l ∈ members, '\n' ∉ l) :
    splitOnChar '\n' (joinLines (bracedLines header.toList members)) =
      bracedLines header.toList members := by
  refine splitOnChar_joinLines (List.cons_ne_nil _ _) fun l hl => ?_
  rcases List.mem_cons.mp hl with rfl | hl
  · rw [List.mem_append, not_or]
    exact ⟨hheader, by decide⟩
  · rcases List.mem_append.mp hl with hl | hl
    · exact hmembers l hl
    · rw [List.mem_singleton.mp hl]
      decide

theorem MessageField.oneLine_line {f : MessageField} (htype : OneLine f.type)
    (hname : OneLine f.name) : '\n' ∉ f.line := by
  unfold OneLine at htype hname
  simp [line, htype, hname, not_mem_toDigits]

theorem Constant.oneLine_line {c : Constant} (hname : OneLine c.name) (hvalue : OneLine c.value) :
    '\n' ∉ c.line := by
  unfold OneLine at hname hvalue
  simp [line, hname, hvalue]

theorem Message.splitOnChar_render {m : Message} (hname : OneLine m.name)
    (hfields : ∀ f ∈ m.fields, OneLine f.type ∧ OneLine f.name) :
    splitOnChar '\n' m.render.toList = m.lines := by
  have hheader : OneLine ("message " ++ m.name) := by
    unfold OneLine at hname ⊢
    simp [String.toList_append, hname]
  rw [Message.toList_render]
  refine splitOnChar_bracedLines hheader fun l hl => ?_
  obtain ⟨f, hf, rfl⟩ := List.mem_map.mp hl
  exact f.oneLine_line (hfields f hf).1 (hfields f hf).2

theorem EnumType.splitOnChar_render {e : EnumType} (hname : OneLine e.name)
    (hconstants : ∀ c ∈ e.constants, OneLine c.name ∧ OneLine c.value) :
    splitOnChar '\n' e.render.toList = e.lines := by
  have hheader : OneLine ("enum " ++ e.name) := by
    unfold OneLine at hname ⊢
    simp [String.toList_append, hname]
  rw [EnumType.toList_render]
  refine splitOnChar_bracedLines hheader fun l hl => ?_
  obtain ⟨c, hc, rfl⟩ := List.mem_map.mp hl
  exact c.oneLine_line (hconstants c hc).1 (hconstants c hc).2

theorem names_messageOf (c : Class) :
    (messageOf c).fields.map MessageField.name = c.attributes.values.map Attribute.name := by
  have hnames := congrArg (List.map Attribute.name) (List.zipIdx_map_fst 0 c.attributes.values)
  rw [List.map_map] at hnames
  unfold messageOf
  rw [List.map_map]
  exact hnames

theorem numbers_messageOf (c : Class) :
    (messageOf c).fields.map MessageField.number = List.range' 1 (messageOf c).fields.length := by
  have hnumbers := congrArg (List.map (1 + ·)) (List.zipIdx_map_snd 0 c.attributes.values)
  rw [List.map_map, List.map_add_range'] at hnumbers
  unfold messageOf
  rw [List.map_map, List.length_map, List.length_zipIdx]
  refine Eq.trans (List.map_congr_left fun p _ => ?_) hnumbers
  exact Nat.add_comm p.2 1

theorem exists_attribute_of_mem_fields {c : Class} {f : MessageField}
    (hf : f ∈ (messageOf c).fields) : ∃ a ∈ c.attributes.values, ∃ n, f = fieldOf a (n + 1) := by
  obtain ⟨⟨a, n⟩, ha, rfl⟩ := List.mem_map.mp hf
  exact ⟨a, List.fst_mem_of_mem_zipIdx ha, n, rfl⟩

theorem lined_placeholder {name : String} (h : OneLine name) :
    ({ name, fields := [] } : Message).Lined where
  lines := Message.splitOnChar_render h fun _ hf => absurd hf List.not_mem_nil
  types := fun _ hf => absurd hf List.not_mem_nil
  numbers := rfl
  names := List.nodup_nil

theorem lined_enumTypeOf {e : Enum} (he : e.Drawable) : (enumTypeOf e).Lined := by
  have hvalue : ∀ p ∈ e.properties.values, OneLine p.value := by
    intro p hp
    by_cases hnil : p.value.toList = []
    · unfold OneLine
      rw [hnil]
      exact List.not_mem_nil
    · exact ((he.properties p hp).value hnil).oneLine
  constructor
  · refine EnumType.splitOnChar_render he.name.oneLine fun c hc => ?_
    obtain ⟨p, hp, rfl⟩ := List.mem_map.mp hc
    exact ⟨(he.properties p hp).name.oneLine, hvalue p hp⟩
  · intro c hc
    obtain ⟨p, hp, rfl⟩ := List.mem_map.mp hc
    exact (he.properties p hp).name

/-- A constant that was read has a word for a value, or none, and so it is an integer exactly if
it is made of digits. -/
theorem isInteger_value {p : EnumProperty} (hp : p.Drawable) :
    isInteger p.value.toList = isDigits p.value.toList := by
  unfold isInteger
  split
  · rename_i r he
    have hword := hp.value (by rw [he]; exact List.cons_ne_nil _ _)
    have hminus := hword.chars '-' (by rw [he]; exact List.mem_cons_self)
    exact absurd hminus (by decide)
  · rfl

end Schema

namespace Model

open Schema

variable {m : Model}

theorem lined_messageOf (hm : m.Sound) {c : Class} (hc : c ∈ m.completed.classes.values) :
    (messageOf c).Lined where
  lines := by
    refine Message.splitOnChar_render (isWord_name_completed hm hc).oneLine fun f hf => ?_
    obtain ⟨a, ha, n, rfl⟩ := exists_attribute_of_mem_fields hf
    obtain ⟨-, htype, hname⟩ := oneLine_attribute_completed hm hc ha
    exact ⟨oneLine_typeName htype, hname⟩
  types := by
    intro f hf
    obtain ⟨a, ha, n, rfl⟩ := exists_attribute_of_mem_fields hf
    exact typeName_ne_empty (oneLine_attribute_completed hm hc ha).1
  numbers := numbers_messageOf c
  names := by
    rw [names_messageOf]
    exact OrderedMap.nodup_values (keyed_attributes_completed hm.keyed hc)

theorem mem_allMessages_document {package : String} {msg : Message}
    (h : msg ∈ (m.document package).allMessages) :
    (∃ c ∈ m.completed.classes.values, msg = messageOf c) ∨
      ∃ name ∈ m.completed.undefinedNames, msg = { name, fields := [] } := by
  rcases List.mem_append.mp h with h | h
  · obtain ⟨c, hc, rfl⟩ := List.mem_map.mp h
    exact Or.inl ⟨c, hc, rfl⟩
  · rw [placeholders_document] at h
    split at h
    · cases h
    · obtain ⟨name, hname, rfl⟩ := List.mem_map.mp h
      exact Or.inr ⟨name, (List.mem_filter.mp hname).1, rfl⟩

theorem lined_of_mem_allMessages (hm : m.Sound) {package : String} {msg : Message}
    (h : msg ∈ (m.document package).allMessages) : msg.Lined := by
  rcases mem_allMessages_document h with ⟨c, hc, rfl⟩ | ⟨name, hname, rfl⟩
  · exact lined_messageOf hm hc
  · have hused := List.mem_eraseDups.mp (List.mem_filter.mp hname).1
    exact lined_placeholder (oneLine_usedNames hm hused)

/-- The names of all fields are words exactly if the labels are that give fields their names. -/
theorem words_document_iff (hm : m.Sound) (package : String) :
    (∀ msg ∈ (m.document package).allMessages, ∀ f ∈ msg.fields, IsWord f.name.toList) ↔
      ∀ b ∈ m.associations, m.Folds b → IsWord b.label.toList := by
  constructor
  · intro hwords b hb hfolds
    obtain ⟨c, hc, a, ha, hlabel⟩ := exists_attribute_completed hb hfolds
    have hname : a.name ∈ (messageOf c).fields.map MessageField.name := by
      rw [names_messageOf]
      exact List.mem_map_of_mem ha
    obtain ⟨f, hf, hfname⟩ := List.mem_map.mp hname
    have hword := hwords _ (List.mem_append_left _ (List.mem_map_of_mem hc)) f hf
    rwa [hfname, hlabel] at hword
  · intro hlabels msg hmsg f hf
    rcases mem_allMessages_document hmsg with ⟨c, hc, rfl⟩ | ⟨name, -, rfl⟩
    · obtain ⟨a, ha, n, rfl⟩ := exists_attribute_of_mem_fields hf
      rcases attribute_completed_cases hm hc ha with hdrawable | ⟨b, hb, hfolds, rfl⟩
      · exact hdrawable.name
      · exact hlabels b hb hfolds
    · cases hf

/-- The numbers of all constants are integers exactly if digits are written for them. -/
theorem integers_document_iff (hm : m.Sound) (package : String) :
    (∀ e ∈ (m.document package).enums, ∀ c ∈ e.constants, isInteger c.value.toList = true) ↔
      ∀ e ∈ m.enums.values, ∀ p ∈ e.properties.values, isDigits p.value.toList = true := by
  constructor
  · intro hintegers e he p hp
    rw [← isInteger_value ((hm.drawable.enums e he).properties p hp)]
    exact hintegers _ (List.mem_map_of_mem he) _ (List.mem_map_of_mem hp)
  · intro hdigits e he c hc
    obtain ⟨e, hmem, rfl⟩ := List.mem_map.mp he
    obtain ⟨p, hp, rfl⟩ := List.mem_map.mp hc
    rw [isInteger_value ((hm.drawable.enums e hmem).properties p hp)]
    exact hdigits e hmem p hp

end Model

open Schema

/-- **The lines of a schema are well formed but for labels and values.**  Whatever the diagram,
each message is cut into the lines of its fields, the fields have types, different names and the
numbers from one on, and each enum is cut into the lines of its constants, which have words for
names.  The names of the fields are words exactly if the labels of the associations are that
give them, and the constants have integers for numbers exactly if digits are written for all of
them. -/
theorem wellFormed_schema_iff (package text : String) :
    (Conversion.diagramToSchema package text).value =
        ((Diagram.read text).value.schema package).value.1.render ∧
      (∀ m ∈ ((Diagram.read text).value.schema package).value.1.allMessages, m.Lined) ∧
      (∀ e ∈ ((Diagram.read text).value.schema package).value.1.enums, e.Lined) ∧
      (((Diagram.read text).value.schema package).value.1.WellFormed ↔
        (∀ a ∈ (Diagram.read text).value.associations,
          (Diagram.read text).value.Folds a → IsWord a.label.toList) ∧
        ∀ e ∈ (Diagram.read text).value.enums.values, ∀ p ∈ e.properties.values,
          isDigits p.value.toList = true) := by
  have hsound := sound_read text
  have hmessages : ∀ m ∈ ((Diagram.read text).value.document package).allMessages, m.Lined :=
    fun m hm => Model.lined_of_mem_allMessages hsound hm
  have henums : ∀ e ∈ ((Diagram.read text).value.document package).enums, e.Lined := by
    intro e he
    obtain ⟨e, hmem, rfl⟩ := List.mem_map.mp he
    exact lined_enumTypeOf (hsound.drawable.enums e hmem)
  rw [value_diagramToSchema, Model.value_schema, ← Model.words_document_iff hsound package,
    ← Model.integers_document_iff hsound package]
  refine ⟨rfl, hmessages, henums, fun h => ⟨?_, ?_⟩, fun h => ⟨?_, ?_⟩⟩
  · exact fun m hm => (h.messages m hm).words
  · exact fun e he => (h.enums e he).integers
  · intro m hm
    have hlined := hmessages m hm
    refine ⟨h.1 m hm, fun f hf => ?_, hlined.names, ?_⟩
    · have hnumber := List.mem_map_of_mem (f := MessageField.number) hf
      rw [hlined.numbers, List.mem_range'_1] at hnumber
      exact hnumber.1
    · rw [hlined.numbers]
      exact List.nodup_range'
  · exact fun e he => ⟨(henums e he).words, h.2 e he⟩

/-- A car with wheels, of a color that has no number. -/
def carText : String :=
  "class Car\nclass Wheel\nenum Color \x7b\n RED\n\x7d\nCar -- Wheel"

theorem not_wellFormed_schema_carText :
    (¬∀ m ∈ ((Diagram.read carText).value.schema defaultPackage).value.1.allMessages,
        m.WellFormed) ∧
      ¬∀ e ∈ ((Diagram.read carText).value.schema defaultPackage).value.1.enums,
        e.WellFormed := by
  have hname : ¬∀ m ∈ ((Diagram.read carText).value.schema defaultPackage).value.1.allMessages,
      ∀ f ∈ m.fields, IsWord f.name.toList := by
    decide +kernel
  have hvalue : ¬∀ e ∈ ((Diagram.read carText).value.schema defaultPackage).value.1.enums,
      ∀ c ∈ e.constants, isInteger c.value.toList = true := by
    decide +kernel
  exact ⟨fun h => hname fun m hm => (h m hm).words, fun h => hvalue fun e he => (h e he).integers⟩

end ClassModel
