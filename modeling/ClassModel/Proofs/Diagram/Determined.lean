/-
What a written diagram determines.

Two models that are written alike are alike, up to the separators of associations, which are
not written.  Reading does not show that: a type with braces in it may tear a body apart, and
what is read of such a diagram is another model.  But the writing itself can be undone.

Only the lines that begin an entity begin with a word, and only the lines of members begin
with a tab.  So a diagram falls into sections, each of a line that begins something and the
member lines behind it, and every section shows the entity that it was written for.
-/
import ClassModel.Proofs.Diagram.ReadModels
import ClassModel.Proofs.Diagram.RoundTrip

namespace ClassModel

open LineParser

/-! ### Members -/

theorem BeginsWithWord.exists_cons {s : List Char} (h : BeginsWithWord s) :
    ∃ c r, s = c :: r ∧ isWordChar c = true := by
  obtain ⟨w, r, hw, rfl⟩ := h
  obtain ⟨c, t, rfl, hc⟩ := hw.exists_cons
  exact ⟨c, t ++ r, rfl, hc⟩

theorem beginsWithWord_of_isType {P : TypeSuffix → Prop} {t : List Char} (ht : IsType P t)
    (r : List Char) : BeginsWithWord (t ++ r) := by
  obtain ⟨head, xs, hhead, -, rfl⟩ := ht
  exact ⟨head, _, hhead, List.append_assoc _ _ _⟩

theorem marker_injective {v w : Visibility} (h : v.marker = w.marker) : v = w := by
  cases v <;> cases w <;> first | rfl | cases h

/-- The line of a member shows its visibility, whether it is static, and the rest. -/
theorem writtenLine_injective {v w : Visibility} {a b : Bool} {s t : List Char}
    (hs : BeginsWithWord s) (ht : BeginsWithWord t)
    (h : writtenLine v a s = writtenLine w b t) : v = w ∧ a = b ∧ s = t := by
  obtain ⟨c, u, rfl, hc⟩ := hs.exists_cons
  obtain ⟨d, x, rfl, hd⟩ := ht.exists_cons
  unfold writtenLine at h
  obtain ⟨-, h⟩ := List.cons_eq_cons.mp h
  obtain ⟨hmarker, h⟩ := List.cons_eq_cons.mp h
  obtain ⟨-, h⟩ := List.cons_eq_cons.mp h
  refine ⟨marker_injective hmarker, ?_⟩
  -- The mark of a static member begins with a brace, and no word does.
  cases a with
  | false =>
      cases b with
      | false => exact ⟨rfl, h⟩
      | true =>
          obtain ⟨rfl, -⟩ := List.cons_eq_cons.mp h
          cases hc
  | true =>
      cases b with
      | false =>
          obtain ⟨rfl, -⟩ := List.cons_eq_cons.mp h
          cases hd
      | true => exact ⟨rfl, List.append_cancel_left h⟩

theorem beginsWithWord_attributeRest {a : Attribute} (ha : a.Drawable) :
    BeginsWithWord (attributeRest a) :=
  beginsWithWord_of_isType ha.type _

theorem beginsWithWord_methodRest {m : Method} (hm : m.Writable) :
    BeginsWithWord (methodRest m) := by
  unfold methodRest
  cases m.isAbstract with
  | false => exact beginsWithWord_of_isType hm.returnType _
  | true => exact ⟨"abstract".toList, _, by decide, List.append_assoc _ _ _⟩

/-- A member of an entity. -/
inductive EntityMember where
  | field (a : Attribute)
  | method (m : Method)

namespace EntityMember

/-- The line of a member. -/
def line : EntityMember → List Char
  | field a => (Diagram.attributeLine a).toList
  | method m => (Diagram.methodLine m).toList

/-- A member that can be written. -/
def Drawable : EntityMember → Prop
  | field a => a.Drawable
  | method m => m.Drawable

/-- The visibility of a member. -/
def visibility : EntityMember → Visibility
  | field a => a.visibility
  | method m => m.visibility

/-- A member is static. -/
def isStatic : EntityMember → Bool
  | field a => a.isStatic
  | method m => m.isStatic

/-- What stands behind the visibility of a member. -/
def rest : EntityMember → List Char
  | field a => attributeRest a
  | method m => methodRest m

/-- The attribute of a member that is one. -/
def field? : EntityMember → Option Attribute
  | field a => some a
  | method _ => none

/-- The method of a member that is one. -/
def method? : EntityMember → Option Method
  | field _ => none
  | method m => some m

/-- What the line of a member is read as. -/
def asRead : EntityMember → MemberLine
  | field a => .field { visibility := some a.visibility, name := a.name, type := a.type }
  | method m => .method m.asRead

variable {x y : EntityMember}

theorem Drawable.line_eq (hx : x.Drawable) :
    x.line = writtenLine x.visibility x.isStatic x.rest := by
  cases x with
  | field a => exact toList_attributeLine hx.type
  | method m => exact toList_methodLine m

theorem Drawable.beginsWithWord (hx : x.Drawable) : BeginsWithWord x.rest := by
  cases x with
  | field a => exact beginsWithWord_attributeRest hx
  | method m => exact beginsWithWord_methodRest hx.toWritable

theorem Drawable.memberLine? (hx : x.Drawable) :
    memberLine? (memberLineOf x.visibility x.isStatic x.rest).text = some x.asRead := by
  cases x with
  | field a => exact memberLine?_attributeText hx.name hx.type
  | method m => exact memberLine?_methodText hx.toWritable

/-- A method is known from what its line is read as, even if that is another method. -/
theorem eq_of_asRead_eq {m n : Method} (h : m.asRead = n.asRead) (hstatic : m.isStatic = n.isStatic) :
    m = n := by
  have hvisibility : m.visibility = n.visibility :=
    Option.some.inj (congrArg MethodLine.visibility h)
  have hname : m.name = n.name := congrArg MethodLine.name h
  have hparameters : m.parameters = n.parameters := congrArg MethodLine.parameters h
  have habstract : (m.isAbstract || decide m.Misread) = (n.isAbstract || decide n.Misread) :=
    congrArg MethodLine.isAbstract h
  have htype : (if m.Misread then none else some m.returnType) =
      if n.Misread then none else some n.returnType := congrArg MethodLine.returnType h
  have hboth : m.returnType = n.returnType ∧ m.isAbstract = n.isAbstract := by
    by_cases hm : m.Misread
    · by_cases hn : n.Misread
      · exact ⟨hm.2.trans hn.2.symm, hm.1.trans hn.1.symm⟩
      · rw [if_pos hm, if_neg hn] at htype
        cases htype
    · by_cases hn : n.Misread
      · rw [if_neg hm, if_pos hn] at htype
        cases htype
      · rw [if_neg hm, if_neg hn] at htype
        exact ⟨Option.some.inj htype, by simpa [hm, hn] using habstract⟩
  cases m
  cases n
  simp_all

/-- **A member is known from its line.** -/
theorem eq_of_line_eq (hx : x.Drawable) (hy : y.Drawable) (h : x.line = y.line) : x = y := by
  rw [hx.line_eq, hy.line_eq] at h
  obtain ⟨hvisibility, hstatic, hrest⟩ :=
    writtenLine_injective hx.beginsWithWord hy.beginsWithWord h
  have hread : x.asRead = y.asRead := by
    have hmember := hx.memberLine?
    rw [hvisibility, hstatic, hrest, hy.memberLine?] at hmember
    exact (Option.some.inj hmember).symm
  cases x with
  | field a =>
      cases y with
      | field b =>
          have hfield := MemberLine.field.inj hread
          have hname : a.name = b.name := congrArg AttributeLine.name hfield
          have htype : a.type = b.type := congrArg AttributeLine.type hfield
          cases a
          cases b
          simp_all [visibility, isStatic]
      | method n => cases hread
  | method m =>
      cases y with
      | field b => cases hread
      | method n => rw [eq_of_asRead_eq (MemberLine.method.inj hread) hstatic]

end EntityMember

/-! ### Parts of a model -/

/-- What is known from an image is known of a list from its images. -/
theorem map_eq_map_of_forall {α β γ : Type} {f : α → β} {g : α → γ} {xs ys : List α}
    (h : ∀ x ∈ xs, ∀ y ∈ ys, f x = f y → g x = g y) (hmap : xs.map f = ys.map f) :
    xs.map g = ys.map g := by
  induction xs generalizing ys with
  | nil =>
      obtain rfl : ys = [] := List.map_eq_nil_iff.mp hmap.symm
      rfl
  | cons x xs ih =>
      cases ys with
      | nil => cases hmap
      | cons y ys =>
          rw [List.map_cons, List.map_cons, List.cons_eq_cons] at hmap
          rw [List.map_cons, List.map_cons, h x (by simp) y (by simp) hmap.1,
            ih (fun a ha b hb => h a (by simp [ha]) b (by simp [hb])) hmap.2]

/-- A map is known from its values if they stand under their own keys. -/
theorem OrderedMap.eq_of_values_eq {α : Type} {key : α → String} {m n : OrderedMap α}
    (hm : m.Keyed key) (hn : n.Keyed key) (h : m.values = n.values) : m = n := by
  rw [← OrderedMap.foldl_insert_values hm, ← OrderedMap.foldl_insert_values hn, h]

/-- A part of a model that is written on its own. -/
inductive Part where
  | ofClass (c : Class)
  | ofInterface (i : Interface)
  | ofEnum (e : Enum)
  | ofAssociation (a : Association)

/-- A line that begins with a word and the member lines behind it. -/
structure Paragraph where
  head : List Char
  members : List (List Char)

/-- The members of a class. -/
def Class.members (c : Class) : List EntityMember :=
  c.attributes.values.map .field ++ c.methods.values.map .method

/-- The attributes and the methods of a class are known from its members. -/
theorem Class.filterMap_members (c : Class) :
    c.members.filterMap EntityMember.field? = c.attributes.values ∧
      c.members.filterMap EntityMember.method? = c.methods.values := by
  constructor <;>
    simp [members, List.filterMap_append, List.filterMap_map, Function.comp_def,
      EntityMember.field?, EntityMember.method?]

namespace Part

/-- The paragraph of a part. -/
def paragraph : Part → Paragraph
  | ofClass c => ⟨classHeaderText c ++ openingMark c.hasMembers, c.members.map EntityMember.line⟩
  | ofInterface i => ⟨plainHeaderText "interface" i.name ++ openingMark true,
      (i.methods.values.map EntityMember.method).map EntityMember.line⟩
  | ofEnum e => ⟨plainHeaderText "enum" e.name ++ openingMark (!e.properties.isEmpty),
      e.properties.values.map constantText⟩
  | ofAssociation a => ⟨associationText a, []⟩

/-- A part that can be written, with its members under their names. -/
def Sound : Part → Prop
  | ofClass c => c.Sound
  | ofInterface i => i.Sound
  | ofEnum e => e.Sound
  | ofAssociation a => a.Drawable

/-- The header that a part begins with. -/
def header : Part → Option Header
  | ofClass c => some
      { name := c.name, kind := .ofClass c.isAbstract c.superclass c.interfaces
        body := if c.hasMembers then some [] else none }
  | ofInterface i => some { name := i.name, kind := .ofInterface, body := some [] }
  | ofEnum e => some
      { name := e.name, kind := .ofEnum
        body := if !e.properties.isEmpty then some [] else none }
  | ofAssociation _ => none

/-- The class of a part that is one. -/
def class? : Part → Option Class
  | ofClass c => some c
  | _ => none

/-- The interface of a part that is one. -/
def interface? : Part → Option Interface
  | ofInterface i => some i
  | _ => none

/-- The enum of a part that is one. -/
def enum? : Part → Option Enum
  | ofEnum e => some e
  | _ => none

/-- The association of a part that is one. -/
def association? : Part → Option Association
  | ofAssociation a => some a
  | _ => none

/-- A part with a composition for its association. -/
def composed : Part → Part
  | ofAssociation a => ofAssociation a.composed
  | x => x

variable {x y : Part}

theorem Sound.header?_head (hx : x.Sound) : header? x.paragraph.head = x.header := by
  cases x with
  | ofClass c => exact header?_classHeaderText hx.drawable.toHeaded c.hasMembers
  | ofInterface i => exact header?_interface hx.drawable.name true
  | ofEnum e => exact header?_enum hx.drawable.name _
  | ofAssociation a => exact header?_associationText hx

theorem drawable_members {c : Class} (hc : c.Drawable) : ∀ x ∈ c.members, x.Drawable := by
  intro x hx
  rcases List.mem_append.mp hx with hx | hx
  · obtain ⟨a, ha, rfl⟩ := List.mem_map.mp hx
    exact hc.attributes a ha
  · obtain ⟨m, hm, rfl⟩ := List.mem_map.mp hx
    exact hc.methods m hm

theorem drawable_methods {ms : List Method} (hm : ∀ m ∈ ms, m.Drawable) :
    ∀ x ∈ ms.map EntityMember.method, x.Drawable := by
  intro x hx
  obtain ⟨m, hmem, rfl⟩ := List.mem_map.mp hx
  exact hm m hmem

/-- Members are known from their lines. -/
theorem members_eq {xs ys : List EntityMember} (hx : ∀ x ∈ xs, x.Drawable)
    (hy : ∀ y ∈ ys, y.Drawable) (h : xs.map EntityMember.line = ys.map EntityMember.line) :
    xs = ys := by
  have hid := map_eq_map_of_forall (g := id)
    (fun x hxmem y hymem he => EntityMember.eq_of_line_eq (hx x hxmem) (hy y hymem) he) h
  rwa [List.map_id, List.map_id] at hid

theorem class_eq {c d : Class} (hc : c.Sound) (hd : d.Sound)
    (h : (ofClass c).paragraph = (ofClass d).paragraph) : c = d := by
  have hheader : (ofClass c).header = (ofClass d).header := by
    rw [← Sound.header?_head (x := ofClass c) hc, ← Sound.header?_head (x := ofClass d) hd, h]
  have hmembers : c.members = d.members :=
    members_eq (drawable_members hc.drawable) (drawable_members hd.drawable)
      (congrArg Paragraph.members h)
  have hattributes : c.attributes = d.attributes := by
    refine OrderedMap.eq_of_values_eq hc.keyed.attributes hd.keyed.attributes ?_
    rw [← c.filterMap_members.1, hmembers, d.filterMap_members.1]
  have hmethods : c.methods = d.methods := by
    refine OrderedMap.eq_of_values_eq hc.keyed.methods hd.keyed.methods ?_
    rw [← c.filterMap_members.2, hmembers, d.filterMap_members.2]
  have hvisibility : c.visibility = d.visibility :=
    hc.drawable.visibility.trans hd.drawable.visibility.symm
  simp only [header, Option.some.injEq, Header.mk.injEq, HeaderKind.ofClass.injEq] at hheader
  cases c
  cases d
  simp_all

theorem interface_eq {i j : Interface} (hi : i.Sound) (hj : j.Sound)
    (h : (ofInterface i).paragraph = (ofInterface j).paragraph) : i = j := by
  have hheader : (ofInterface i).header = (ofInterface j).header := by
    rw [← Sound.header?_head (x := ofInterface i) hi, ← Sound.header?_head (x := ofInterface j) hj,
      h]
  have hmethods : i.methods.values = j.methods.values := by
    have hmembers := members_eq (drawable_methods hi.drawable.methods)
      (drawable_methods hj.drawable.methods) (congrArg Paragraph.members h)
    exact (List.map_inj_right fun _ _ => EntityMember.method.inj).mp hmembers
  have hmethods := OrderedMap.eq_of_values_eq hi.keyed hj.keyed hmethods
  have hvisibility : i.visibility = j.visibility :=
    hi.drawable.visibility.trans hj.drawable.visibility.symm
  simp only [header, Option.some.injEq, Header.mk.injEq] at hheader
  cases i
  cases j
  simp_all

theorem constant_eq {p q : EnumProperty} (hp : p.Drawable) (hq : q.Drawable)
    (h : constantText p = constantText q) : p = q := by
  have hread := constantLine?_constantText hp
  rw [h, constantLine?_constantText hq, Option.some.injEq, Prod.mk.injEq] at hread
  obtain ⟨hname, hvalue⟩ := hread
  have hvalues : p.value = q.value := by
    rw [← getD_of_left_out p.value, ← getD_of_left_out q.value, hvalue]
  cases p
  cases q
  simp_all

theorem enum_eq {e f : Enum} (he : e.Sound) (hf : f.Sound)
    (h : (ofEnum e).paragraph = (ofEnum f).paragraph) : e = f := by
  have hheader : (ofEnum e).header = (ofEnum f).header := by
    rw [← Sound.header?_head (x := ofEnum e) he, ← Sound.header?_head (x := ofEnum f) hf, h]
  have hproperties : e.properties.values = f.properties.values := by
    have hid := map_eq_map_of_forall (g := id) (fun p hp q hq heq =>
      constant_eq (he.drawable.properties p hp) (hf.drawable.properties q hq) heq)
        (congrArg Paragraph.members h)
    rwa [List.map_id, List.map_id] at hid
  have hproperties := OrderedMap.eq_of_values_eq he.keyed hf.keyed hproperties
  simp only [header, Option.some.injEq, Header.mk.injEq] at hheader
  cases e
  cases f
  simp_all

theorem association_eq {a b : Association} (ha : a.Drawable) (hb : b.Drawable)
    (h : associationText a = associationText b) : a.composed = b.composed := by
  have hread := composition?_associationText ha
  rw [h, composition?_associationText hb, Option.some.injEq] at hread
  have hrelation : a.relation = b.relation := hread.symm
  rw [← association_relation, ← association_relation, hrelation]

/-- **A part is known from its paragraph**, up to the separator of an association. -/
theorem composed_eq (hx : x.Sound) (hy : y.Sound) (h : x.paragraph = y.paragraph) :
    x.composed = y.composed := by
  have hheader : x.header = y.header := by
    rw [← hx.header?_head, ← hy.header?_head, h]
  cases x with
  | ofClass c =>
      cases y with
      | ofClass d => rw [class_eq hx hy h]
      | _ => simp [header] at hheader
  | ofInterface i =>
      cases y with
      | ofInterface j => rw [interface_eq hx hy h]
      | _ => simp [header] at hheader
  | ofEnum e =>
      cases y with
      | ofEnum f => rw [enum_eq hx hy h]
      | _ => simp [header] at hheader
  | ofAssociation a =>
      cases y with
      | ofAssociation b =>
          exact congrArg ofAssociation (association_eq hx hy (congrArg Paragraph.head h))
      | _ => simp [header] at hheader

end Part

/-! ### The paragraphs of a diagram -/

/-- A line that begins with a word. -/
def beginsPart (l : List Char) : Bool :=
  l.head?.any isWordChar

/-- A line that begins with a tab. -/
def isTabbed (l : List Char) : Bool :=
  l.head? == some '\t'

/-- Put a line in front of the paragraphs behind it and of the member lines that wait for the
beginning of theirs. -/
def gatherLine (l : List Char) (g : List (List Char) × List Paragraph) :
    List (List Char) × List Paragraph :=
  if beginsPart l then ([], ⟨l, g.1⟩ :: g.2) else if isTabbed l then (l :: g.1, g.2) else g

/-- Lines that make up some paragraphs, whatever paragraphs are behind them. -/
def Gathers (ls : List (List Char)) (ps : List Paragraph) : Prop :=
  ∀ qs, ls.foldr gatherLine ([], qs) = ([], ps ++ qs)

namespace Gathers

variable {a b : List (List Char)} {ps qs : List Paragraph}

theorem nil : Gathers [] [] :=
  fun _ => rfl

theorem append (ha : Gathers a ps) (hb : Gathers b qs) : Gathers (a ++ b) (ps ++ qs) := by
  intro rs
  rw [List.foldr_append, hb, ha, List.append_assoc]

/-- A line that neither begins a paragraph nor belongs to one. -/
theorem idle {l : List Char} (hword : beginsPart l = false) (htab : isTabbed l = false) :
    Gathers [l] [] := by
  intro qs
  rw [List.foldr_cons, gatherLine, if_neg (by simp [hword]), if_neg (by simp [htab])]
  rfl

/-- A line that begins with a word gathers the tabbed lines behind it. -/
theorem cons {l : List Char} {ms : List (List Char)} (hl : BeginsWithWord l)
    (hms : ∀ m ∈ ms, beginsPart m = false) : Gathers (l :: ms) [⟨l, ms.filter isTabbed⟩] := by
  have hbegins : beginsPart l = true := by
    obtain ⟨c, r, rfl, hc⟩ := hl.exists_cons
    exact hc
  intro qs
  have hmembers : ms.foldr gatherLine ([], qs) = (ms.filter isTabbed, qs) := by
    induction ms with
    | nil => rfl
    | cons m ms ih =>
        rw [List.foldr_cons, ih fun k hk => hms k (by simp [hk]), gatherLine,
          if_neg (by simp [hms m (by simp)])]
        by_cases htab : isTabbed m = true
        · rw [if_pos htab, List.filter_cons_of_pos htab]
        · rw [if_neg htab, List.filter_cons_of_neg htab]
  rw [List.foldr_cons, hmembers, gatherLine, if_pos hbegins]
  rfl

/-- The lines of some parts, one part behind the other. -/
theorem flatMap {α : Type} {xs : List α} {ls : α → List (List Char)} {p : α → Paragraph}
    (h : ∀ x ∈ xs, Gathers (ls x) [p x]) : Gathers (xs.flatMap ls) (xs.map p) := by
  induction xs with
  | nil => exact nil
  | cons x xs ih =>
      rw [List.flatMap_cons, List.map_cons]
      exact (h x (by simp)).append (ih fun y hy => h y (by simp [hy]))

/-- Blank lines between chunks belong to no paragraph. -/
theorem spacedOut {cs : List (List (List Char))} (h : Gathers cs.flatten ps) :
    Gathers (spacedOut cs) ps := by
  have hblank : ∀ g, gatherLine [] g = g := fun _ => rfl
  have hfold : ∀ g, (ClassModel.spacedOut cs).foldr gatherLine g = cs.flatten.foldr gatherLine g := by
    clear h
    induction cs with
    | nil => exact fun _ => rfl
    | cons c cs ih =>
        intro g
        cases cs with
        | nil => simp [ClassModel.spacedOut]
        | cons d ds =>
            rw [spacedOut_cons (List.cons_ne_nil d ds), List.foldr_append, List.foldr_cons, ih,
              hblank, List.flatten_cons (l := c), List.foldr_append]
  intro qs
  rw [hfold, h]

end Gathers

/-! ### The paragraphs of parts -/

theorem line_tabbed {x : EntityMember} (hx : x.Drawable) :
    beginsPart x.line = false ∧ isTabbed x.line = true := by
  rw [hx.line_eq]
  exact ⟨rfl, rfl⟩

/-- Of the lines of a body only those of members are tabbed. -/
theorem filter_isTabbed_body {xs : List EntityMember} (hx : ∀ x ∈ xs, x.Drawable) :
    (xs.map EntityMember.line ++ [['\x7d']]).filter isTabbed = xs.map EntityMember.line := by
  have hself : (xs.map EntityMember.line).filter isTabbed = xs.map EntityMember.line := by
    refine List.filter_eq_self.mpr fun l hl => ?_
    obtain ⟨x, hmem, rfl⟩ := List.mem_map.mp hl
    exact (line_tabbed (hx x hmem)).2
  rw [List.filter_append, hself]
  exact List.append_nil _

/-- A body holds no line that begins with a word. -/
theorem beginsPart_body {ms : List (List Char)} (h : ∀ m ∈ ms, beginsPart m = false) :
    ∀ m ∈ ms ++ [['\x7d']], beginsPart m = false := by
  intro m hm
  rcases List.mem_append.mp hm with hm | hm
  · exact h m hm
  · rw [List.mem_singleton.mp hm]
    rfl

theorem beginsPart_lines {xs : List EntityMember} (hx : ∀ x ∈ xs, x.Drawable) :
    ∀ l ∈ xs.map EntityMember.line, beginsPart l = false := by
  intro l hl
  obtain ⟨x, hmem, rfl⟩ := List.mem_map.mp hl
  exact (line_tabbed (hx x hmem)).1

/-- The member lines of a class, the blank line between them left aside. -/
theorem memberLines_eq (c : Class) : ∃ gap, memberLines c =
    (c.attributes.values.map EntityMember.field).map EntityMember.line ++
      (gap ++ (c.methods.values.map EntityMember.method).map EntityMember.line) ∧
        (gap = [] ∨ gap = [[]]) := by
  refine ⟨if c.attributes.isEmpty || c.methods.isEmpty then [] else [[]], ?_, ?_⟩
  · rw [memberLines, List.map_map, List.map_map]
    rfl
  · split
    · exact Or.inl rfl
    · exact Or.inr rfl

theorem gathers_classLines {c : Class} (hc : c.Drawable) :
    Gathers (classLines c) [(Part.ofClass c).paragraph] := by
  have hmembers := Part.drawable_members hc
  have hattributes : ∀ x ∈ c.attributes.values.map EntityMember.field, x.Drawable := fun x hx =>
    hmembers x (List.mem_append_left _ hx)
  have hmethods : ∀ x ∈ c.methods.values.map EntityMember.method, x.Drawable := fun x hx =>
    hmembers x (List.mem_append_right _ hx)
  have hword := beginsWithWord_classHeaderText c c.hasMembers
  rw [classLines, Part.paragraph]
  by_cases h : c.hasMembers = true
  · obtain ⟨gap, hlines, hgap⟩ := memberLines_eq c
    have hidle : ∀ l ∈ memberLines c, beginsPart l = false := by
      intro l hl
      rw [hlines, List.mem_append, List.mem_append] at hl
      rcases hl with hl | hl | hl
      · exact beginsPart_lines hattributes l hl
      · rcases hgap with rfl | rfl
        · cases hl
        · rw [List.mem_singleton.mp hl]
          rfl
      · exact beginsPart_lines hmethods l hl
    have hfilter : (memberLines c ++ [['\x7d']]).filter isTabbed =
        c.members.map EntityMember.line := by
      have hbody := filter_isTabbed_body hmembers
      rw [hlines, ← hbody, Class.members, List.map_append]
      rcases hgap with rfl | rfl <;> simp [List.filter_append, isTabbed]
    rw [h] at hword
    rw [if_pos h, h, ← hfilter]
    exact Gathers.cons hword (beginsPart_body hidle)
  · have hnil : c.members = [] := by
      have hboth : c.attributes.values = [] ∧ c.methods.values = [] := by
        rw [values_eq_nil_iff, values_eq_nil_iff]
        simpa [Class.hasMembers] using h
      rw [Class.members, hboth.1, hboth.2]
      rfl
    have hfalse : c.hasMembers = false := by simpa using h
    rw [hfalse] at hword
    rw [if_neg h, hfalse, hnil]
    rw [openingMark, if_neg Bool.false_ne_true, List.append_nil] at hword ⊢
    exact Gathers.cons hword fun m hm => absurd hm List.not_mem_nil

theorem gathers_interfaceLines {i : Interface} (hi : i.Drawable) :
    Gathers (interfaceLines i) [(Part.ofInterface i).paragraph] := by
  have hmethods := Part.drawable_methods hi.methods
  have hword := beginsWithWord_plainHeaderText (w := "interface") (n := i.name) (by decide) true
  have hlines : (interfaceMemberLines i ++ [['\x7d']]).filter isTabbed =
      (i.methods.values.map EntityMember.method).map EntityMember.line := by
    rw [interfaceMemberLines]
    split
    · rename_i hempty
      rw [values_eq_nil_iff.mpr hempty]
      rfl
    · rw [← filter_isTabbed_body hmethods, List.map_map]
      rfl
  have hidle : ∀ l ∈ interfaceMemberLines i, beginsPart l = false := by
    rw [interfaceMemberLines]
    split
    · intro l hl
      rw [List.mem_singleton.mp hl]
      rfl
    · intro l hl
      refine beginsPart_lines hmethods l ?_
      rwa [List.map_map]
  rw [interfaceLines, Part.paragraph, ← hlines]
  exact Gathers.cons hword (beginsPart_body hidle)

theorem gathers_enumLines {e : Enum} :
    Gathers (enumLines e) [(Part.ofEnum e).paragraph] := by
  have hword := beginsWithWord_plainHeaderText (w := "enum") (n := e.name) (by decide)
  rw [enumLines, Part.paragraph]
  by_cases h : e.properties.isEmpty = true
  · rw [if_pos h, h, values_eq_nil_iff.mpr h]
    have hbare := hword false
    rw [openingMark, if_neg Bool.false_ne_true, List.append_nil] at hbare
    show Gathers _ [⟨plainHeaderText "enum" e.name ++ [], []⟩]
    rw [List.append_nil]
    exact Gathers.cons hbare fun m hm => absurd hm List.not_mem_nil
  · have htabbed : ∀ l ∈ e.properties.values.map constantText,
        beginsPart l = false ∧ isTabbed l = true := by
      intro l hl
      obtain ⟨p, -, rfl⟩ := List.mem_map.mp hl
      exact ⟨rfl, rfl⟩
    have hlines : (e.properties.values.map constantText ++ [['\x7d']]).filter isTabbed =
        e.properties.values.map constantText := by
      rw [List.filter_append, List.filter_eq_self.mpr fun l hl => (htabbed l hl).2]
      exact List.append_nil _
    have hfalse : e.properties.isEmpty = false := by simpa using h
    have hcons := Gathers.cons (hword true) (beginsPart_body fun l hl => (htabbed l hl).1)
    rw [hlines] at hcons
    rw [if_neg h, hfalse]
    exact hcons

/-- The parts of a model in the order in which they are written. -/
def Model.parts (m : Model) : List Part :=
  m.classes.values.map .ofClass ++ (m.interfaces.values.map .ofInterface ++
    (m.enums.values.map .ofEnum ++ m.associations.map .ofAssociation))

theorem Model.Sound.parts {m : Model} (hm : m.Sound) : ∀ x ∈ m.parts, x.Sound := by
  intro x hx
  simp only [Model.parts, List.mem_append, List.mem_map] at hx
  rcases hx with ⟨c, hc, rfl⟩ | ⟨i, hi, rfl⟩ | ⟨e, he, rfl⟩ | ⟨a, ha, rfl⟩
  · exact ⟨hm.drawable.classes c hc, hm.keyed.classMembers c hc⟩
  · exact ⟨hm.drawable.interfaces i hi, hm.keyed.methods i hi⟩
  · exact ⟨hm.drawable.enums e he, hm.keyed.properties e he⟩
  · exact hm.drawable.associations a ha

/-- The entities and the associations of a model are known from its parts. -/
theorem Model.filterMap_parts (m : Model) :
    (m.parts.map Part.composed).filterMap Part.class? = m.classes.values ∧
      (m.parts.map Part.composed).filterMap Part.interface? = m.interfaces.values ∧
        (m.parts.map Part.composed).filterMap Part.enum? = m.enums.values ∧
          (m.parts.map Part.composed).filterMap Part.association? =
            m.associations.map Association.composed := by
  have hnone : ∀ {α β : Type} (xs : List α), xs.filterMap (fun _ => (none : Option β)) = [] :=
    fun xs => List.filterMap_eq_nil_iff.mpr fun _ _ => rfl
  refine ⟨?_, ?_, ?_, ?_⟩ <;>
    simp [Model.parts, List.filterMap_append, List.filterMap_map, Function.comp_def,
      Part.composed, Part.class?, Part.interface?, Part.enum?, Part.association?, hnone]

/-- The paragraphs of a diagram are those of its parts. -/
theorem gathers_diagramLines {m : Model} (hm : m.Drawable) :
    Gathers (diagramLines m) (m.parts.map Part.paragraph) := by
  have hassociations : Gathers (associationChunks m).flatten
      ((m.associations.map Part.ofAssociation).map Part.paragraph) := by
    have hlines : Gathers (m.associations.flatMap fun a => [associationText a])
        (m.associations.map (Part.paragraph ∘ Part.ofAssociation)) := by
      refine Gathers.flatMap fun a ha => ?_
      exact Gathers.cons ⟨_, _, (hm.associations a ha).left, rfl⟩
        fun l hl => absurd hl List.not_mem_nil
    rw [associationChunks, List.map_map]
    split
    · rename_i hnil
      rw [hnil]
      exact Gathers.nil
    · simpa [List.map_eq_flatMap] using hlines
  have hchunks : Gathers (diagramChunks m).flatten (m.parts.map Part.paragraph) := by
    rw [diagramChunks, Model.parts]
    simp only [List.flatten_append, List.map_append, ← List.flatMap_def]
    simp only [List.map_map]
    refine Gathers.append (Gathers.flatMap fun c hc => gathers_classLines (hm.classes c hc)) ?_
    refine Gathers.append
      (Gathers.flatMap fun i hi => gathers_interfaceLines (hm.interfaces i hi)) ?_
    refine Gathers.append (Gathers.flatMap fun e _ => gathers_enumLines) ?_
    rwa [List.map_map] at hassociations
  have hcontent : Gathers (contentLines m) (m.parts.map Part.paragraph) := by
    rw [contentLines]
    split
    · rename_i hnil
      rw [hnil] at hchunks
      exact hchunks
    · exact hchunks.spacedOut
  have hall := (Gathers.idle (l := "@startuml".toList) rfl rfl).append
    (hcontent.append (Gathers.idle (l := "@enduml".toList) rfl rfl))
  rw [List.nil_append, List.append_nil] at hall
  exact hall

/-- The lines of a diagram are known from its text. -/
theorem diagramLines_eq_of_render_eq {m n : Model} (hm : m.Drawable) (hn : n.Drawable)
    (h : Diagram.render m = Diagram.render n) : diagramLines m = diagramLines n := by
  have hlines : ∀ {m : Model}, m.Drawable →
      splitOnChar '\n' (Diagram.render m).toList = diagramLines m := by
    intro m hm
    have hne : diagramLines m ≠ [] := List.cons_ne_nil _ _
    rw [toList_render, splitOnChar_joinLines hne (not_mem_diagramLines hm)]
  rw [← hlines hm, h, hlines hn]

/-- **A written diagram determines the model that it was written of**, up to the separators of
associations. -/
theorem composed_eq_of_render_eq {m n : Model} (hm : m.Sound) (hn : n.Sound)
    (h : Diagram.render m = Diagram.render n) : m.composed = n.composed := by
  have hlines := diagramLines_eq_of_render_eq hm.drawable hn.drawable h
  have hparagraphs : m.parts.map Part.paragraph = n.parts.map Part.paragraph := by
    have hgathers := gathers_diagramLines hm.drawable []
    rw [hlines, gathers_diagramLines hn.drawable [], List.append_nil, List.append_nil] at hgathers
    exact (congrArg Prod.snd hgathers).symm
  have hparts : m.parts.map Part.composed = n.parts.map Part.composed :=
    map_eq_map_of_forall (fun x hx y hy => Part.composed_eq (hm.parts x hx) (hn.parts y hy))
      hparagraphs
  obtain ⟨hclasses, hinterfaces, henums, hassociations⟩ := m.filterMap_parts
  obtain ⟨hclasses', hinterfaces', henums', hassociations'⟩ := n.filterMap_parts
  rw [hparts] at hclasses hinterfaces henums hassociations
  have hc := OrderedMap.eq_of_values_eq hm.keyed.classes hn.keyed.classes
    (hclasses.symm.trans hclasses')
  have hi := OrderedMap.eq_of_values_eq hm.keyed.interfaces hn.keyed.interfaces
    (hinterfaces.symm.trans hinterfaces')
  have he := OrderedMap.eq_of_values_eq hm.keyed.enums hn.keyed.enums (henums.symm.trans henums')
  unfold Model.composed
  rw [hc, hi, he, hassociations.symm.trans hassociations']

end ClassModel
