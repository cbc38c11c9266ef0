/-
Members moved out of their declarations.

The members of a declaration are added to its type one after the other, and then the members
that are attached by lines of their own.  So the last member of a declaration and the first that
is attached are neighbours, and one may be written as the other.

Between the two the type is registered, and other declarations may follow.  Adding a member to
what is registered under a name commutes with registering something under another name, which is
why no second declaration of the name may come behind.  A method goes to the class of its owner's
name, if there is one, so if the owner is an interface there must be no such class.
-/
import ClassModel.Proofs.Diagram.Composed
import ClassModel.Proofs.Diagram.Declared
import ClassModel.Proofs.Diagram.InlineMembers
import ClassModel.Proofs.Diagram.Insertion
import ClassModel.Proofs.Diagram.Interleaved
import ClassModel.Proofs.Diagram.RoundTrip

namespace ClassModel

open LineParser

/-! ### Maps -/

namespace OrderedMap

variable {α : Type} {key : α → String}

/-- A value that nothing behind it replaces is found under its key. -/
theorem findRev?_of_last {xs ys : List α} {v : α} (hys : ∀ w ∈ ys, key w ≠ key v) :
    (xs ++ v :: ys).findRev? (fun w => key w = key v) = some v := by
  obtain ⟨w, hfind, hw, hplace⟩ :=
    exists_findRev?_append_cons (p := fun w => key w = key v) (v := v) xs ys (by simp)
  rcases hplace with rfl | hmem
  · exact hfind
  · exact absurd (by simpa using hw) (hys w hmem)

/-- **A value is changed before it is put in or after**, if no later one takes its place. -/
theorem foldl_insert_modify {xs ys : List α} {v : α} {f : α → α} (hkey : key (f v) = key v)
    (hys : ∀ w ∈ ys, key w ≠ key v) (m : OrderedMap α) :
    (xs ++ f v :: ys).foldl (fun acc w => acc.insert (key w) w) m =
      ((xs ++ v :: ys).foldl (fun acc w => acc.insert (key w) w) m).modify (key v) f := by
  refine ext_views ?_ fun k => ?_
  · rw [keys_modify, keys_foldl_insert, keys_foldl_insert]
    simp only [List.map_append, List.map_cons, hkey]
  · rw [get?_modify, get?_foldl_insert, get?_foldl_insert]
    by_cases hk : k = key v
    · subst hk
      have hlast : (xs ++ f v :: ys).findRev? (fun w => key w = key (f v)) = some (f v) :=
        findRev?_of_last fun w hw => by rw [hkey]; exact hys w hw
      rw [hkey] at hlast
      rw [if_pos rfl, hlast, findRev?_of_last hys]
      rfl
    · have hne : ¬key v = k := fun h => hk h.symm
      simp only [if_neg hk, List.findRev?_eq_find?_reverse, List.reverse_append, List.reverse_cons,
        List.append_assoc, List.find?_append, List.singleton_append, List.find?_cons, hkey, hne,
        decide_false]

end OrderedMap

/-! ### Declarations -/

namespace Model

/-- The model of some declarations. -/
def ofBlocks (bs : List Block) : Model :=
  bs.foldl (fun m b => (m.readBlock b).value) empty

theorem associations_ofBlocks (bs : List Block) : (ofBlocks bs).associations = [] :=
  foldl_preserves (g := Model.associations) Model.associations_readBlock bs empty

namespace Registers

variable {α : Type} {part : Model → OrderedMap α} {entity? : Block → Option α} {key : α → String}
  {before behind : List Block} {b b' : Block}

/-- Where two declarations register the same, it does not matter which of them is read. -/
theorem part_ofBlocks_congr (h : Registers part entity? key) (hb : entity? b = entity? b') :
    part (ofBlocks (before ++ b :: behind)) = part (ofBlocks (before ++ b' :: behind)) := by
  rw [ofBlocks, ofBlocks, h.foldl_readBlock, h.foldl_readBlock, List.filterMap_append,
    List.filterMap_append, List.filterMap_cons, List.filterMap_cons, hb]

/-- What the last declaration of a name registers is changed before it is registered or after. -/
theorem part_ofBlocks_modify (h : Registers part entity? key) {v : α} {f : α → α}
    (hb : entity? b = some (f v)) (hb' : entity? b' = some v) (hkey : key (f v) = key v)
    (hbehind : ∀ c ∈ behind, ∀ w ∈ entity? c, key w ≠ key v) :
    part (ofBlocks (before ++ b :: behind)) =
        (part (ofBlocks (before ++ b' :: behind))).modify (key v) f ∧
      ((part (ofBlocks (before ++ b' :: behind))).get? (key v)).isSome = true := by
  have hlast : ∀ w ∈ behind.filterMap entity?, key w ≠ key v := by
    intro w hw
    obtain ⟨c, hc, hcw⟩ := List.mem_filterMap.mp hw
    exact hbehind c hc w hcw
  rw [ofBlocks, ofBlocks, h.foldl_readBlock, h.foldl_readBlock, List.filterMap_append,
    List.filterMap_append, List.filterMap_cons, List.filterMap_cons, hb, hb']
  refine ⟨OrderedMap.foldl_insert_modify hkey hlast _, ?_⟩
  rw [OrderedMap.get?_foldl_insert, OrderedMap.findRev?_of_last hlast]
  rfl

/-- A name that is not declared is not registered. -/
theorem get?_ofBlocks_eq_none (h : Registers part entity? key) (hempty : part empty = ∅)
    {bs : List Block} {name : String} (hbs : ∀ c ∈ bs, ∀ w ∈ entity? c, key w ≠ name) :
    (part (ofBlocks bs)).get? name = none := by
  have hnone : (bs.filterMap entity?).findRev? (fun w => key w = name) = none := by
    rw [List.findRev?_eq_find?_reverse, List.find?_eq_none]
    intro w hw
    obtain ⟨c, hc, hcw⟩ := List.mem_filterMap.mp (List.mem_reverse.mp hw)
    simpa using hbs c hc w hcw
  rw [ofBlocks, h.foldl_readBlock, OrderedMap.get?_foldl_insert, hnone, hempty]
  rfl

end Registers

end Model

/-! ### The last member of a declaration -/

/-- The declaration without its last member line, where what follows it in the body is kept. -/
structure Block.EndsWith (b b' : Block) (line : Line) : Prop where
  header : b'.header = b.header
  modifiers : b'.modifiers = b.modifiers
  body : ∃ front tail, b.body = front ++ [line, tail] ∧ b'.body = front ++ [tail] ∧
    memberLine? tail.text = none

namespace Block.EndsWith

variable {b b' : Block} {line : Line}

theorem declared (h : b.EndsWith b' line) : b'.header.declared = b.header.declared := by
  rw [h.header]

/-- Reading the body ends with the line, if what follows it is passed over. -/
theorem foldl_body (h : b.EndsWith b' line) {γ : Type} {read : γ → Line → γ}
    (hread : ∀ c tail, memberLine? tail.text = none → read c tail = c) (c : γ) :
    b.body.foldl read c = read (b'.body.foldl read c) line := by
  obtain ⟨front, tail, hbody, hbody', htail⟩ := h.body
  simp only [hbody, hbody', List.foldl_append, List.foldl_cons, List.foldl_nil, hread _ _ htail]

/-- The class with its last member. -/
theorem class?_eq (h : b.EndsWith b' line) {l : MemberLine} (hline : memberLine? line.text = some l)
    {c : Class} (hc : b'.class? = some c) : b.class? = some (c.addMember l line.modifiers) := by
  have hread : ∀ (c : Class) tail, memberLine? tail.text = none → (c.readLine tail).value = c := by
    intro c tail htail
    rw [Class.readLine, htail]
    rfl
  have hlast : ∀ c : Class, (c.readLine line).value = c.addMember l line.modifiers := by
    intro c
    rw [Class.readLine, hline]
    rfl
  unfold Block.class? at hc ⊢
  rw [h.header, h.modifiers] at hc
  cases hkind : b.header.kind with
  | ofClass isAbstract superclass interfaces =>
      simp only [hkind, Traced.value_foldlM, Option.some.injEq] at hc
      simp only [Traced.value_foldlM, h.foldl_body hread, hlast, hc]
  | ofInterface => simp [hkind] at hc
  | ofEnum => simp [hkind] at hc

/-- The interface with its last method. -/
theorem interface?_eq (h : b.EndsWith b' line) {l : MethodLine}
    (hline : methodLine? line.text = some l) {i : Interface} (hi : b'.interface? = some i) :
    b.interface? = some (i.addMethod (l.method line.modifiers)) := by
  have hread : ∀ (i : Interface) tail, memberLine? tail.text = none →
      (i.readLine tail).value = i := by
    intro i tail htail
    rw [memberLine?, Option.or_eq_none_iff, Option.map_eq_none_iff, Option.map_eq_none_iff] at htail
    rw [Interface.readLine, htail.2]
    rfl
  have hlast : ∀ i : Interface,
      (i.readLine line).value = i.addMethod (l.method line.modifiers) := by
    intro i
    rw [Interface.readLine, hline]
    rfl
  unfold Block.interface? at hi ⊢
  rw [h.header] at hi
  cases hkind : b.header.kind with
  | ofClass isAbstract superclass interfaces => simp [hkind] at hi
  | ofInterface =>
      simp only [hkind, Traced.value_foldlM, Option.some.injEq] at hi
      simp only [Traced.value_foldlM, h.foldl_body hread, hlast, hi]
  | ofEnum => simp [hkind] at hi

end Block.EndsWith

/-! ### What a declaration registers -/

theorem Declared.className?_eq_some_iff {d : Declared} {name : String} :
    d.className? = some name ↔ d = .ofClass name := by
  cases d <;> simp [Declared.className?]

theorem Declared.interfaceName?_eq_some_iff {d : Declared} {name : String} :
    d.interfaceName? = some name ↔ d = .ofInterface name := by
  cases d <;> simp [Declared.interfaceName?]

/-- What is registered under a name was declared. -/
theorem key_ne_of_declared {α : Type} {entity? : Block → Option α} {key : α → String}
    {name? : Declared → Option String} (h : ∀ b, (entity? b).map key = name? b.header.declared)
    {bs : List Block} {name : String} (hbs : ∀ c ∈ bs, name? c.header.declared ≠ some name) :
    ∀ c ∈ bs, ∀ w ∈ entity? c, key w ≠ name := by
  intro c hc w hw hname
  refine hbs c hc ?_
  rw [← h, Option.mem_def.mp hw, Option.map_some, hname]

/-- The declaration of a class registers a class and nothing else. -/
theorem Block.registers_class {b : Block} {name : String}
    (h : b.header.declared = .ofClass name) :
    b.interface? = none ∧ b.enum? = none ∧ ∃ c, b.class? = some c ∧ c.name = name := by
  have hclass := b.map_name_class?
  have hinterface := b.map_name_interface?
  have henum := b.map_name_enum?
  rw [h] at hclass hinterface henum
  exact ⟨Option.map_eq_none_iff.mp hinterface, Option.map_eq_none_iff.mp henum,
    Option.map_eq_some_iff.mp hclass⟩

/-- The declaration of an interface registers an interface and nothing else. -/
theorem Block.registers_interface {b : Block} {name : String}
    (h : b.header.declared = .ofInterface name) :
    b.class? = none ∧ b.enum? = none ∧ ∃ i, b.interface? = some i ∧ i.name = name := by
  have hclass := b.map_name_class?
  have hinterface := b.map_name_interface?
  have henum := b.map_name_enum?
  rw [h] at hclass hinterface henum
  exact ⟨Option.map_eq_none_iff.mp hclass, Option.map_eq_none_iff.mp henum,
    Option.map_eq_some_iff.mp hinterface⟩

/-! ### Attaching it instead -/

/-- Two models with the same parts are one. -/
theorem Model.eq_of_parts {m m' : Model} (hclasses : m.classes = m'.classes)
    (hinterfaces : m.interfaces = m'.interfaces) (henums : m.enums = m'.enums)
    (hassociations : m.associations = m'.associations) : m = m' := by
  cases m
  cases m'
  simp_all

section Attaching

variable {before behind : List Block} {b b' : Block} {line : Line} {name : String}

theorem associations_ofBlocks_congr (bs bs' : List Block) :
    (Model.ofBlocks bs).associations = (Model.ofBlocks bs').associations :=
  (Model.associations_ofBlocks bs).trans (Model.associations_ofBlocks bs').symm

/-- **A member of a class may be attached instead of being declared last.** -/
theorem value_attach_of_class (h : b.EndsWith b' line) {l : MemberLine}
    (hline : memberLine? line.text = some l) (hdeclared : b.header.declared = .ofClass name)
    (hbehind : ∀ c ∈ behind, c.header.declared ≠ .ofClass name) :
    ((Model.ofBlocks (before ++ b' :: behind)).attach ⟨name, l⟩ line.modifiers).value =
      Model.ofBlocks (before ++ b :: behind) := by
  obtain ⟨hinterface, henum, -⟩ := Block.registers_class hdeclared
  obtain ⟨hinterface', henum', c, hc, rfl⟩ := Block.registers_class (h.declared.trans hdeclared)
  have hlater : ∀ d ∈ behind, ∀ w ∈ d.class?, w.name ≠ c.name :=
    key_ne_of_declared Block.map_name_class? fun d hd hname =>
      hbehind d hd (Declared.className?_eq_some_iff.mp hname)
  have hkey : (c.addMember l line.modifiers).name = c.name := by
    cases l <;> rfl
  generalize hm : Model.ofBlocks (before ++ b :: behind) = m
  generalize hm' : Model.ofBlocks (before ++ b' :: behind) = m'
  have hclasses : m.classes = m'.classes.modify c.name (·.addMember l line.modifiers) ∧
      (m'.classes.get? c.name).isSome = true := by
    rw [← hm, ← hm']
    exact Model.registers_classes.part_ofBlocks_modify (h.class?_eq hline hc) hc hkey hlater
  have hmodel :
      { m' with classes := m'.classes.modify c.name (·.addMember l line.modifiers) } = m := by
    refine Model.eq_of_parts hclasses.1.symm ?_ ?_ ?_
    · rw [← hm, ← hm']
      exact Model.registers_interfaces.part_ofBlocks_congr (hinterface'.trans hinterface.symm)
    · rw [← hm, ← hm']
      exact Model.registers_enums.part_ofBlocks_congr (henum'.trans henum.symm)
    · rw [← hm, ← hm']
      exact associations_ofBlocks_congr _ _
  cases l with
  | field a =>
      have hadd : m'.addAttribute? c.name (a.attribute line.modifiers) = some m := by
        rw [Model.addAttribute?, Model.class?, if_pos hclasses.2]
        exact congrArg some hmodel
      simp only [Model.attach, hadd, Traced.value_pure]
  | method f =>
      have hadd : m'.addMethod? c.name (f.method line.modifiers) = some m := by
        rw [Model.addMethod?, Model.class?, if_pos hclasses.2]
        exact congrArg some hmodel
      simp only [Model.attach, hadd, Traced.value_pure]

/-- **A method of an interface may be attached instead of being declared last**, if there is no
class of the same name. -/
theorem value_attach_of_interface (h : b.EndsWith b' line) {l : MethodLine}
    (hline : methodLine? line.text = some l) (hdeclared : b.header.declared = .ofInterface name)
    (hbehind : ∀ c ∈ behind, c.header.declared ≠ .ofInterface name)
    (hclass : ∀ c ∈ before ++ b :: behind, c.header.declared ≠ .ofClass name) :
    ((Model.ofBlocks (before ++ b' :: behind)).attach ⟨name, .method l⟩ line.modifiers).value =
      Model.ofBlocks (before ++ b :: behind) := by
  obtain ⟨hnone, henum, -⟩ := Block.registers_interface hdeclared
  obtain ⟨hnone', henum', i, hi, rfl⟩ := Block.registers_interface (h.declared.trans hdeclared)
  have hlater : ∀ d ∈ behind, ∀ w ∈ d.interface?, w.name ≠ i.name :=
    key_ne_of_declared Block.map_name_interface? fun d hd hname =>
      hbehind d hd (Declared.interfaceName?_eq_some_iff.mp hname)
  have hclasses : (Model.ofBlocks (before ++ b' :: behind)).classes =
      (Model.ofBlocks (before ++ b :: behind)).classes :=
    Model.registers_classes.part_ofBlocks_congr (hnone'.trans hnone.symm)
  have habsent : (Model.ofBlocks (before ++ b :: behind)).classes.get? i.name = none :=
    Model.registers_classes.get?_ofBlocks_eq_none rfl
      (key_ne_of_declared Block.map_name_class? fun d hd hname =>
        hclass d hd (Declared.className?_eq_some_iff.mp hname))
  generalize hm : Model.ofBlocks (before ++ b :: behind) = m at hclasses habsent
  generalize hm' : Model.ofBlocks (before ++ b' :: behind) = m' at hclasses
  have hinterfaces : m.interfaces = m'.interfaces.modify i.name
      (·.addMethod (l.method line.modifiers)) ∧ (m'.interfaces.get? i.name).isSome = true := by
    rw [← hm, ← hm']
    exact Model.registers_interfaces.part_ofBlocks_modify (h.interface?_eq hline hi) hi rfl hlater
  have hmodel : { m' with
      interfaces := m'.interfaces.modify i.name (·.addMethod (l.method line.modifiers)) } = m := by
    refine Model.eq_of_parts hclasses hinterfaces.1.symm ?_ ?_
    · rw [← hm, ← hm']
      exact Model.registers_enums.part_ofBlocks_congr (henum'.trans henum.symm)
    · rw [← hm, ← hm']
      exact associations_ofBlocks_congr _ _
  have hadd : m'.addMethod? i.name (l.method line.modifiers) = some m := by
    rw [← hclasses] at habsent
    rw [Model.addMethod?, Model.class?, Model.interface?, if_neg (by simp [habsent]),
      if_pos hinterfaces.2]
    exact congrArg some hmodel
  simp only [Model.attach, hadd, Traced.value_pure]

end Attaching

/-! ### Outlines -/

/-- A statement that attaches no member. -/
def Standalone.AttachesNothing (s : Standalone) : Prop :=
  ∀ m : Model, (m.readInline s).value = m

theorem attachesNothing_ofLine {l : Line} (h : inlineMember? l.text = none) :
    (Standalone.ofLine l).AttachesNothing := by
  intro m
  rw [Standalone.ofLine, h]
  cases composition? l.text with
  | some r => rfl
  | none => cases plainAssociation? l.text <;> rfl

theorem foldl_readInline_of_attachesNothing {ss : List Standalone}
    (h : ∀ s ∈ ss, s.AttachesNothing) (m : Model) :
    ss.foldl (fun m s => (m.readInline s).value) m = m := by
  induction ss with
  | nil => rfl
  | cons s ss ih =>
      obtain ⟨hs, hss⟩ := List.forall_mem_cons.mp h
      rw [List.foldl_cons, hs m, ih hss]

/-- **The last member of a declaration may be the first that is attached.** -/
theorem value_readOutline_moved {o o' : Outline} {before behind : List Standalone}
    {member : InlineMember} {modifiers : Modifiers} (hstatements : o.statements = before ++ behind)
    (hstatements' : o'.statements = before ++ .inline member modifiers :: behind)
    (hbefore : ∀ s ∈ before, s.AttachesNothing)
    (hattach : ((Model.ofBlocks o'.blocks).attach member modifiers).value =
      Model.ofBlocks o.blocks) :
    (Model.empty.readOutline o').value = (Model.empty.readOutline o).value := by
  have hfirst := foldl_readInline_of_attachesNothing hbefore
  have hinline : ∀ m : Model, (m.readInline (.inline member modifiers)).value =
      (m.attach member modifiers).value := fun m => rfl
  have hcomposition : ∀ m : Model, m.readComposition (.inline member modifiers) = m := fun m => rfl
  have hplain : ∀ m : Model, (m.readPlain (.inline member modifiers)).value = m := fun m => rfl
  rw [Model.ofBlocks, Model.ofBlocks] at hattach
  rw [value_readOutline, value_readOutline, hstatements, hstatements']
  simp only [List.foldl_append, List.foldl_cons, hfirst, hinline, hcomposition, hplain, hattach]

/-! ### Texts -/

/-- What the lines of a text declare. -/
def declarations (lines : List (List Char)) : List Declared :=
  (blocksOf lines).map fun b => b.header.declared

/-- The standalone lines of a text. -/
def standaloneOf (lines : List (List Char)) : List Line :=
  (Outline.ofLines (lines.map strippedLine)).standalone

/-- A declaration owns a member line with the type in front, if there is no other declaration
that the member could be meant for. -/
inductive Owns (declared : List Declared) (name : String) (line : List Char) : Declared → Prop where
  | ofClass (once : declared.count (.ofClass name) = 1)
      (reads : (accept (fullLine typeNameAttribute) line).isSome = true ∨
        (accept (fullLine typeNameMethod) line).isSome = true) :
      Owns declared name line (.ofClass name)
  | ofInterface (once : declared.count (.ofInterface name) = 1)
      (no_class : .ofClass name ∉ declared)
      (reads : (accept (fullLine typeNameMethod) line).isSome = true) :
      Owns declared name line (.ofInterface name)

/-- The second text is the first one with the last member line of a declaration moved out of the
body, to the line that attaches the member. -/
structure MovedOut (text text' : String) where
  name : String
  member : List Char
  header : List Char
  opening : List (List Char)
  closing : List Char
  before : List (List (List Char))
  behind : List (List (List Char))
  front : List (List (List Char))
  back : List (List (List Char))
  /-- The line stands in front of the one that closes the body of a declaration. -/
  visits_text : visits strippedLine (splitOnChar '\n' text.toList) =
    before ++ (header :: (opening ++ [member, closing])) :: behind
  /-- It is taken out there, and put in between two visits. -/
  visits_rest : front ++ back = before ++ (header :: (opening ++ [closing])) :: behind
  lines_text' : splitOnChar '\n' text'.toList =
    (front ++ [inlineText name member] :: back).flatten
  /-- The declaration is the one that the member belongs to. -/
  owner : ∃ h, header? (strippedLine header).text = some h ∧
    Owns (declarations (splitOnChar '\n' text.toList)) name (strippedLine member).text h.declared
  no_braces : ∀ c ∈ (strippedLine member).text, isBrace c = false
  /-- There is no further member on the closing line. -/
  last : ∀ b ∈ blocksOf (header :: (opening ++ [member, closing])), ∀ l ∈ b.body.getLast?,
    memberLine? l.text = none
  /-- No standalone line in front attaches a member. -/
  first : ∀ c ∈ front, ∀ l ∈ standaloneOf c, inlineMember? l.text = none

/-- A line that a member is read of is not blank. -/
theorem not_blank_of_endsIn {α : Type} {c : Char → Bool} {p : LineParser α} (hp : EndsIn c p)
    (hc : ∀ d, c d = true → isBlank d = false ∧ isSpace d = false) {line : List Char}
    (h : (accept (fullLine p) line).isSome = true) : isBlankText line = false := by
  obtain ⟨a, ha⟩ := Option.isSome_iff_exists.mp h
  obtain ⟨d, hd, hcd⟩ := hp.getLast (fun d hd => (hc d hd).2) ha
  have hmem : d ∈ line :=
    List.mem_reverse.mp ((List.dropWhile_suffix _).subset (List.mem_of_mem_head? hd))
  rw [← Bool.not_eq_true, isBlankText, List.all_eq_true]
  intro hblank
  have := hblank d hmem
  rw [(hc d hcd).1] at this
  cases this

/-- A field says the same in a body and outside. -/
theorem reads_typeNameAttribute {name : String} {line : List Char} (hname : IsWord name.toList)
    (h : (accept (fullLine typeNameAttribute) line).isSome = true) :
    isBlankText line = false ∧ ∃ a, memberLine? line = some (.field a) ∧
      inlineMember? (inlineText name line) = some ⟨name, .field a⟩ := by
  obtain ⟨a, ha⟩ := Option.isSome_iff_exists.mp h
  have hend : ∀ c, isWordChar c = true → isBlank c = false ∧ isSpace c = false := fun c hc =>
    ⟨isBlank_of_isWordChar hc, isSpace_of_isWordChar hc⟩
  exact ⟨not_blank_of_endsIn .typeNameAttribute hend h, a, memberLine?_of_typeNameAttribute ha,
    (inlineMember?_of_typeNameAttribute hname ha).2⟩

/-- A method says the same in the body of a class or of an interface and outside. -/
theorem reads_typeNameMethod {name : String} {line : List Char} (hname : IsWord name.toList)
    (h : (accept (fullLine typeNameMethod) line).isSome = true) :
    isBlankText line = false ∧ ∃ f, methodLine? line = some f ∧
      memberLine? line = some (.method f) ∧
      inlineMember? (inlineText name line) = some ⟨name, .method f⟩ := by
  obtain ⟨f, hf⟩ := Option.isSome_iff_exists.mp h
  have hend : ∀ c, (c == ')') = true → isBlank c = false ∧ isSpace c = false := by
    intro c hc
    rw [eq_of_beq hc]
    exact ⟨rfl, rfl⟩
  exact ⟨not_blank_of_endsIn .typeNameMethod hend h, f, (methodLine?_of_typeNameMethod hf).1,
    memberLine?_of_typeNameMethod hf, (inlineMember?_of_typeNameMethod hname hf).2⟩

/-- What an owned line says. -/
theorem Owns.reads_member {declared : List Declared} {name : String} {line : List Char}
    {d : Declared} (h : Owns declared name line d) (hname : IsWord name.toList) :
    isBlankText line = false ∧
      ∃ l, memberLine? line = some l ∧ inlineMember? (inlineText name line) = some ⟨name, l⟩ ∧
        (d = .ofInterface name → ∃ f, l = .method f ∧ methodLine? line = some f) := by
  cases h with
  | ofClass _ reads =>
      rcases reads with reads | reads
      · obtain ⟨hblank, a, hmember, hinline⟩ := reads_typeNameAttribute hname reads
        exact ⟨hblank, .field a, hmember, hinline, fun hd => by cases hd⟩
      · obtain ⟨hblank, f, hmethod, hmember, hinline⟩ := reads_typeNameMethod hname reads
        exact ⟨hblank, .method f, hmember, hinline, fun _ => ⟨f, rfl, hmethod⟩⟩
  | ofInterface _ _ reads =>
      obtain ⟨hblank, f, hmethod, hmember, hinline⟩ := reads_typeNameMethod hname reads
      exact ⟨hblank, .method f, hmember, hinline, fun _ => ⟨f, rfl, hmethod⟩⟩

theorem Owns.name_eq {declared : List Declared} {name : String} {line : List Char} {h : Header}
    (howns : Owns declared name line h.declared) : h.name = name := by
  unfold Header.declared at howns
  cases hkind : h.kind with
  | ofClass isAbstract superclass interfaces =>
      rw [hkind] at howns
      cases howns
      rfl
  | ofInterface =>
      rw [hkind] at howns
      cases howns
      rfl
  | ofEnum =>
      rw [hkind] at howns
      cases howns

/-- The outline of lines is read off their visits. -/
theorem outline_of_visits {lines : List (List Char)} {chunks : List (List (List Char))}
    (h : visits strippedLine lines = chunks) :
    blocksOf lines = chunks.flatMap blocksOf ∧
      standaloneOf lines = chunks.flatMap standaloneOf := by
  rw [blocksOf, standaloneOf, ofLines_map_view, h, Outline.join]
  exact ⟨List.flatMap_map .., List.flatMap_map ..⟩

/-- A diagram is read off the outline of its lines. -/
theorem value_read_lines (text : String) :
    (Diagram.read text).value = (Model.empty.readOutline
      (Outline.ofLines ((splitOnChar '\n' text.toList).map strippedLine))).value := by
  rw [← value_stripModifiers]
  rfl

/-- A line that attaches what an inert line says is inert as well. -/
theorem Line.Inert.inlineText {name : String} {line : List Char} (h : (strippedLine line).Inert)
    (hname : IsWord name.toList) : (strippedLine (inlineText name line)).Inert := by
  rw [strippedLine_inlineText hname]
  constructor
  · intro c hc
    rcases List.mem_append.mp hc with hc | hc
    · exact isBrace_of_isWordChar (hname.chars c hc)
    · simp only [List.mem_cons] at hc
      rcases hc with rfl | rfl | rfl | hc
      · rfl
      · rfl
      · rfl
      · exact h.braces c hc
  · rw [← Bool.not_eq_true, isBlankText, List.all_eq_true]
    intro hblank
    exact absurd (hblank ':' (by simp [ClassModel.inlineText])) (by decide)

namespace MovedOut

variable {text text' : String}

/-- The two outlines: one member line is missing in a body of the second, and a standalone line is
there instead. -/
theorem outlines (x : MovedOut text text') (hm : (strippedLine x.member).Inert)
    (hx : (strippedLine (inlineText x.name x.member)).Inert)
    (hsilent : header? (strippedLine (inlineText x.name x.member)).text = none) :
    ∃ b b', b.EndsWith b' (strippedLine x.member) ∧
      header? (strippedLine x.header).text = some b.header ∧
      blocksOf (splitOnChar '\n' text.toList) =
        x.before.flatMap blocksOf ++ b :: x.behind.flatMap blocksOf ∧
      blocksOf (splitOnChar '\n' text'.toList) =
        x.before.flatMap blocksOf ++ b' :: x.behind.flatMap blocksOf ∧
      standaloneOf (splitOnChar '\n' text.toList) =
        x.front.flatMap standaloneOf ++ x.back.flatMap standaloneOf ∧
      standaloneOf (splitOnChar '\n' text'.toList) = x.front.flatMap standaloneOf ++
        strippedLine (inlineText x.name x.member) :: x.back.flatMap standaloneOf := by
  obtain ⟨_, _, after, o, hcons, -, hvisit, -⟩ :=
    visits_eq_cons_iff.mp (visits_of_append x.visits_text)
  obtain ⟨rfl, rfl⟩ := List.cons.inj hcons
  obtain ⟨h, front, tail, hheader, rfl, hremoved⟩ := hvisit.remove hm
  have hchunk := hvisit.ofLines_used
  have hchunk' := (hremoved []).ofLines_used
  have hvisitLine : Visit strippedLine (inlineText x.name x.member) [] [] _ := .standalone hsilent
  have hsingle := hvisitLine.ofLines_used
  let b : Block := ⟨h, (strippedLine x.header).modifiers, front ++ [strippedLine x.member, tail]⟩
  let b' : Block := ⟨h, (strippedLine x.header).modifiers, front ++ [tail]⟩
  have hblocks : blocksOf (x.header :: (x.opening ++ [x.member, x.closing])) = [b] := by
    rw [blocksOf, hchunk]
  have hends : b.EndsWith b' (strippedLine x.member) :=
    ⟨rfl, rfl, front, tail, rfl, rfl, x.last b (by simp [hblocks]) tail (by simp [b])⟩
  obtain ⟨hfound, hstanding⟩ := outline_of_visits x.visits_text
  have hvisits' := visits_moved x.visits_text x.visits_rest hm hx hsilent
  rw [← x.lines_text'] at hvisits'
  obtain ⟨hfound', hstanding'⟩ := outline_of_visits hvisits'
  have hrestBlocks := congrArg (List.flatMap blocksOf) x.visits_rest
  have hrestLines := congrArg (List.flatMap standaloneOf) x.visits_rest
  rw [List.flatMap_append, List.flatMap_append, List.flatMap_cons, blocksOf, hchunk'] at hrestBlocks
  rw [List.flatMap_append, List.flatMap_append, List.flatMap_cons, standaloneOf,
    hchunk'] at hrestLines
  refine ⟨b, b', hends, hheader, ?_, ?_, ?_, ?_⟩
  · rw [hfound, List.flatMap_append, List.flatMap_cons, hblocks]
    rfl
  · have hnone : blocksOf [inlineText x.name x.member] = [] := by rw [blocksOf, hsingle]
    rw [hfound', List.flatMap_append, List.flatMap_cons, hnone, List.nil_append, hrestBlocks]
    rfl
  · rw [hstanding, List.flatMap_append, List.flatMap_cons, standaloneOf, hchunk, hrestLines]
  · rw [hstanding', List.flatMap_append, List.flatMap_cons, standaloneOf, hsingle]
    rfl

/-- The declarations register the same once the member is attached. -/
theorem value_attach {b b' : Block} {before behind : List Block} {line : Line} {name : String}
    {l : MemberLine} (hends : b.EndsWith b' line)
    (howns : Owns ((before ++ b :: behind).map fun c => c.header.declared) name line.text
      b.header.declared)
    (hline : memberLine? line.text = some l)
    (hmethod : b.header.declared = .ofInterface name →
      ∃ f, l = .method f ∧ methodLine? line.text = some f) :
    ((Model.ofBlocks (before ++ b' :: behind)).attach ⟨name, l⟩ line.modifiers).value =
      Model.ofBlocks (before ++ b :: behind) := by
  have hlater : ∀ d : Declared, b.header.declared = d →
      ((before ++ b :: behind).map fun c => c.header.declared).count d = 1 →
      ∀ c ∈ behind, c.header.declared ≠ d := by
    intro d hd hcount c hc hcd
    rw [List.map_append, List.map_cons, List.count_append, hd, List.count_cons_self] at hcount
    have hnone : (behind.map fun c => c.header.declared).count d = 0 := by omega
    exact List.count_eq_zero.mp hnone (List.mem_map.mpr ⟨c, hc, hcd⟩)
  generalize hd : b.header.declared = d at howns
  cases howns with
  | ofClass once => exact value_attach_of_class hends hline hd (hlater _ hd once)
  | ofInterface once no_class =>
      obtain ⟨f, rfl, hf⟩ := hmethod hd
      refine value_attach_of_interface hends hf hd (hlater _ hd once) fun c hc hcd => ?_
      exact no_class (List.mem_map.mpr ⟨c, hc, hcd⟩)

/-- **A member means the same in its declaration and on a line of its own.** -/
theorem value_read (x : MovedOut text text') :
    (Diagram.read text').value = (Diagram.read text).value := by
  obtain ⟨h, hheader, howns⟩ := x.owner
  have hname : IsWord x.name.toList := by
    rw [← howns.name_eq]
    exact (header?_eq_some hheader).1
  obtain ⟨hblank, l, hline, hinline, hmethod⟩ := howns.reads_member hname
  have hm : (strippedLine x.member).Inert := ⟨x.no_braces, hblank⟩
  have hstripped := strippedLine_inlineText hname x.member
  have hx := hm.inlineText hname
  have hsilent : header? (strippedLine (inlineText x.name x.member)).text = none := by
    rw [hstripped]
    exact header?_inlineText hname _
  obtain ⟨b, b', hends, hb, hblocks, hblocks', hstanding, hstanding'⟩ := x.outlines hm hx hsilent
  rw [hheader] at hb
  obtain rfl : h = b.header := Option.some.inj hb
  have hsays : Standalone.ofLine (strippedLine (inlineText x.name x.member)) =
      .inline ⟨x.name, l⟩ (strippedLine x.member).modifiers := by
    rw [hstripped, Standalone.ofLine]
    simp only [hinline]
  rw [declarations, hblocks] at howns
  have hattach := value_attach hends howns hline hmethod
  rw [← hblocks, ← hblocks'] at hattach
  rw [value_read_lines, value_read_lines]
  have hstatements :=
    congrArg (fun ls => (ls.map Standalone.ofLine).filter Standalone.speaks) hstanding
  have hstatements' :=
    congrArg (fun ls => (ls.map Standalone.ofLine).filter Standalone.speaks) hstanding'
  simp only [List.map_append, List.map_cons, List.filter_append, hsays] at hstatements hstatements'
  rw [List.filter_cons_of_pos rfl] at hstatements'
  refine value_readOutline_moved hstatements hstatements' ?_ hattach
  intro s hs
  obtain ⟨line, hmem, rfl⟩ := List.mem_map.mp (List.mem_filter.mp hs).1
  obtain ⟨c, hc, hlc⟩ := List.mem_flatMap.mp hmem
  exact attachesNothing_ofLine (x.first c hc line hlc)

end MovedOut

/-- **A member line with the type in front means the same inside a body and outside.**

What the line says in the body of a type is what it says behind the name of the type and a colon,
with the same modifiers, and there it is no header.  So the model of a diagram does not change
when the last member of a declaration is moved to a line of its own in front of all lines that
attach members. -/
theorem member_inside_or_outside :
    (∀ (name : String) (line : List Char), IsWord name.toList →
      (∀ l, accept (fullLine typeNameAttribute) line = some l →
        memberLine? line = some (.field l) ∧
        accept (fullLine inlineAttribute) (inlineText name line) = some ⟨name, .field l⟩ ∧
        ∀ modifiers, Standalone.ofLine { text := inlineText name line, modifiers } =
          .inline ⟨name, .field l⟩ modifiers) ∧
      (∀ l, accept (fullLine typeNameMethod) line = some l →
        memberLine? line = some (.method l) ∧
        accept (fullLine inlineMethod) (inlineText name line) = some ⟨name, .method l⟩ ∧
        ∀ modifiers, Standalone.ofLine { text := inlineText name line, modifiers } =
          .inline ⟨name, .method l⟩ modifiers) ∧
      header? (inlineText name line) = none ∧
      strippedLine (inlineText name line) =
        { text := inlineText name (strippedLine line).text,
          modifiers := (strippedLine line).modifiers }) ∧
    ∀ (text text' : String), MovedOut text text' →
      (Diagram.read text').value = (Diagram.read text).value := by
  refine ⟨fun name line hname => ⟨fun l h => ?_, fun l h => ?_, header?_inlineText hname line,
    strippedLine_inlineText hname line⟩, fun text text' x => x.value_read⟩
  · obtain ⟨hinline, hmember⟩ := inlineMember?_of_typeNameAttribute hname h
    refine ⟨memberLine?_of_typeNameAttribute h, hinline, fun modifiers => ?_⟩
    simp only [Standalone.ofLine, hmember]
  · obtain ⟨hinline, hmember⟩ := inlineMember?_of_typeNameMethod hname h
    refine ⟨memberLine?_of_typeNameMethod h, hinline, fun modifiers => ?_⟩
    simp only [Standalone.ofLine, hmember]

/-- A class whose last member is static. -/
def libraryText : String :=
  "@startuml\nclass Shelf\n\n  \x7b\n\tBook first\n\t- \x7bstatic\x7d int count()\n  \x7d\n" ++
    "Shelf *-- Book"

/-- The same class with the member outside. -/
def libraryText' : String :=
  "@startuml\nShelf : \t- \x7bstatic\x7d int count()\nclass Shelf\n\n  \x7b\n\tBook first\n" ++
    "  \x7d\nShelf *-- Book"

/-- The line that is moved, and the lines around it. -/
def libraryMoved : MovedOut libraryText libraryText' where
  name := "Shelf"
  member := "\t- \x7bstatic\x7d int count()".toList
  header := "class Shelf".toList
  opening := [[], "  \x7b".toList, "\tBook first".toList]
  closing := "  \x7d".toList
  before := [["@startuml".toList]]
  behind := [["Shelf *-- Book".toList]]
  front := [["@startuml".toList]]
  back := [["class Shelf".toList, [], "  \x7b".toList, "\tBook first".toList, "  \x7d".toList],
    ["Shelf *-- Book".toList]]
  visits_text := by decide +kernel
  visits_rest := by decide +kernel
  lines_text' := by decide +kernel
  owner := ⟨⟨"Shelf", .ofClass false none [], none⟩, by decide +kernel,
    .ofClass (by decide +kernel) (.inr (by decide +kernel))⟩
  no_braces := by decide +kernel
  last := by decide +kernel
  first := by decide +kernel

theorem member_inside_or_outside_library :
    accept (fullLine inlineMethod) (inlineText "Shelf" "\t-  int count()".toList) =
        some ⟨"Shelf", .method { visibility := some .priv, isAbstract := false, name := "count",
                                 returnType := some "int", parameters := [] }⟩ ∧
      (Diagram.read libraryText').value = (Diagram.read libraryText).value := by
  obtain ⟨hlines, hmoved⟩ := member_inside_or_outside
  obtain ⟨-, hmethod, -, -⟩ := hlines "Shelf" "\t-  int count()".toList (by decide)
  exact ⟨(hmethod _ (by decide +kernel)).2.1, hmoved _ _ libraryMoved⟩

end ClassModel
