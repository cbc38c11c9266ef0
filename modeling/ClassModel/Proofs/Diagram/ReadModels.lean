/-
What is read of any diagram at all.

A text is cut into lines, lines are sorted into bodies, and each line adds at most one thing
to the model.  None of these steps makes up a character: a body line is a part of a line, and
a line is a part of the text.  So every type in a model that was read stands on one line, and
with what is known of single lines the model can be drawn.

It was also built by adding to the empty model, so everything in it stands under its own
name.  `Model.Sound` is both, and every step of the reader preserves it.
-/
import ClassModel.Proofs.Construction
import ClassModel.Proofs.Diagram.Extents
import ClassModel.Proofs.Diagram.Openings
import ClassModel.Proofs.Diagram.Outlines
import ClassModel.Proofs.Diagram.Readings

namespace ClassModel

open LineParser

/-! ### Lines of a text -/

/-- No piece of a text holds the separator. -/
theorem not_mem_of_mem_splitOnChar {c : Char} {s p : List Char} (h : p ∈ splitOnChar c s) :
    c ∉ p := by
  induction s generalizing p with
  | nil =>
      rcases List.mem_singleton.mp h with rfl
      exact List.not_mem_nil
  | cons d r ih =>
      rw [splitOnChar] at h
      by_cases hd : d = c
      · rw [if_pos hd] at h
        rcases List.mem_cons.mp h with rfl | h
        · exact List.not_mem_nil
        · exact ih h
      · rw [if_neg hd] at h
        rcases hs : splitOnChar c r with _ | ⟨q, qs⟩
        · exact absurd hs (splitOnChar_ne_nil c r)
        · rw [hs] at h
          rcases List.mem_cons.mp h with rfl | h
          · rw [List.mem_cons, not_or]
            exact ⟨Ne.symm hd, ih (by rw [hs]; exact List.mem_cons_self)⟩
          · exact ih (by rw [hs]; exact List.mem_cons_of_mem _ h)

/-- Taking modifiers out adds no character. -/
theorem mem_of_mem_strippedLine {line : List Char} {c : Char} (h : c ∈ (strippedLine line).text) :
    c ∈ line := by
  have hdrop : dropReturn line ⊆ line := by
    intro d hd
    unfold dropReturn at hd
    split at hd
    · exact List.dropLast_subset _ hd
    · exact hd
  have hsegments : (strippedLine line).text = (segments (dropReturn line)).filterMap Segment.char? :=
    rfl
  rw [hsegments, List.mem_filterMap] at h
  obtain ⟨x, hx, hc⟩ := h
  cases x with
  | modifier w => cases hc
  | text d =>
      cases hc
      refine hdrop ?_
      rw [← flatMap_source_segments (dropReturn line), List.mem_flatMap]
      exact ⟨_, hx, List.mem_singleton.mpr rfl⟩

/-- No line of a text holds a line feed, with its modifiers or without. -/
theorem not_mem_stripModifiers {text : List Char} {l : Line}
    (h : l ∈ (stripModifiers text).value) : '\n' ∉ l.text := by
  rw [value_stripModifiers] at h
  obtain ⟨line, hline, rfl⟩ := List.mem_map.mp h
  exact fun hc => not_mem_of_mem_splitOnChar hline (mem_of_mem_strippedLine hc)

/-! ### Lines of a body -/

/-- The lines of a body are lines, the last of them cut short. -/
theorem mem_gatherBody {inner : Nat} {line : Line} {following body after : List Line}
    (h : gatherBody inner line following = some (body, after)) :
    (∀ l ∈ body, ∃ k ∈ line :: following, l.text <+: k.text) ∧ after <:+ following := by
  obtain ⟨⟨front, closing, last, behind, hlines, htext, rfl⟩, -⟩ := gatherBody_eq_some_iff.mp h
  rw [hlines]
  refine ⟨fun l hl => ?_, ?_⟩
  · rcases List.mem_append.mp hl with hl | hl
    · exact ⟨l, by simp [hl], List.prefix_rfl⟩
    · rcases List.mem_singleton.mp hl with rfl
      exact ⟨closing, by simp, _, htext.symm⟩
  · -- The first line is gathered, even if it is the one that closes the body.
    cases front with
    | nil =>
        obtain ⟨-, rfl⟩ := List.cons.inj hlines
        exact List.suffix_rfl
    | cons f front =>
        obtain ⟨-, rfl⟩ := List.cons.inj hlines
        exact (List.suffix_cons closing after).trans (List.suffix_append front _)

theorem openingLine?_eq_some {lines after : List Line} {first : Line}
    (h : openingLine? lines = some (first, after)) :
    (∃ k ∈ lines, first.text <:+ k.text) ∧ after <:+ lines := by
  obtain ⟨blank, line, gap, text, rfl, -, -, htext, rfl⟩ := openingLine?_eq_some_iff.mp h
  refine ⟨⟨line, by simp, ?_⟩, (List.suffix_cons line after).trans (List.suffix_append blank _)⟩
  rw [htext]
  exact (List.suffix_cons _ text).trans (List.suffix_append gap _)

/-- The lines of a body are parts of the text behind the brace or of the lines that follow. -/
theorem mem_collectBody {header : Line} {rest : Option (List Char)}
    {following body after : List Line}
    (h : collectBody header rest following = some (body, after)) :
    (∀ l ∈ body, (∃ t ∈ rest, l.text <:+: t) ∨ ∃ k ∈ following, l.text <:+: k.text) ∧
      after <:+ following := by
  cases rest with
  | some text =>
      obtain ⟨hbody, hafter⟩ := mem_gatherBody h
      refine ⟨fun l hl => ?_, hafter⟩
      obtain ⟨k, hk, hp⟩ := hbody l hl
      rcases List.mem_cons.mp hk with rfl | hk
      · exact Or.inl ⟨text, rfl, hp.isInfix⟩
      · exact Or.inr ⟨k, hk, hp.isInfix⟩
  | none =>
      rw [collectBody, Option.bind_eq_bind, Option.bind_eq_some_iff] at h
      obtain ⟨⟨first, mid⟩, ho, hg⟩ := h
      obtain ⟨⟨k, hk, hs⟩, hmid⟩ := openingLine?_eq_some ho
      obtain ⟨hbody, hafter⟩ := mem_gatherBody hg
      refine ⟨fun l hl => Or.inr ?_, hafter.trans hmid⟩
      obtain ⟨j, hj, hp⟩ := hbody l hl
      rcases List.mem_cons.mp hj with rfl | hj
      · exact ⟨k, hk, hp.isInfix.trans hs.isInfix⟩
      · exact ⟨j, hmid.subset hj, hp.isInfix⟩

/-- What stands behind the brace of a header is an end of its line. -/
theorem body_suffix_of_header? {line : List Char} {h : Header} (hh : header? line = some h) :
    ∀ t ∈ h.body, t <:+ line := by
  intro t ht
  rw [body_of_header? hh] at ht
  exact afterBrace?_suffix ht

/-- An outline made of lines.  Headers are read of whole lines, and bodies may begin and end
inside a line. -/
structure Outline.MadeOf (o : Outline) (lines : List Line) : Prop where
  header : ∀ b ∈ o.blocks, ∃ k ∈ lines, header? k.text = some b.header
  body : ∀ b ∈ o.blocks, ∀ l ∈ b.body, ∃ k ∈ lines, l.text <:+: k.text
  /-- Only lines that declare nothing stand alone. -/
  standalone : ∀ l ∈ o.standalone, l ∈ lines ∧ header? l.text = none

namespace Outline.MadeOf

variable {o : Outline} {lines lines' : List Line}

theorem mono (h : o.MadeOf lines) (hsub : lines ⊆ lines') : o.MadeOf lines' where
  header b hb := by
    obtain ⟨k, hk, hh⟩ := h.header b hb
    exact ⟨k, hsub hk, hh⟩
  body b hb l hl := by
    obtain ⟨k, hk, hi⟩ := h.body b hb l hl
    exact ⟨k, hsub hk, hi⟩
  standalone l hl := (h.standalone l hl).imp_left fun hl => hsub hl

theorem addBlock (h : o.MadeOf lines) {b : Block}
    (hheader : ∃ k ∈ lines, header? k.text = some b.header)
    (hbody : ∀ l ∈ b.body, ∃ k ∈ lines, l.text <:+: k.text) :
    Outline.MadeOf { o with blocks := b :: o.blocks } lines where
  header := List.forall_mem_cons.mpr ⟨hheader, h.header⟩
  body := List.forall_mem_cons.mpr ⟨hbody, h.body⟩
  standalone := h.standalone

theorem addStandalone (h : o.MadeOf lines) {l : Line} (hl : l ∈ lines)
    (hnone : header? l.text = none) :
    Outline.MadeOf { o with standalone := l :: o.standalone } lines :=
  { h with standalone := List.forall_mem_cons.mpr ⟨⟨hl, hnone⟩, h.standalone⟩ }

end Outline.MadeOf

/-- **The outline of some lines is made of parts of them.** -/
theorem madeOf_ofLines (lines : List Line) : (Outline.ofLines lines).MadeOf lines := by
  induction lines using Outline.ofLines.induct with
  | case1 =>
      rw [ofLines_nil]
      exact ⟨fun _ hb => absurd hb List.not_mem_nil, fun _ hb => absurd hb List.not_mem_nil,
        fun _ hl => absurd hl List.not_mem_nil⟩
  | case2 line rest hh ih =>
      rw [ofLines_standalone hh]
      exact (ih.mono (List.subset_cons_self line rest)).addStandalone List.mem_cons_self hh
  | case3 line rest h hh body after hc ih =>
      obtain ⟨hbody, hafter⟩ := mem_collectBody hc
      have hsub : after ⊆ line :: rest := fun k hk => List.mem_cons_of_mem _ (hafter.subset hk)
      rw [ofLines_block hh hc]
      refine (ih.mono hsub).addBlock ⟨line, List.mem_cons_self, hh⟩ fun l hl => ?_
      rcases hbody l hl with ⟨t, ht, hi⟩ | ⟨k, hk, hi⟩
      · exact ⟨line, List.mem_cons_self, hi.trans (body_suffix_of_header? hh t ht).isInfix⟩
      · exact ⟨k, List.mem_cons_of_mem _ hk, hi⟩
  | case4 line rest h hh hc ih =>
      rw [ofLines_bare hh hc]
      exact (ih.mono (List.subset_cons_self line rest)).addBlock ⟨line, List.mem_cons_self, hh⟩
        fun _ hl => absurd hl List.not_mem_nil

/-! ### Sound entities -/

/-- A class that can be drawn, with its members under their names. -/
structure Class.Sound (c : Class) : Prop where
  drawable : c.Drawable
  keyed : c.Keyed

/-- An interface that can be drawn, with its methods under their names. -/
structure Interface.Sound (i : Interface) : Prop where
  drawable : i.Drawable
  keyed : i.methods.Keyed Method.name

/-- An enum that can be drawn, with its constants under their names. -/
structure Enum.Sound (e : Enum) : Prop where
  drawable : e.Drawable
  keyed : e.properties.Keyed EnumProperty.name

/-- A model that can be drawn, with everything in it under its name. -/
structure Model.Sound (m : Model) : Prop where
  drawable : m.Drawable
  keyed : m.Keyed

theorem AttributeLine.FoundIn.drawable {l : AttributeLine} {s : List Char} (h : l.FoundIn s)
    (hs : '\n' ∉ s) (m : Modifiers) : (l.attribute m).Drawable :=
  ⟨h.name, h.type, fun hc => hs (h.found.subset hc)⟩

/-- A method without a type is `void`. -/
theorem MethodLine.FoundIn.drawable {l : MethodLine} {s : List Char} (h : l.FoundIn s)
    (hs : '\n' ∉ s) (m : Modifiers) : (l.method m).Drawable := by
  have htype : IsType TypeSuffix.Readable (l.returnType.getD "void").toList := by
    cases hr : l.returnType with
    | none => exact IsType.of_isWord (by decide)
    | some t => exact h.returnType t hr
  refine ⟨⟨h.name, htype, h.listed, h.parameterName, h.parameterType, h.noParenthesis⟩, ?_⟩
  have htypes : '\n' ∉ l.typesText := fun hc => hs (h.chars _ hc)
  rw [MethodLine.typesText, List.mem_append, not_or] at htypes
  rw [Method.typesText, List.mem_append, not_or]
  refine ⟨?_, htypes.2⟩
  show '\n' ∉ (l.returnType.getD "void").toList
  cases hr : l.returnType with
  | none => decide
  | some t =>
      rw [hr] at htypes
      exact htypes.1

theorem Class.Sound.addAttribute {c : Class} (h : c.Sound) {a : Attribute} (ha : a.Drawable) :
    (c.addAttribute a).Sound := by
  refine ⟨{ h.drawable with attributes := ?_ }, h.keyed.addAttribute a⟩
  intro b hb
  rcases OrderedMap.mem_values_insert hb with rfl | hb
  · exact ha
  · exact h.drawable.attributes b hb

theorem Class.Sound.addMethod {c : Class} (h : c.Sound) {m : Method} (hm : m.Drawable) :
    (c.addMethod m).Sound := by
  refine ⟨{ h.drawable with methods := ?_ }, h.keyed.addMethod m⟩
  intro n hn
  rcases OrderedMap.mem_values_insert hn with rfl | hn
  · exact hm
  · exact h.drawable.methods n hn

theorem Interface.Sound.addMethod {i : Interface} (h : i.Sound) {m : Method} (hm : m.Drawable) :
    (i.addMethod m).Sound := by
  refine ⟨{ h.drawable with methods := ?_ }, OrderedMap.keyed_insert h.keyed rfl⟩
  intro n hn
  rcases OrderedMap.mem_values_insert hn with rfl | hn
  · exact hm
  · exact h.drawable.methods n hn

theorem Enum.Sound.addProperty {e : Enum} (h : e.Sound) {p : EnumProperty} (hp : p.Drawable) :
    (e.addProperty p).Sound := by
  refine ⟨{ h.drawable with properties := ?_ }, OrderedMap.keyed_insert h.keyed rfl⟩
  intro q hq
  rcases OrderedMap.mem_values_insert hq with rfl | hq
  · exact hp
  · exact h.drawable.properties q hq

/-! ### Body lines -/

theorem Class.Sound.readLine {c : Class} (h : c.Sound) {l : Line} (hl : '\n' ∉ l.text) :
    (c.readLine l).value.Sound := by
  rw [Class.readLine]
  cases hm : memberLine? l.text with
  | none => exact h
  | some member =>
      have hfound := memberLine?_eq_some hm
      cases member with
      | field a => exact h.addAttribute (hfound.drawable hl l.modifiers)
      | method f => exact h.addMethod (hfound.drawable hl l.modifiers)

theorem Interface.Sound.readLine {i : Interface} (h : i.Sound) {l : Line} (hl : '\n' ∉ l.text) :
    (i.readLine l).value.Sound := by
  rw [Interface.readLine]
  cases hm : methodLine? l.text with
  | none => exact h
  | some f => exact h.addMethod ((methodLine?_eq_some hm).drawable hl l.modifiers)

theorem Enum.Sound.readLine {e : Enum} (h : e.Sound) (l : Line) : (e.readLine l).Sound := by
  rw [Enum.readLine]
  split
  · rename_i n v hp
    obtain ⟨hname, hvalue⟩ := constantLine?_eq_some hp
    refine h.addProperty ⟨hname, fun hne => ?_⟩
    cases v with
    | none => exact absurd rfl hne
    | some x => exact hvalue x rfl
  · exact h

/-! ### Models -/

namespace Model

variable {m m' : Model}

theorem sound_empty : Model.empty.Sound := by
  refine ⟨⟨?_, ?_, ?_, ?_⟩, keyed_empty⟩ <;> exact fun _ h => absurd h List.not_mem_nil

theorem Sound.addClass (h : m.Sound) {c : Class} (hc : c.Sound) : (m.addClass c).Sound := by
  refine ⟨{ h.drawable with classes := ?_ }, h.keyed.addClass hc.keyed⟩
  intro d hd
  rcases OrderedMap.mem_values_insert hd with rfl | hd
  · exact hc.drawable
  · exact h.drawable.classes d hd

theorem Sound.addInterface (h : m.Sound) {i : Interface} (hi : i.Sound) :
    (m.addInterface i).Sound := by
  refine ⟨{ h.drawable with interfaces := ?_ }, h.keyed.addInterface hi.keyed⟩
  intro d hd
  rcases OrderedMap.mem_values_insert hd with rfl | hd
  · exact hi.drawable
  · exact h.drawable.interfaces d hd

theorem Sound.addEnum (h : m.Sound) {e : Enum} (he : e.Sound) : (m.addEnum e).Sound := by
  refine ⟨{ h.drawable with enums := ?_ }, h.keyed.addEnum he.keyed⟩
  intro d hd
  rcases OrderedMap.mem_values_insert hd with rfl | hd
  · exact he.drawable
  · exact h.drawable.enums d hd

theorem Sound.addAssociation (h : m.Sound) {a : Association} (ha : a.Drawable) :
    (m.addAssociation a).Sound := by
  refine ⟨{ h.drawable with associations := ?_ }, h.keyed.addAssociation a⟩
  intro b hb
  rcases List.mem_append.mp hb with hb | hb
  · exact h.drawable.associations b hb
  · rcases List.mem_singleton.mp hb with rfl
    exact ha

theorem Sound.class? (h : m.Sound) {c : Class} (hc : c ∈ m.classes.values) : c.Sound :=
  ⟨h.drawable.classes c hc, h.keyed.classMembers c hc⟩

theorem Sound.interface? (h : m.Sound) {i : Interface} (hi : i ∈ m.interfaces.values) : i.Sound :=
  ⟨h.drawable.interfaces i hi, h.keyed.methods i hi⟩

theorem Sound.addAttribute (h : m.Sound) {owner : String} {a : Attribute} (ha : a.Drawable)
    (hm : m.addAttribute? owner a = some m') : m'.Sound := by
  obtain rfl := addAttribute?_eq_some hm
  refine ⟨{ h.drawable with classes := ?_ }, h.keyed.addAttribute hm⟩
  intro d hd
  obtain ⟨c, hc, rfl | rfl⟩ := OrderedMap.mem_values_modify hd
  · exact h.drawable.classes _ hc
  · exact ((h.class? hc).addAttribute ha).drawable

theorem Sound.addMethod (h : m.Sound) {owner : String} {method : Method} (hmethod : method.Drawable)
    (hm : m.addMethod? owner method = some m') : m'.Sound := by
  refine ⟨?_, h.keyed.addMethod hm⟩
  rcases addMethod?_eq_some hm with rfl | rfl
  · refine { h.drawable with classes := ?_ }
    intro d hd
    obtain ⟨c, hc, rfl | rfl⟩ := OrderedMap.mem_values_modify hd
    · exact h.drawable.classes _ hc
    · exact ((h.class? hc).addMethod hmethod).drawable
  · refine { h.drawable with interfaces := ?_ }
    intro d hd
    obtain ⟨i, hi, rfl | rfl⟩ := OrderedMap.mem_values_modify hd
    · exact h.drawable.interfaces _ hi
    · exact ((h.interface? hi).addMethod hmethod).drawable

/-- A declaration adds an entity that can be drawn. -/
theorem Sound.readBlock (h : m.Sound) {b : Block} {line : List Char}
    (hheader : header? line = some b.header) (hbody : ∀ l ∈ b.body, '\n' ∉ l.text) :
    (m.readBlock b).value.Sound := by
  obtain ⟨hname, hnamed⟩ := header?_eq_some hheader
  rw [Model.readBlock]
  cases hkind : b.header.kind with
  | ofClass isAbstract superclass interfaces =>
      rw [hkind] at hnamed
      refine h.addClass ?_
      rw [Traced.value_foldlM]
      refine List.foldlRecOn b.body _ ?_ fun c hc l hl => hc.readLine (hbody l hl)
      exact ⟨⟨⟨hname, hnamed.1, hnamed.2⟩, fun _ h => absurd h List.not_mem_nil,
        fun _ h => absurd h List.not_mem_nil, rfl⟩, OrderedMap.keyed_empty, OrderedMap.keyed_empty⟩
  | ofInterface =>
      refine h.addInterface ?_
      rw [Traced.value_foldlM]
      refine List.foldlRecOn b.body _ ?_ fun i hi l hl => hi.readLine (hbody l hl)
      exact ⟨⟨hname, fun _ h => absurd h List.not_mem_nil, rfl⟩, OrderedMap.keyed_empty⟩
  | ofEnum =>
      refine h.addEnum ?_
      refine List.foldlRecOn b.body _ ?_ fun e he l _ => he.readLine l
      exact ⟨⟨hname, fun _ h => absurd h List.not_mem_nil⟩, OrderedMap.keyed_empty⟩

/-- What attaching a member can do: nothing if the member finds no place, or to add it. -/
theorem attach_cases (m : Model) (inline : InlineMember) (modifiers : Modifiers) :
    (m.attach inline modifiers).value = m ∨
      (∃ a, inline.member = .field a ∧ m.addAttribute? inline.target (a.attribute modifiers) =
        some (m.attach inline modifiers).value) ∨
      ∃ f, inline.member = .method f ∧ m.addMethod? inline.target (f.method modifiers) =
        some (m.attach inline modifiers).value := by
  unfold attach
  cases inline.member with
  | field a =>
      cases hadd : m.addAttribute? inline.target (a.attribute modifiers) with
      | none => exact Or.inl (by simp [hadd])
      | some m' => exact Or.inr (Or.inl ⟨a, rfl, by simp [hadd]⟩)
  | method f =>
      cases hadd : m.addMethod? inline.target (f.method modifiers) with
      | none => exact Or.inl (by simp [hadd])
      | some m' => exact Or.inr (Or.inr ⟨f, rfl, by simp [hadd]⟩)

/-- An inline member is attached as it was found. -/
theorem Sound.readInline (h : m.Sound) {l : Line} (hl : '\n' ∉ l.text) :
    (m.readInline (Standalone.ofLine l)).value.Sound := by
  rw [Standalone.ofLine]
  cases hm : inlineMember? l.text with
  | none =>
      cases composition? l.text <;> cases plainAssociation? l.text <;> exact h
  | some inline =>
      have hfound := inlineMember?_eq_some hm
      show (m.attach inline l.modifiers).value.Sound
      rcases m.attach_cases inline l.modifiers with hsame | ⟨a, hmember, hadd⟩ | ⟨f, hmember, hadd⟩
      · rw [hsame]
        exact h
      · rw [hmember] at hfound
        exact h.addAttribute (hfound.drawable hl _) hadd
      · rw [hmember] at hfound
        exact h.addMethod (hfound.drawable hl _) hadd

theorem Sound.readComposition (h : m.Sound) (l : Line) :
    (m.readComposition (Standalone.ofLine l)).Sound := by
  rw [Standalone.ofLine]
  cases inlineMember? l.text with
  | some inline => exact h
  | none =>
      cases hr : composition? l.text with
      | some r => exact h.addAssociation (relation_eq_some hr)
      | none => cases plainAssociation? l.text <;> exact h

theorem Sound.readPlain (h : m.Sound) (l : Line) :
    (m.readPlain (Standalone.ofLine l)).value.Sound := by
  rw [Standalone.ofLine]
  cases inlineMember? l.text with
  | some inline => exact h
  | none =>
      cases composition? l.text with
      | some r => exact h
      | none =>
          cases hr : plainAssociation? l.text with
          | some r => exact h.addAssociation (relation_eq_some hr)
          | none => exact h

end Model

/-- **Every model that is read of a text can be drawn**, and everything in it stands under
its own name. -/
theorem sound_read (text : String) : (Diagram.read text).value.Sound := by
  have hlines : ∀ l ∈ (stripModifiers text.toList).value, '\n' ∉ l.text := fun l =>
    not_mem_stripModifiers
  have hmade := madeOf_ofLines (stripModifiers text.toList).value
  rw [Diagram.read, Model.readDiagram, Traced.value_within, Traced.value_bind]
  simp only [Model.readOutline, Traced.value_bind, Traced.value_foldlM, Traced.value_pure, List.foldl_map]
  refine List.foldlRecOn _ _ ?_ fun m hm l _ => hm.readPlain l
  refine List.foldlRecOn _ _ ?_ fun m hm l _ => hm.readComposition l
  refine List.foldlRecOn _ _ ?_ fun m hm l hl => hm.readInline (hlines l (hmade.standalone l hl).1)
  refine List.foldlRecOn _ _ Model.sound_empty fun m hm b hb => ?_
  obtain ⟨k, hk, hh⟩ := hmade.header b hb
  refine hm.readBlock hh fun l hl hc => ?_
  obtain ⟨j, hj, hi⟩ := hmade.body b hb l hl
  exact hlines j hj (hi.subset hc)

end ClassModel
