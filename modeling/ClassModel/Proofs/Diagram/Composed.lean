/-
The operators of a written diagram.

Every association is written with the operator of a composition owned by its left class, so
whatever is read of a written diagram has no other operator.  That does not need the members
of the diagram to stay in their bodies: types with braces may set the line of a member free,
but no line of a diagram relates two types except those of associations.

So a normal form that is its own normal form is read as the diagram it was made of, up to the
operators.
-/
import ClassModel.Proofs.Diagram.Determined
import ClassModel.Proofs.Diagram.Normalization

namespace ClassModel

open LineParser

/-! ### Lines of a diagram -/

/-- All lines of a paragraph. -/
def Paragraph.lines (p : Paragraph) : List (List Char) :=
  p.head :: p.members

/-- The lines of a diagram that belong to no paragraph. -/
def idleLines : List (List Char) :=
  [[], ['\x7d'], "@startuml".toList, "@enduml".toList]

theorem mem_classLines {c : Class} {l : List Char} (hl : l ∈ classLines c) :
    l ∈ idleLines ∨ l ∈ (Part.ofClass c).paragraph.lines := by
  have hhead : ∀ {b : Bool}, c.hasMembers = b → l = classHeaderText c ++ openingMark b →
      l ∈ (Part.ofClass c).paragraph.lines := by
    rintro b rfl rfl
    exact List.mem_cons_self
  rw [classLines] at hl
  split at hl
  · rename_i h
    rcases mem_bracedLines.mp hl with hl | hl | rfl
    · exact Or.inr (hhead h hl)
    · obtain ⟨gap, hlines, hgap⟩ := memberLines_eq c
      rw [hlines, List.mem_append, List.mem_append] at hl
      have hmember : l ∈ c.members.map EntityMember.line → l ∈ (Part.ofClass c).paragraph.lines :=
        List.mem_cons_of_mem _
      rw [Class.members, List.map_append, List.mem_append] at hmember
      rcases hl with hl | hl | hl
      · exact Or.inr (hmember (Or.inl hl))
      · rcases hgap with rfl | rfl
        · cases hl
        · exact Or.inl (List.mem_singleton.mp hl ▸ List.mem_cons_self)
      · exact Or.inr (hmember (Or.inr hl))
    · exact Or.inl (by decide)
  · rename_i h
    refine Or.inr (hhead (by simpa using h) ?_)
    rw [openingMark, if_neg Bool.false_ne_true, List.append_nil]
    exact List.mem_singleton.mp hl

theorem mem_interfaceLines {i : Interface} {l : List Char} (hl : l ∈ interfaceLines i) :
    l ∈ idleLines ∨ l ∈ (Part.ofInterface i).paragraph.lines := by
  rcases mem_bracedLines.mp hl with rfl | hl | rfl
  · exact Or.inr List.mem_cons_self
  · rw [interfaceMemberLines] at hl
    split at hl
    · exact Or.inl (List.mem_singleton.mp hl ▸ List.mem_cons_self)
    · refine Or.inr (List.mem_cons_of_mem _ ?_)
      show l ∈ (i.methods.values.map EntityMember.method).map EntityMember.line
      rwa [List.map_map]
  · exact Or.inl (by decide)

theorem mem_enumLines {e : Enum} {l : List Char} (hl : l ∈ enumLines e) :
    l ∈ idleLines ∨ l ∈ (Part.ofEnum e).paragraph.lines := by
  have hhead : ∀ {b : Bool}, e.properties.isEmpty = b →
      l = plainHeaderText "enum" e.name ++ openingMark (!b) →
        l ∈ (Part.ofEnum e).paragraph.lines := by
    rintro b rfl rfl
    exact List.mem_cons_self
  rw [enumLines] at hl
  split at hl
  · rename_i h
    refine Or.inr (hhead h ?_)
    rw [List.mem_singleton.mp hl]
    exact (List.append_nil _).symm
  · rename_i h
    rcases mem_bracedLines.mp hl with hl | hl | rfl
    · have hfalse : e.properties.isEmpty = false := by simpa using h
      exact Or.inr (hhead hfalse hl)
    · exact Or.inr (List.mem_cons_of_mem _ hl)
    · exact Or.inl (by decide)

/-- The lines of a diagram are those of its paragraphs and a few that belong to none. -/
theorem mem_diagramLines {m : Model} {l : List Char} (hl : l ∈ diagramLines m) :
    l ∈ idleLines ∨ ∃ x ∈ m.parts, l ∈ x.paragraph.lines := by
  have hframe : ∀ l ∈ [[], "@startuml".toList, "@enduml".toList], l ∈ idleLines := by decide
  rcases exists_chunk_of_mem_diagramLines hl with hl | ⟨c, hc, hl⟩
  · exact Or.inl (hframe l hl)
  · simp only [diagramChunks, List.mem_append, List.mem_map] at hc
    rcases hc with ⟨c, hc, rfl⟩ | ⟨i, hi, rfl⟩ | ⟨e, he, rfl⟩ | hc
    · exact (mem_classLines hl).imp_right fun h => ⟨.ofClass c, by simp [Model.parts, hc], h⟩
    · exact (mem_interfaceLines hl).imp_right fun h =>
        ⟨.ofInterface i, by simp [Model.parts, hi], h⟩
    · exact (mem_enumLines hl).imp_right fun h => ⟨.ofEnum e, by simp [Model.parts, he], h⟩
    · rw [associationChunks] at hc
      split at hc
      · cases hc
      · rw [List.mem_singleton.mp hc] at hl
        obtain ⟨a, ha, rfl⟩ := List.mem_map.mp hl
        exact Or.inr ⟨.ofAssociation a, by simp [Model.parts, ha], List.mem_cons_self⟩

/-! ### Lines that relate nothing -/

/-- A line that relates two types, if any, with the operator that associations are written
with. -/
def Composes (l : Line) : Prop :=
  ∀ r, Standalone.ofLine l = .composition r ∨ Standalone.ofLine l = .plain r →
    r.separator = "*-->"

theorem composes_of_eq_none {l : Line} (hcomposition : composition? l.text = none)
    (hplain : plainAssociation? l.text = none) : Composes l := by
  intro r hr
  unfold Standalone.ofLine at hr
  rw [hcomposition, hplain] at hr
  cases hinline : inlineMember? l.text with
  | some inline =>
      rw [hinline] at hr
      rcases hr with hr | hr <;> cases hr
  | none =>
      rw [hinline] at hr
      rcases hr with hr | hr <;> cases hr

/-- A relation begins with a name. -/
theorem composes_of_stops {l : Line} (h : Stops isWordChar (l.text.dropWhile isSpace)) :
    Composes l := by
  have hrelation : ∀ operator : LineParser String, accept (relation operator) l.text = none :=
    fun _ => accept_fullLine_eq_none (bind_of_none (name_eq_none h) _)
  exact composes_of_eq_none (hrelation _) (hrelation _)

theorem composes_of_mem_idleLines {l : List Char} (hl : l ∈ idleLines) :
    Composes (strippedLine l) := by
  have hstops : ∀ l ∈ idleLines, ∀ c ∈ ((strippedLine l).text.dropWhile isSpace).head?,
      isWordChar c = false := by
    decide +kernel
  exact composes_of_stops (hstops l hl)

/-- The line of a member keeps its marker, whatever is taken out of it. -/
theorem exists_text_writtenLine (v : Visibility) (isStatic : Bool) (body : List Char) :
    ∃ r, (strippedLine (writtenLine v isStatic body)).text = '\t' :: v.marker :: r := by
  have hreturn : ∃ t, dropReturn (writtenLine v isStatic body) = '\t' :: v.marker :: t := by
    unfold dropReturn writtenLine
    split
    · exact ⟨_, rfl⟩
    · exact ⟨_, rfl⟩
  obtain ⟨t, ht⟩ := hreturn
  refine ⟨(segments t).filterMap Segment.char?, ?_⟩
  show (segments (dropReturn (writtenLine v isStatic body))).filterMap Segment.char? = _
  rw [ht, segments_cons_of_ne (by decide), segments_cons_of_ne (marker_ne_brace v)]
  rfl

theorem composes_memberLine {x : EntityMember} (hx : x.Drawable) :
    Composes (strippedLine x.line) := by
  obtain ⟨r, hr⟩ := exists_text_writtenLine x.visibility x.isStatic x.rest
  refine composes_of_stops ?_
  rw [hx.line_eq, hr, dropWhile_memberText]
  refine stops_cons.mpr ?_
  cases x.visibility <;> decide

/-- Behind the name of a constant there is nothing, or a colon, but no operator. -/
theorem composes_constantText {p : EnumProperty} (hp : p.Drawable) :
    Composes (strippedLine (constantText p)) := by
  have hrelation : ∀ {operator : LineParser String}, (∀ r, operator (':' :: r) = none) →
      accept (relation operator) (constantText p) = none := by
    intro operator hoperator
    have hname : Stops isSpace (p.name.toList ++ if p.value.toList = [] then []
        else ' ' :: ':' :: ' ' :: p.value.toList) :=
      hp.name.stops (fun _ => isSpace_of_isWordChar) _
    have hdrop : (constantText p).dropWhile isSpace = p.name.toList ++
        if p.value.toList = [] then [] else ' ' :: ':' :: ' ' :: p.value.toList :=
      dropWhile_of_stops hname
    refine accept_fullLine_eq_none ?_
    rw [hdrop]
    split
    · rw [bind_of_some (name_append hp.name (stops_nil _)),
        bind_of_none (spaces1_eq_none (stops_nil _))]
    · have hmultiplicity := bind_of_none (quotedMultiplicity_eq_none
        (s := ':' :: ' ' :: p.value.toList) (stops_cons.mpr rfl)) fun m => do
          spaces1
          return m
      rw [bind_of_some (name_append hp.name (stops_cons.mpr rfl)),
        bind_of_some (spaces1_space (stops_cons.mpr rfl)),
        bind_of_some (optional_eq_none hmultiplicity), bind_of_none (hoperator _)]
  rw [(intact_constantText hp).strippedLine]
  exact composes_of_eq_none (hrelation fun _ => rfl) (hrelation fun _ => rfl)

/-! ### Lines that relate something -/

namespace Part

variable {x : Part}

theorem Sound.intact_head (hx : x.Sound) : Intact x.paragraph.head := by
  cases x with
  | ofClass c => exact intact_openingMark (intact_classHeaderText hx.drawable.toHeaded) _
  | ofInterface i =>
      exact intact_openingMark (intact_plainHeaderText (by decide) hx.drawable.name) _
  | ofEnum e => exact intact_openingMark (intact_plainHeaderText (by decide) hx.drawable.name) _
  | ofAssociation a => exact intact_associationText hx

/-- A paragraph relates two types only if it is that of an association: what begins another
one is a header. -/
theorem Sound.composes_head (hx : x.Sound)
    (hheader : header? (strippedLine x.paragraph.head).text = none) :
    Composes (strippedLine x.paragraph.head) := by
  rw [hx.intact_head.strippedLine] at hheader ⊢
  have hnone : x.header = none := hx.header?_head.symm.trans hheader
  cases x with
  | ofAssociation a =>
      intro r hr
      have hline : Standalone.ofLine { text := (ofAssociation a).paragraph.head } =
          .composition a.relation := ofLine_associationText hx
      rw [hline] at hr
      rcases hr with hr | hr
      · cases hr
        rfl
      · cases hr
  | _ => cases hnone

theorem Sound.composes_member (hx : x.Sound) {l : List Char} (hl : l ∈ x.paragraph.members) :
    Composes (strippedLine l) := by
  cases x with
  | ofClass c =>
      obtain ⟨y, hy, rfl⟩ := List.mem_map.mp hl
      exact composes_memberLine (drawable_members hx.drawable y hy)
  | ofInterface i =>
      obtain ⟨y, hy, rfl⟩ := List.mem_map.mp hl
      exact composes_memberLine (drawable_methods hx.drawable.methods y hy)
  | ofEnum e =>
      obtain ⟨p, hp, rfl⟩ := List.mem_map.mp hl
      exact composes_constantText (hx.drawable.properties p hp)
  | ofAssociation a => cases hl

end Part

/-- **No line of a diagram but a header relates two types with another operator.** -/
theorem composes_of_mem_diagramLines {m : Model} (hm : m.Sound) {l : List Char}
    (hl : l ∈ diagramLines m) (hheader : header? (strippedLine l).text = none) :
    Composes (strippedLine l) := by
  rcases mem_diagramLines hl with hl | ⟨x, hx, hl⟩
  · exact composes_of_mem_idleLines hl
  · rcases List.mem_cons.mp hl with rfl | hl
    · exact (hm.parts x hx).composes_head hheader
    · exact (hm.parts x hx).composes_member hl

/-! ### What is read of a diagram -/

namespace Model

variable {m : Model}

/-- Declarations relate nothing. -/
theorem associations_readBlock (m : Model) (b : Block) :
    (m.readBlock b).value.associations = m.associations := by
  rw [readBlock]
  cases b.header.kind <;> rfl

/-- Nor do members. -/
theorem associations_readInline (m : Model) (s : Standalone) :
    (m.readInline s).value.associations = m.associations := by
  cases s with
  | composition | plain | unrecognized => rfl
  | inline l modifiers =>
      show (m.attach l modifiers).value.associations = m.associations
      rcases m.attach_cases l modifiers with hsame | ⟨a, -, hadd⟩ | ⟨f, -, hadd⟩
      · rw [hsame]
      · rw [addAttribute?_eq_some hadd]
        rfl
      · rcases addMethod?_eq_some hadd with h | h <;> rw [h] <;> rfl

/-- All associations are compositions owned by their left classes. -/
def AllComposed (m : Model) : Prop :=
  ∀ a ∈ m.associations, a.separator = "*-->"

theorem AllComposed.composed (h : m.AllComposed) : m.composed = m := by
  have hself : ∀ a ∈ m.associations, a.composed = id a := by
    intro a ha
    rw [Association.composed, ← h a ha]
    rfl
  rw [Model.composed, List.map_congr_left hself, List.map_id]

theorem AllComposed.addAssociation (h : m.AllComposed) {a : Association}
    (ha : a.separator = "*-->") : (m.addAssociation a).AllComposed := by
  intro b hb
  rcases List.mem_append.mp hb with hb | hb
  · exact h b hb
  · rw [List.mem_singleton.mp hb]
    exact ha

theorem AllComposed.readComposition (h : m.AllComposed) {l : Line} (hl : Composes l) :
    (m.readComposition (Standalone.ofLine l)).AllComposed := by
  cases hs : Standalone.ofLine l with
  | composition r => exact h.addAssociation (hl r (Or.inl hs))
  | _ => exact h

theorem AllComposed.readPlain (h : m.AllComposed) {l : Line} (hl : Composes l) :
    (m.readPlain (Standalone.ofLine l)).value.AllComposed := by
  cases hs : Standalone.ofLine l with
  | plain r => exact h.addAssociation (hl r (Or.inr hs))
  | _ => exact h

end Model

/-- **What is read of a written diagram has no operator but the one that is written.** -/
theorem allComposed_read_render {m : Model} (hm : m.Sound) :
    (Diagram.read (Diagram.render m)).value.AllComposed := by
  have hlines : ∀ l ∈ (Outline.ofLines ((diagramLines m).map strippedLine)).standalone,
      Composes l := by
    intro l hl
    obtain ⟨hmem, hheader⟩ := (madeOf_ofLines _).standalone l hl
    obtain ⟨k, hk, rfl⟩ := List.mem_map.mp hmem
    exact composes_of_mem_diagramLines hm hk hheader
  rw [Diagram.read, Model.readDiagram, Traced.value_within, Traced.value_bind,
    value_stripModifiers_render (not_mem_diagramLines hm.drawable)]
  simp only [Model.readOutline, Traced.value_bind, Traced.value_foldlM, Traced.value_pure,
    List.foldl_map]
  refine List.foldlRecOn _ _ ?_ fun m hm l hl => hm.readPlain (hlines l hl)
  refine List.foldlRecOn _ _ ?_ fun m hm l hl => hm.readComposition (hlines l hl)
  -- Before that nothing is related at all.
  refine List.foldlRecOn _ _ ?_ fun m hm l _ => ?_
  · refine List.foldlRecOn _ _ (fun a ha => absurd ha List.not_mem_nil) fun m hm b _ => ?_
    unfold Model.AllComposed
    rwa [Model.associations_readBlock]
  · unfold Model.AllComposed
    rwa [Model.associations_readInline]

/-- **A normal form is its own normal form exactly if it is read as the diagram it was made
of**, up to the operators. -/
theorem normalForm_normalForm_iff (text : String) :
    normalForm (normalForm text) = normalForm text ↔
      (Diagram.read (normalForm text)).value = (Diagram.read text).value.composed := by
  have hsound := sound_read text
  constructor
  · intro h
    rw [normalForm_eq, normalForm_eq text] at h
    have hcomposed := composed_eq_of_render_eq (sound_read _) hsound h
    rw [(allComposed_read_render hsound).composed] at hcomposed
    rw [normalForm_eq]
    exact hcomposed
  · intro h
    rw [normalForm_eq, h, render_composed, normalForm_eq]

end ClassModel
