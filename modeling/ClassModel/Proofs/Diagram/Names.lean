/-
Names that are read back.

A diagram may be written of a model whose names are no words, such as names with a package in
front of them.  The header of a type is read up to the end of its first word and then, without
looking at anything in between, from the opening brace on.  So the type is found again, with
its members and under the first word of its name.

For that the rest of the text only has to keep out of the way.  A text is smooth if it holds no
brace and no end of a line.  In a model of smooth texts the body of a type closes with its own
brace, no line becomes two, and no association is taken for a declaration.
-/
import ClassModel.Proofs.Diagram.Declared
import ClassModel.Proofs.Diagram.Openings

namespace ClassModel

open LineParser

/-! ### Headers with names that go on -/

/-- The first word of a name. -/
def leadingWord (name : String) : String :=
  String.ofList (name.toList.takeWhile isWordChar)

/-- A name that begins with a word and goes on, if it does, behind a dot. -/
structure IsTitle (name : String) : Prop where
  word : IsWord (leadingWord name).toList
  dot : ∀ c ∈ (name.toList.dropWhile isWordChar).head?, c = '.'

/-- A name is its first word and what follows it. -/
theorem leadingWord_append (name : String) (r : List Char) :
    name.toList ++ r = (leadingWord name).toList ++ (name.toList.dropWhile isWordChar ++ r) := by
  rw [leadingWord, String.toList_ofList, ← List.append_assoc, run_append]

theorem IsTitle.of_isWord {name : String} (h : IsWord name.toList) :
    IsTitle name ∧ leadingWord name = name := by
  have htake := takeWhile_append_of_stops h.chars (stops_nil isWordChar)
  have hdrop := dropWhile_append_of_stops h.chars (stops_nil isWordChar)
  rw [List.append_nil] at htake hdrop
  have hname : leadingWord name = name := by rw [leadingWord, htake, String.ofList_toList]
  refine ⟨⟨by rwa [hname], fun c hc => ?_⟩, hname⟩
  rw [hdrop] at hc
  cases hc

/-- Where a name has come to the end of its first word, no word goes on. -/
theorem IsTitle.stops {name : String} (h : IsTitle name) {p : Char → Bool} (hp : p '.' = false)
    {r : List Char} (hr : Stops p r) : Stops p (name.toList.dropWhile isWordChar ++ r) := by
  intro c hc
  cases hd : name.toList.dropWhile isWordChar with
  | nil =>
      rw [hd] at hc
      exact hr c hc
  | cons d t =>
      have hdot := h.dot d (by rw [hd]; rfl)
      rw [hd] at hc
      cases hc
      rw [hdot, hp]

/-- A character that neither opens nor closes a body nor ends a line. -/
def isSmoothChar (c : Char) : Bool :=
  isIntactChar c && c != '\x7d'

/-- A text without braces and without line breaks. -/
def Smooth (s : List Char) : Prop :=
  ∀ c ∈ s, isSmoothChar c = true

theorem Smooth.of_all {s : List Char} (h : s.all isSmoothChar = true) : Smooth s :=
  List.all_eq_true.mp h

theorem Smooth.ne_brace {s : List Char} (h : Smooth s) : ∀ c ∈ s, (c != '\x7b') = true := by
  intro c hc
  have hsmooth := h c hc
  simp only [isSmoothChar, isIntactChar, Bool.and_eq_true] at hsmooth
  exact hsmooth.1.1.1

/-- Behind what takes no brace, a body opens as it would have opened in front of it. -/
theorem opening_of_append {u t r : List Char} (b : Bool) (h : r ++ openingMark b = u ++ t)
    (hu : ∀ c ∈ u, (c != '\x7b') = true) (hr : Smooth r) :
    opening t = some (if b then some [] else none, []) := by
  have hdrop : t.dropWhile (· != '\x7b') = if b then ['\x7b'] else [] := by
    have h' := congrArg (List.dropWhile (· != '\x7b')) h
    rw [List.dropWhile_append_of_pos hr.ne_brace, List.dropWhile_append_of_pos hu] at h'
    rw [← h']
    cases b <;> rfl
  rw [opening, bind_of_some (run_apply _ _), hdrop]
  cases b <;> rfl

/-- What a class header says behind the name. -/
def clausesText (c : Class) : List Char :=
  extendsText c.superclass ++ implementsText c.interfaces

theorem stops_clausesText (c : Class) (b : Bool) :
    Stops isWordChar (clausesText c ++ openingMark b) := by
  rw [clausesText, List.append_assoc]
  exact stops_clauses c b

/-- A class header is read under the first word of the name. -/
theorem exists_header?_class {c : Class} (hname : IsTitle c.name)
    (hsmooth : Smooth (c.name.toList ++ clausesText c)) (b : Bool) :
    ∃ superclass interfaces, header? (classHeaderText c ++ openingMark b) =
      some { name := leadingWord c.name, kind := .ofClass c.isAbstract superclass interfaces,
             body := if b then some [] else none } := by
  have hstart : Stops isSpace (classHeaderText c ++ openingMark b) := by
    unfold classHeaderText
    cases c.isAbstract <;> exact stops_cons.mpr rfl
  -- The clauses are optional, so both are read, and what is left still holds the brace.
  let text := c.name.toList.dropWhile isWordChar ++ (clausesText c ++ openingMark b)
  have htext : classHeaderText c ++ openingMark b = abstractPrefix c.isAbstract ++
      ("class".toList ++ ' ' :: ((leadingWord c.name).toList ++ text)) := by
    rw [classHeaderText_append, ← List.append_assoc (extendsText _), leadingWord_append c.name]
    rfl
  obtain ⟨superclass, r, hextends⟩ : ∃ superclass r,
      extendsClause (text.dropWhile isSpace) = some (superclass, r) :=
    ⟨_, _, optional_apply _ _⟩
  obtain ⟨interfaces, t, himplements⟩ : ∃ interfaces t,
      implementsClause r = some (interfaces, t) := by
    rw [implementsClause, bind_of_some (optional_apply _ _)]
    exact ⟨_, _, rfl⟩
  have hread : classHeader (classHeaderText c ++ openingMark b) =
      some ((leadingWord c.name, .ofClass c.isAbstract superclass interfaces), t) := by
    rw [htext, classHeader_append c.isAbstract hname.word
      (hname.stops rfl (stops_clausesText c b)), bind_of_some hextends, bind_of_some himplements]
    rfl
  obtain ⟨u, hu, hubrace⟩ := takes_clauses.1 hextends
  obtain ⟨v, hv, hvbrace⟩ := takes_clauses.2 himplements
  have hspace : ∀ d ∈ text.takeWhile isSpace, (d != '\x7b') = true := by
    intro d hd
    rw [bne_iff_ne]
    rintro rfl
    exact absurd (of_mem_takeWhile hd) (by decide)
  have hrest : (c.name.toList.dropWhile isWordChar ++ clausesText c) ++ openingMark b =
      (text.takeWhile isSpace ++ (u ++ v)) ++ t := by
    rw [List.append_assoc, List.append_assoc, List.append_assoc, ← hv, ← hu, run_append]
  have hopen := opening_of_append b hrest ?_ ?_
  · exact ⟨superclass, interfaces, header?_of_declaration hstart (orElse_of_some hread) hopen⟩
  · intro d hd
    rcases List.mem_append.mp hd with hd | hd
    · exact hspace d hd
    · rcases List.mem_append.mp hd with hd | hd
      · exact hubrace d hd
      · exact hvbrace d hd
  · intro d hd
    rcases List.mem_append.mp hd with hd | hd
    · exact hsmooth d (List.mem_append_left _ ((List.dropWhile_suffix _).subset hd))
    · exact hsmooth d (List.mem_append_right _ hd)

/-- So are the headers of interfaces and enums. -/
theorem header?_plain {name : String} (hname : IsTitle name) (hsmooth : Smooth name.toList)
    (b : Bool) :
    header? (plainHeaderText "interface" name ++ openingMark b) =
        some { name := leadingWord name, kind := .ofInterface,
               body := if b then some [] else none } ∧
      header? (plainHeaderText "enum" name ++ openingMark b) =
        some { name := leadingWord name, kind := .ofEnum,
               body := if b then some [] else none } := by
  have hstops := hname.stops (p := isWordChar) rfl (stops_openingMark rfl b)
  have hrest : Smooth (name.toList.dropWhile isWordChar) := fun d hd =>
    hsmooth d ((List.dropWhile_suffix _).subset hd)
  have hopen := opening_of_append b (List.nil_append _).symm
    (fun _ hd => absurd hd List.not_mem_nil) hrest
  have htext : ∀ w : String, plainHeaderText w name ++ openingMark b = w.toList ++ ' ' ::
      ((leadingWord name).toList ++ (name.toList.dropWhile isWordChar ++ openingMark b)) := by
    intro w
    rw [plainHeaderText, List.append_assoc, List.cons_append, leadingWord_append name]
  rw [htext, htext]
  exact ⟨header?_interface_append hname.word hstops hopen, header?_enum_append hname.word hstops hopen⟩

/-! ### Lines that keep their place -/

theorem Smooth.append {s t : List Char} (hs : Smooth s) (ht : Smooth t) : Smooth (s ++ t) := by
  intro c hc
  rcases List.mem_append.mp hc with hc | hc
  · exact hs c hc
  · exact ht c hc

theorem Smooth.cons {c : Char} {s : List Char} (hc : isSmoothChar c = true) (hs : Smooth s) :
    Smooth (c :: s) := by
  intro d hd
  rcases List.mem_cons.mp hd with rfl | hd
  · exact hc
  · exact hs d hd

theorem Smooth.of_subset {s t : List Char} (ht : Smooth t) (h : s ⊆ t) : Smooth s :=
  fun c hc => ht c (h hc)

theorem Smooth.all {s : List Char} (h : Smooth s) : s.all isIntactChar = true := by
  refine List.all_eq_true.mpr fun c hc => ?_
  have hsmooth := h c hc
  rw [isSmoothChar, Bool.and_eq_true] at hsmooth
  exact hsmooth.1

theorem Smooth.braces {s : List Char} (h : Smooth s) : braces s = [] := by
  refine braces_of_forall fun c hc => ?_
  have hsmooth := h c hc
  simp only [isSmoothChar, isIntactChar, Bool.and_eq_true, bne_iff_ne] at hsmooth
  rw [isBrace, beq_eq_false_iff_ne.mpr hsmooth.1.1.1, beq_eq_false_iff_ne.mpr hsmooth.2]
  rfl

/-- A line that is one line and, once its modifiers are taken out, holds no brace. -/
structure Quiet (line : List Char) : Prop where
  oneLine : '\n' ∉ line
  braces : ClassModel.braces (strippedLine line).text = []

theorem Smooth.quiet {line : List Char} (h : Smooth line) : Quiet line := by
  have hintact := intact_of_all h.all
  refine ⟨hintact.oneLine, ?_⟩
  rw [hintact.strippedLine]
  exact h.braces

/-- The mark of a static member is taken out of its line. -/
theorem Smooth.quiet_writtenLine {body : List Char} (h : Smooth body) (hne : body ≠ [])
    (v : Visibility) (isStatic : Bool) : Quiet (writtenLine v isStatic body) := by
  have hintact := intact_of_all h.all
  have hlast : body.getLast hne ≠ '\r' := by
    have hc := h _ (List.getLast_mem hne)
    rintro hr
    rw [hr] at hc
    exact absurd hc (by decide)
  refine ⟨not_mem_writtenLine v isStatic hintact.oneLine, ?_⟩
  rw [strippedLine_writtenLine v isStatic (List.dropLast_concat_getLast hne).symm hlast
    hintact.unmarked, memberLineOf, braces_cons_of_not rfl, braces_cons_of_not (isBrace_marker v),
    braces_append, braces_modifierGap, h.braces]
  rfl

/-- Quiet lines stay in the body that they stand in. -/
theorem openDepth_of_quiet {members : List (List Char)} (h : ∀ l ∈ members, Quiet l) :
    openDepth 0 ((members.map strippedLine).flatMap Line.text) = some 0 := by
  have hbraces : braces ((members.map strippedLine).flatMap Line.text) = [] := by
    rw [List.flatMap_map]
    refine List.filter_eq_nil_iff.mpr fun c hc => ?_
    obtain ⟨l, hl, hc⟩ := List.mem_flatMap.mp hc
    exact List.filter_eq_nil_iff.mp (h l hl).braces c hc
  rw [← openDepth_braces, hbraces, openDepth_nil]

/-! ### Legible models -/

/-- A method with smooth texts. -/
structure Method.Legible (m : Method) : Prop where
  name : Smooth m.name.toList
  returnType : Smooth m.returnType.toList
  parameters : ∀ p ∈ m.parameters, Smooth p.name.toList ∧ Smooth p.type.toList

/-- A class with a title and smooth texts. -/
structure Class.Legible (c : Class) : Prop where
  title : IsTitle c.name
  header : Smooth (c.name.toList ++ clausesText c)
  attributes : ∀ a ∈ c.attributes.values, Smooth a.name.toList ∧ Smooth a.type.toList
  methods : ∀ m ∈ c.methods.values, m.Legible

/-- An interface with a title and smooth texts. -/
structure Interface.Legible (i : Interface) : Prop where
  title : IsTitle i.name
  name : Smooth i.name.toList
  methods : ∀ m ∈ i.methods.values, m.Legible

/-- An enum with a title and smooth texts. -/
structure Enum.Legible (e : Enum) : Prop where
  title : IsTitle e.name
  name : Smooth e.name.toList
  properties : ∀ p ∈ e.properties.values, Smooth p.name.toList ∧ Smooth p.value.toList

/-- An association with a title in front and smooth texts. -/
structure Association.Legible (a : Association) : Prop where
  title : IsTitle a.left
  left : Smooth a.left.toList
  right : Smooth a.right.toList
  label : Smooth a.label.toList

/-- A model whose types are found again. -/
structure Model.Legible (m : Model) : Prop where
  classes : ∀ c ∈ m.classes.values, c.Legible
  interfaces : ∀ i ∈ m.interfaces.values, i.Legible
  enums : ∀ e ∈ m.enums.values, e.Legible
  associations : ∀ a ∈ m.associations, a.Legible

/-! ### The lines of a legible model -/

theorem trim_subset (s : List Char) : trim s ⊆ s := by
  intro c hc
  rw [trim, trimEnd, List.mem_reverse] at hc
  exact (trimStart_suffix s).subset (List.mem_reverse.mp ((List.dropWhile_suffix _).subset hc))

theorem quiet_attributeLine {a : Attribute} (hname : Smooth a.name.toList)
    (htype : Smooth a.type.toList) : Quiet (Diagram.attributeLine a).toList := by
  have hstatic : (textIf a.isStatic "\x7bstatic\x7d ").toList = staticMark a.isStatic := by
    cases a.isStatic <;> rfl
  have hline : (Diagram.attributeLine a).toList = writtenLine a.visibility a.isStatic
      (trim a.type.toList ++ ' ' :: a.name.toList) := by
    simp [Diagram.attributeLine, writtenLine, hstatic, String.toList_append]
  rw [hline]
  refine Smooth.quiet_writtenLine ?_ (by simp) _ _
  exact (htype.of_subset (trim_subset _)).append (hname.cons rfl)

theorem Method.Legible.quiet {m : Method} (hm : m.Legible) :
    Quiet (Diagram.methodLine m).toList := by
  have hparameters : Smooth (parametersText m.parameters) := by
    intro c hc
    rcases mem_parametersText hc with rfl | rfl | rfl | ⟨p, hp, h | h⟩
    · rfl
    · rfl
    · rfl
    · exact (hm.parameters p hp).1 c h
    · exact (hm.parameters p hp).2 c h
  have hsignature : Smooth (signatureText m) :=
    hm.name.append ((hparameters.append (.of_all rfl)).cons rfl)
  rw [toList_methodLine]
  refine Smooth.quiet_writtenLine ?_ ?_ _ _
  · refine Smooth.append ?_ (hm.returnType.append (hsignature.cons rfl))
    cases m.isAbstract <;> exact .of_all rfl
  · obtain ⟨t, he⟩ := exists_methodRest m
    rw [he]
    simp

theorem quiet_nil : Quiet [] :=
  Smooth.quiet (.of_all rfl)

theorem quiet_methods {ms : List Method} (hm : ∀ m ∈ ms, m.Legible) :
    ∀ l ∈ ms.map fun m => (Diagram.methodLine m).toList, Quiet l := by
  intro l hl
  obtain ⟨m, hmem, rfl⟩ := List.mem_map.mp hl
  exact (hm m hmem).quiet

theorem Class.Legible.quiet {c : Class} (hc : c.Legible) : ∀ l ∈ memberLines c, Quiet l := by
  intro l hl
  rw [memberLines, List.mem_append, List.mem_append] at hl
  rcases hl with hl | hl | hl
  · obtain ⟨a, ha, rfl⟩ := List.mem_map.mp hl
    exact quiet_attributeLine (hc.attributes a ha).1 (hc.attributes a ha).2
  · split at hl
    · cases hl
    · rw [List.mem_singleton.mp hl]
      exact quiet_nil
  · exact quiet_methods hc.methods l hl

theorem quiet_constantText {p : EnumProperty} (hname : Smooth p.name.toList)
    (hvalue : Smooth p.value.toList) : Quiet (constantText p) := by
  refine Smooth.quiet (Smooth.cons rfl (hname.append ?_))
  split
  · exact .of_all rfl
  · exact ((hvalue.cons rfl).cons rfl).cons rfl

theorem Enum.Legible.quiet {e : Enum} (he : e.Legible) :
    ∀ l ∈ e.properties.values.map constantText, Quiet l := by
  intro l hl
  obtain ⟨p, hp, rfl⟩ := List.mem_map.mp hl
  exact quiet_constantText (he.properties p hp).1 (he.properties p hp).2

/-! ### The outline of a legible model -/

theorem Class.Legible.smooth_header {c : Class} (hc : c.Legible) :
    Smooth (classHeaderText c) := by
  have htext := classHeaderText_append c []
  rw [List.append_nil, List.append_nil] at htext
  rw [htext]
  refine Smooth.append ?_ (Smooth.append (.of_all rfl) (Smooth.cons rfl hc.header))
  cases c.isAbstract <;> exact .of_all rfl

/-- A class is found under the first word of its name. -/
theorem exists_draws_classLines {c : Class} (hc : c.Legible) :
    ∃ b, Draws ((classLines c).map strippedLine) [b] [] ∧
      b.header.declared = .ofClass (leadingWord c.name) := by
  have hheader := hc.smooth_header
  have hintact := intact_openingMark hheader.all
  rw [classLines]
  by_cases hmembers : c.hasMembers = true
  · obtain ⟨superclass, interfaces, hread⟩ := exists_header?_class hc.title hc.header true
    rw [if_pos hmembers]
    exact ⟨_, draws_bracedLines (hintact true) hread rfl (openDepth_of_quiet hc.quiet), rfl⟩
  · obtain ⟨superclass, interfaces, hread⟩ := exists_header?_class hc.title hc.header false
    rw [openingMark, if_neg Bool.false_ne_true, List.append_nil] at hread
    rw [if_neg hmembers]
    exact ⟨_, draws_header (intact_of_all hheader.all) hread rfl, rfl⟩

theorem Interface.Legible.quiet {i : Interface} (hi : i.Legible) :
    ∀ l ∈ interfaceMemberLines i, Quiet l := by
  rw [interfaceMemberLines]
  split
  · intro l hl
    rw [List.mem_singleton.mp hl]
    exact quiet_nil
  · exact quiet_methods hi.methods

theorem Smooth.plainHeaderText {w : String} (hw : Smooth w.toList) {name : String}
    (hname : Smooth name.toList) : Smooth (plainHeaderText w name) :=
  hw.append (hname.cons rfl)

/-- An interface is found under the first word of its name. -/
theorem exists_draws_interfaceLines {i : Interface} (hi : i.Legible) :
    ∃ b, Draws ((interfaceLines i).map strippedLine) [b] [] ∧
      b.header.declared = .ofInterface (leadingWord i.name) := by
  have hheader := Smooth.plainHeaderText (w := "interface") (.of_all rfl) hi.name
  exact ⟨_, draws_bracedLines (intact_openingMark hheader.all true)
    (header?_plain hi.title hi.name true).1 rfl (openDepth_of_quiet hi.quiet), rfl⟩

/-- An enum is found under the first word of its name. -/
theorem exists_draws_enumLines {e : Enum} (he : e.Legible) :
    ∃ b, Draws ((enumLines e).map strippedLine) [b] [] ∧
      b.header.declared = .ofEnum (leadingWord e.name) := by
  have hheader := Smooth.plainHeaderText (w := "enum") (.of_all rfl) he.name
  rw [enumLines]
  by_cases hempty : e.properties.isEmpty = true
  · have hread := (header?_plain he.title he.name false).2
    rw [openingMark, if_neg Bool.false_ne_true, List.append_nil] at hread
    rw [if_pos hempty]
    exact ⟨_, draws_header (intact_of_all hheader.all) hread rfl, rfl⟩
  · rw [if_neg hempty]
    exact ⟨_, draws_bracedLines (intact_openingMark hheader.all true)
      (header?_plain he.title he.name true).2 rfl (openDepth_of_quiet he.quiet), rfl⟩

/-- The line of an association declares nothing, and nor does one whose left type goes on. -/
theorem header?_associationText_of_title {a : Association} (ha : IsTitle a.left) :
    header? (associationText a) = none := by
  rw [associationText, leadingWord_append]
  cases hd : a.left.toList.dropWhile isWordChar with
  | nil => exact header?_word_association ha.word a
  | cons d t =>
      obtain rfl : d = '.' := ha.dot d (by rw [hd]; rfl)
      exact header?_dot_eq_none ha.word _

theorem Association.Legible.smooth {a : Association} (ha : a.Legible) :
    Smooth (associationText a) := by
  have hquoted : ∀ m : Multiplicity, Smooth (quotedText m) := by
    intro m
    cases m <;> exact .of_all rfl
  have hlabel : Smooth (labelText a.label) := by
    unfold labelText
    split
    · exact .of_all rfl
    · exact ((ha.label.cons rfl).cons rfl).cons rfl
  have hrest : Smooth (associationRest a) :=
    Smooth.cons rfl ((hquoted _).append ((ha.right.append hlabel).cons rfl))
  have hoperator : Smooth "*-->".toList := .of_all rfl
  exact ha.left.append (((hquoted _).append ((hoperator.append hrest).cons rfl)).cons rfl)

/-- The line of an association stands alone. -/
theorem exists_draws_associationText {a : Association} (ha : a.Legible) :
    ∃ ss, Draws [strippedLine (associationText a)] [] ss := by
  have hword : BeginsWithWord (associationText a) :=
    ⟨_, _, ha.title.word, leadingWord_append a.left _⟩
  rw [(intact_of_all ha.smooth.all).strippedLine]
  exact ⟨_, draws_standalone (header?_associationText_of_title ha.title)
    fun rest _ => openingLine?_of_word hword rest⟩

theorem exists_draws_associationChunks {m : Model} (hm : m.Legible) :
    ∃ ss, Draws ((spacedOut (associationChunks m)).map strippedLine) [] ss := by
  have hlines : ∀ as : List Association, (∀ a ∈ as, a.Legible) →
      ∃ ss, Draws ((as.map associationText).map strippedLine) [] ss := by
    intro as has
    induction as with
    | nil => exact ⟨[], Draws.nil⟩
    | cons a as ih =>
        obtain ⟨ss, hss⟩ := exists_draws_associationText (has a (by simp))
        obtain ⟨ts, hts⟩ := ih fun b hb => has b (by simp [hb])
        exact ⟨ss ++ ts, hss.append hts⟩
  rw [associationChunks]
  split
  · exact ⟨[], Draws.nil⟩
  · simpa [spacedOut] using hlines m.associations hm.associations

/-- Chunks with one declaration each, spaced out, declare one after the other. -/
theorem exists_draws_spacedOut {α : Type} {xs : List α} {ls : α → List (List Char)}
    {declared : α → Declared} (h : ∀ x ∈ xs, ∃ b, Draws ((ls x).map strippedLine) [b] [] ∧
      b.header.declared = declared x) :
    ∃ bs, Draws ((spacedOut (xs.map ls)).map strippedLine) bs [] ∧
      (bs.map fun b => b.header.declared) = xs.map declared := by
  induction xs with
  | nil => exact ⟨[], Draws.nil, rfl⟩
  | cons x xs ih =>
      obtain ⟨b, hb, hd⟩ := h x (by simp)
      obtain ⟨bs, hbs, hds⟩ := ih fun y hy => h y (by simp [hy])
      have hx : Draws ((spacedOut [ls x]).map strippedLine) [b] [] := by
        simpa [spacedOut] using hb
      refine ⟨b :: bs, draws_spacedOut_append hx hbs, ?_⟩
      rw [List.map_cons, List.map_cons, hd, hds]

/-- What a legible model declares, of each type the first word of its name. -/
def Model.declarations (m : Model) : List Declared :=
  m.classes.values.map (fun c => .ofClass (leadingWord c.name)) ++
    (m.interfaces.values.map (fun i => .ofInterface (leadingWord i.name)) ++
      m.enums.values.map fun e => .ofEnum (leadingWord e.name))

/-- The outline of a legible model declares its types in their order. -/
theorem exists_draws_diagramLines {m : Model} (hm : m.Legible) :
    ∃ bs ss, Draws ((diagramLines m).map strippedLine) bs ss ∧
      (bs.map fun b => b.header.declared) = m.declarations := by
  obtain ⟨cs, hcs, hclasses⟩ := exists_draws_spacedOut fun c hc =>
    exists_draws_classLines (hm.classes c hc)
  obtain ⟨is, his, hinterfaces⟩ := exists_draws_spacedOut fun i hi =>
    exists_draws_interfaceLines (hm.interfaces i hi)
  obtain ⟨es, hes, henums⟩ := exists_draws_spacedOut fun e he =>
    exists_draws_enumLines (hm.enums e he)
  obtain ⟨ss, hss⟩ := exists_draws_associationChunks hm
  refine ⟨_, _, draws_diagramLines_of_chunks (draws_spacedOut_append hcs
    (draws_spacedOut_append his (draws_spacedOut_append hes hss))), ?_⟩
  rw [List.append_nil, List.map_append, List.map_append, hclasses, hinterfaces, henums]
  rfl

/-! ### Reading a legible model -/

theorem not_mem_bracedLines_of_smooth {header : List Char} {members : List (List Char)}
    (hheader : Smooth header) (hmembers : ∀ l ∈ members, Quiet l) :
    ∀ l ∈ bracedLines header members, '\n' ∉ l :=
  not_mem_bracedLines (intact_openingMark hheader.all true) fun l hl => (hmembers l hl).oneLine

theorem not_mem_singleton_of_smooth {line : List Char} (h : Smooth line) :
    ∀ l ∈ [line], '\n' ∉ l := by
  intro l hl
  rw [List.mem_singleton.mp hl]
  exact h.quiet.oneLine

/-- No line of a legible model becomes two. -/
theorem Model.Legible.not_mem_diagramLines {m : Model} (hm : m.Legible) :
    ∀ l ∈ diagramLines m, '\n' ∉ l := by
  refine not_mem_diagramLines_of_chunks fun chunk hchunk => ?_
  simp only [diagramChunks, associationChunks, List.mem_append, List.mem_map] at hchunk
  rcases hchunk with ⟨c, hc, rfl⟩ | ⟨i, hi, rfl⟩ | ⟨e, he, rfl⟩ | hchunk
  · have hlegible := hm.classes c hc
    rw [classLines]
    split
    · exact not_mem_bracedLines_of_smooth hlegible.smooth_header hlegible.quiet
    · exact not_mem_singleton_of_smooth hlegible.smooth_header
  · have hlegible := hm.interfaces i hi
    exact not_mem_bracedLines_of_smooth
      (.plainHeaderText (.of_all rfl) hlegible.name) hlegible.quiet
  · have hlegible := hm.enums e he
    have hheader : Smooth (plainHeaderText "enum" e.name) :=
      .plainHeaderText (.of_all rfl) hlegible.name
    rw [enumLines]
    split
    · exact not_mem_singleton_of_smooth hheader
    · exact not_mem_bracedLines_of_smooth hheader hlegible.quiet
  · split at hchunk
    · cases hchunk
    · rw [List.mem_singleton.mp hchunk]
      intro l hl
      obtain ⟨a, ha, rfl⟩ := List.mem_map.mp hl
      exact (hm.associations a ha).smooth.quiet.oneLine

/-- What a diagram says of some names: the first word of each, and no word twice. -/
def Names.written (n : Names) : Names where
  classes := (n.classes.map leadingWord).eraseDups
  interfaces := (n.interfaces.map leadingWord).eraseDups
  enums := (n.enums.map leadingWord).eraseDups

theorem eraseDups_of_nodup {names : List String} (h : names.Nodup) : names.eraseDups = names := by
  induction names with
  | nil => exact List.eraseDups_nil
  | cons name names ih =>
      obtain ⟨hnew, hnodup⟩ := List.nodup_cons.mp h
      have hfilter : names.filter (fun w => !w == name) = names := by
        refine List.filter_eq_self.mpr fun w hw => ?_
        have hne : w ≠ name := by
          rintro rfl
          exact hnew hw
        simpa using hne
      rw [List.eraseDups_cons, hfilter, ih hnodup]

/-- Distinct words are found again as they are. -/
theorem eraseDups_map_leadingWord {names : List String} (hwords : ∀ w ∈ names, IsWord w.toList)
    (hnodup : names.Nodup) : (names.map leadingWord).eraseDups = names := by
  have hmap : names.map leadingWord = names :=
    (List.map_congr_left fun w hw => (IsTitle.of_isWord (hwords w hw)).2).trans (List.map_id _)
  rw [hmap, eraseDups_of_nodup hnodup]

/-- **The types of a legible model are found again, each under the first word of its name.** -/
theorem names_read_render {m : Model} (hm : m.Legible) :
    (Diagram.read (Diagram.render m)).value.names = m.names.written := by
  obtain ⟨bs, ss, hdraws, hdeclared⟩ := exists_draws_diagramLines hm
  have hnone : ∀ {α : Type} (xs : List α), xs.filterMap (fun _ => (none : Option String)) = [] :=
    fun xs => List.filterMap_eq_nil_iff.mpr fun _ _ => rfl
  rw [names_read, value_stripModifiers_render hm.not_mem_diagramLines, Outline.names,
    hdraws.ofLines.1, hdeclared]
  simp [Model.declarations, Names.written, Model.names, List.filterMap_append, List.filterMap_map,
    Function.comp_def, Declared.className?, Declared.interfaceName?, Declared.enumName?,
    hnone]

end ClassModel
