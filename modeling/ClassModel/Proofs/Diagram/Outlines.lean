/-
The outline of a written diagram.

The outline is found from the top, and a header looks ahead for the brace that opens its
body, so what a line becomes may depend on the lines behind it.  `Draws` says of some lines
what they become whatever follows, as long as no brace does, and that no brace opens a body
at their own beginning.  Lines that satisfy it can be put one behind the other.

Each chunk of a written diagram satisfies it: a declaration becomes one block with its
members, and all other lines stand alone, where only the associations say anything.
-/
import ClassModel.Diagram.Reader
import ClassModel.Proofs.Diagram.Drawable
import ClassModel.Proofs.Diagram.Layout

namespace ClassModel

open LineParser

/-! ### One line at a time -/

theorem ofLines_nil : Outline.ofLines [] = {} := by
  rw [Outline.ofLines]

theorem ofLines_standalone {line : Line} (h : header? line.text = none) (rest : List Line) :
    Outline.ofLines (line :: rest) =
      { Outline.ofLines rest with standalone := line :: (Outline.ofLines rest).standalone } := by
  rw [Outline.ofLines, h]

theorem ofLines_block {line : Line} {header : Header} {rest body after : List Line}
    (h : header? line.text = some header)
    (hbody : collectBody line header.body rest = some (body, after)) :
    Outline.ofLines (line :: rest) = { Outline.ofLines after with
      blocks := ⟨header, line.modifiers, body⟩ :: (Outline.ofLines after).blocks } := by
  rw [Outline.ofLines, h]
  simp only
  split
  · rename_i heq
    rw [hbody] at heq
    cases heq
    rfl
  · rename_i heq
    rw [hbody] at heq
    cases heq

theorem ofLines_bare {line : Line} {header : Header} {rest : List Line}
    (h : header? line.text = some header) (hbody : collectBody line header.body rest = none) :
    Outline.ofLines (line :: rest) = { Outline.ofLines rest with
      blocks := ⟨header, line.modifiers, []⟩ :: (Outline.ofLines rest).blocks } := by
  rw [Outline.ofLines, h]
  simp only
  split
  · rename_i heq
    rw [hbody] at heq
    cases heq
  · rfl

/-! ### Lines that mean the same whatever follows -/

/-- A standalone line that says something. -/
def Standalone.speaks : Standalone → Bool
  | unrecognized _ => false
  | _ => true

/-- What the standalone lines of an outline say. -/
def Outline.statements (o : Outline) : List Standalone :=
  (o.standalone.map Standalone.ofLine).filter Standalone.speaks

/-- Lines that become the given declarations and statements, whatever follows. -/
structure Draws (ls : List Line) (blocks : List Block) (statements : List Standalone) : Prop where
  blocks : ∀ rest, openingLine? rest = none →
    (Outline.ofLines (ls ++ rest)).blocks = blocks ++ (Outline.ofLines rest).blocks
  statements : ∀ rest, openingLine? rest = none →
    (Outline.ofLines (ls ++ rest)).statements = statements ++ (Outline.ofLines rest).statements
  opensNothing : ∀ rest, openingLine? rest = none → openingLine? (ls ++ rest) = none

namespace Draws

variable {a b : List Line} {bs cs : List Block} {ss ts : List Standalone}

theorem nil : Draws [] [] [] :=
  ⟨fun _ _ => rfl, fun _ _ => rfl, fun _ h => h⟩

theorem append (ha : Draws a bs ss) (hb : Draws b cs ts) : Draws (a ++ b) (bs ++ cs) (ss ++ ts) := by
  refine ⟨fun rest h => ?_, fun rest h => ?_, fun rest h => ?_⟩
  · rw [List.append_assoc, ha.blocks _ (hb.opensNothing rest h), hb.blocks rest h, List.append_assoc]
  · rw [List.append_assoc, ha.statements _ (hb.opensNothing rest h), hb.statements rest h,
      List.append_assoc]
  · rw [List.append_assoc]
    exact ha.opensNothing _ (hb.opensNothing rest h)

/-- The outline of such lines, if they are all there is. -/
theorem ofLines (h : Draws a bs ss) :
    (Outline.ofLines a).blocks = bs ∧ (Outline.ofLines a).statements = ss := by
  have hb := h.blocks [] rfl
  have hs := h.statements [] rfl
  rw [List.append_nil, ofLines_nil] at hb hs
  exact ⟨hb.trans (List.append_nil _), hs.trans (List.append_nil _)⟩

/-- No lines are no declarations. -/
theorem eq_nil (h : Draws [] bs ss) : bs = [] ∧ ss = [] := by
  have he := h.ofLines
  rw [ofLines_nil] at he
  exact ⟨he.1.symm, he.2.symm⟩

end Draws

/-- A text that does not open a body. -/
def OpensNothing (text : List Char) : Prop :=
  Stops (· == '\x7b') (trimStart text)

theorem opensNothing_of_stops {text : List Char} (hs : Stops isBlank text)
    (hb : Stops (· == '\x7b') text) : OpensNothing text := by
  rw [OpensNothing, trimStart, dropWhile_of_stops hs]
  exact hb

/-- A text that begins with a word. -/
def BeginsWithWord (text : List Char) : Prop :=
  ∃ w r, IsWord w ∧ text = w ++ r

/-- A line that begins with a word opens nothing, whatever follows it. -/
theorem openingLine?_of_word {line : Line} (h : BeginsWithWord line.text) (rest : List Line) :
    openingLine? (line :: rest) = none := by
  obtain ⟨w, r, hw, he⟩ := h
  have hopen : OpensNothing line.text := by
    rw [he]
    exact opensNothing_of_stops (hw.stops (fun _ => isBlank_of_isWordChar) r)
      (hw.stops (fun _ hc => beq_false_of_isWordChar hc (by decide)) r)
  have hblank : isBlankText line.text = false := by
    obtain ⟨c, t, rfl, hc⟩ := hw.exists_cons
    rw [he, isBlankText, List.cons_append, List.all_cons, isBlank_of_isWordChar hc]
    rfl
  rw [openingLine?, if_neg (by simp [hblank])]
  split
  · rename_i r he
    rw [OpensNothing, he] at hopen
    exact absurd (stops_cons.mp hopen) (by decide)
  · rfl

/-- A header begins with one of the keywords, behind spaces. -/
theorem beginsWithWord_of_header? {line : List Char} {header : Header}
    (h : header? line = some header) : BeginsWithWord (line.dropWhile isSpace) := by
  have hkeyword : ∀ {k : String} {s r : List Char}, IsWord k.toList →
      keyword k s = some ((), r) → BeginsWithWord s := by
    intro k s r hk hread
    exact ⟨k.toList, r, hk, keyword_eq_some hread⟩
  rw [header?, accept, Option.map_eq_some_iff] at h
  obtain ⟨⟨_, _⟩, hread, -⟩ := h
  simp only [LineParser.header, bind_apply, Option.bind_eq_some_iff, spaces_apply] at hread
  obtain ⟨⟨_, s⟩, hspaces, ⟨_, r⟩, hdeclaration, -⟩ := hread
  cases hspaces
  simp only [orElse_apply, Option.or_eq_some_iff, classHeader, plainHeader, bind_apply,
    Option.bind_eq_some_iff] at hdeclaration
  rcases hdeclaration with ⟨⟨_, t⟩, hmark, ⟨_, _⟩, hclass, -⟩ | ⟨-, hplain⟩
  · rcases optional_eq_some_iff.mp hmark with ⟨_, -, habstract⟩ | ⟨-, -, rfl⟩
    · simp only [bind_apply, Option.bind_eq_some_iff] at habstract
      obtain ⟨⟨_, _⟩, hword, -⟩ := habstract
      exact hkeyword (by decide) hword
    · exact hkeyword (by decide) hclass
  · rcases hplain with ⟨⟨_, _⟩, hinterface, -⟩ | ⟨-, ⟨_, _⟩, henum, -⟩
    · exact hkeyword (by decide) hinterface
    · exact hkeyword (by decide) henum

/-- Blanks left aside, a header begins with a letter of its keyword. -/
theorem trimStart_of_header? {line : List Char} {header : Header} (h : header? line = some header) :
    ∃ c t, trimStart line = c :: t ∧ isWordChar c = true := by
  obtain ⟨w, r, hw, he⟩ := beginsWithWord_of_header? h
  obtain ⟨c, t, rfl, hc⟩ := hw.exists_cons
  have hspaces : ∀ d ∈ line.takeWhile isSpace, isBlank d = true := by
    intro d hd
    have hspace := of_mem_takeWhile hd
    simp only [isSpace, Bool.or_eq_true, beq_iff_eq] at hspace
    rcases hspace with rfl | rfl <;> rfl
  refine ⟨c, t ++ r, ?_, hc⟩
  rw [← run_append isSpace line, he, trimStart, List.dropWhile_append_of_pos hspaces,
    List.cons_append, List.dropWhile_cons_of_neg (by simp [isBlank_of_isWordChar hc])]

theorem isBlankText_of_header? {line : List Char} {header : Header}
    (h : header? line = some header) : isBlankText line = false := by
  obtain ⟨c, t, htrim, -⟩ := trimStart_of_header? h
  rw [← Bool.not_eq_true, ← trimStart_eq_nil_iff, htrim]
  exact List.cons_ne_nil _ _

/-- So no header opens the body of the one before it. -/
theorem openingLine?_of_header? {line : Line} {header : Header}
    (h : header? line.text = some header) (rest : List Line) :
    openingLine? (line :: rest) = none := by
  obtain ⟨c, t, htrim, hc⟩ := trimStart_of_header? h
  rw [openingLine?, if_neg (by simp [isBlankText_of_header? h]), htrim]
  split
  · rename_i hbrace
    cases hbrace
    exact absurd hc (by decide)
  · rfl

/-- A line that declares nothing stands alone. -/
theorem draws_standalone {line : Line} (h : header? line.text = none)
    (hopen : ∀ rest, openingLine? rest = none → openingLine? (line :: rest) = none) :
    Draws [line] [] ([Standalone.ofLine line].filter Standalone.speaks) := by
  refine ⟨fun rest _ => ?_, fun rest _ => ?_, hopen⟩
  · rw [List.singleton_append, ofLines_standalone h]
    rfl
  · rw [List.singleton_append, ofLines_standalone h, Outline.statements, Outline.statements,
      List.map_cons, ← List.singleton_append, List.filter_append]

/-- A header declares something with the body that is found behind it, whatever follows. -/
theorem draws_block {line : Line} {header : Header} {following body : List Line}
    (h : header? line.text = some header)
    (hbody : ∀ rest, collectBody line header.body (following ++ rest) = some (body, rest)) :
    Draws (line :: following) [⟨header, line.modifiers, body⟩] [] := by
  refine ⟨fun rest _ => ?_, fun rest _ => ?_, fun rest _ => openingLine?_of_header? h _⟩
  · rw [List.cons_append, ofLines_block h (hbody rest)]
    rfl
  · rw [List.cons_append, ofLines_block h (hbody rest)]
    rfl

/-- A header without a brace declares something without members. -/
theorem draws_bare {line : Line} {header : Header} (h : header? line.text = some header)
    (hbody : header.body = none) : Draws [line] [⟨header, line.modifiers, []⟩] [] := by
  have hnone : ∀ rest, openingLine? rest = none → collectBody line header.body rest = none := by
    intro rest hr
    rw [hbody, collectBody, hr]
    rfl
  refine ⟨fun rest hr => ?_, fun rest hr => ?_, fun rest _ => openingLine?_of_header? h rest⟩
  · rw [List.singleton_append, ofLines_bare h (hnone rest hr)]
    rfl
  · rw [List.singleton_append, ofLines_bare h (hnone rest hr)]
    rfl

/-- The lines that a body is read from, once its brace is open. -/
def bodyOf (members : List Line) : List Line :=
  { text := [] } :: (members ++ [{ text := [] }])

/-- A header with a brace declares something with the members up to the closing line, if the
braces between them are balanced. -/
theorem draws_braced {line : Line} {header : Header} {members : List Line}
    (h : header? line.text = some header) (hbody : header.body = some [])
    (hmodifiers : line.modifiers = {})
    (hbalanced : openDepth 0 (members.flatMap Line.text) = some 0) :
    Draws (line :: (members ++ [closingLine])) [⟨header, {}, bodyOf members⟩] [] := by
  have hcollect : ∀ rest, collectBody line header.body (members ++ [closingLine] ++ rest) =
      some (bodyOf members, rest) := by
    intro rest
    rw [hbody, collectBody, hmodifiers, List.append_assoc]
    exact gatherBody_closingLine hbalanced rest
  have hdraws := draws_block h hcollect
  rwa [hmodifiers] at hdraws

/-! ### The lines of a declaration -/

/-- The lines of members, once their modifiers are taken out. -/
def linesOfMembers (attributes : List Attribute) (methods : List Method) : List Line :=
  attributes.map lineOfAttribute ++
    ((if attributes = [] ∨ methods = [] then [] else [{ text := [] }]) ++ methods.map lineOfMethod)

theorem braces_lineOfAttribute {a : Attribute} (ha : a.Drawable) :
    braces (lineOfAttribute a).text = braces a.type.toList := by
  rw [lineOfAttribute, ← attributeText_eq]
  exact braces_attributeText ha.name

theorem braces_lineOfMethod {m : Method} (hm : m.Writable) :
    braces (lineOfMethod m).text = braces m.typesText := by
  rw [lineOfMethod, ← methodText_eq]
  exact braces_methodText hm

/-- The braces of the members of an entity are those of its types. -/
theorem braces_linesOfMembers {as : List Attribute} {ms : List Method}
    (ha : ∀ a ∈ as, a.Drawable) (hm : ∀ m ∈ ms, m.Drawable) :
    braces ((linesOfMembers as ms).flatMap Line.text) = braces (typesText as ms) := by
  have hattributes : braces ((as.map lineOfAttribute).flatMap Line.text) =
      braces (as.flatMap fun a => a.type.toList) := by
    induction as with
    | nil => rfl
    | cons a as ih =>
        rw [List.map_cons, List.flatMap_cons, List.flatMap_cons, braces_append, braces_append,
          braces_lineOfAttribute (ha a (by simp)), ih fun b hb => ha b (by simp [hb])]
  have hmethods : braces ((ms.map lineOfMethod).flatMap Line.text) =
      braces (ms.flatMap Method.typesText) := by
    induction ms with
    | nil => rfl
    | cons m ms ih =>
        rw [List.map_cons, List.flatMap_cons, List.flatMap_cons, braces_append, braces_append,
          braces_lineOfMethod (hm m (by simp)).toWritable, ih fun n hn => hm n (by simp [hn])]
  have hgap : braces ((if as = [] ∨ ms = [] then [] else [({ text := [] } : Line)]).flatMap
      Line.text) = [] := by
    split <;> rfl
  rw [linesOfMembers, List.flatMap_append, List.flatMap_append, braces_append, braces_append,
    hattributes, hmethods, hgap, typesText, braces_append]
  rfl

/-- The members of an entity stay in its body if their types hold no unmatched brace. -/
theorem openDepth_linesOfMembers {as : List Attribute} {ms : List Method}
    (ha : ∀ a ∈ as, a.Drawable) (hm : ∀ m ∈ ms, m.Drawable) :
    openDepth 0 ((linesOfMembers as ms).flatMap Line.text) = openDepth 0 (typesText as ms) :=
  openDepth_congr (braces_linesOfMembers ha hm) 0

theorem strippedLine_closing : strippedLine ['\x7d'] = closingLine :=
  (intact_of_all (by decide)).strippedLine

theorem strippedLine_nil : strippedLine [] = { text := [] } :=
  (intact_of_all (by decide)).strippedLine

/-- The lines of a declaration with a body, once their modifiers are taken out. -/
theorem map_strippedLine_bracedLines {header : List Char} {members : List (List Char)}
    (h : Intact (header ++ openingMark true)) :
    (bracedLines header members).map strippedLine =
      { text := header ++ openingMark true } ::
        (members.map strippedLine ++ [closingLine]) := by
  rw [bracedLines, List.map_cons, List.map_append, h.strippedLine, List.map_cons, List.map_nil,
    strippedLine_closing]

/-- A declaration with a body becomes a block. -/
theorem draws_bracedLines {header : List Char} {members : List (List Char)} {h : Header}
    (hintact : Intact (header ++ openingMark true))
    (hread : header? (header ++ openingMark true) = some h) (hbody : h.body = some [])
    (hbalanced : openDepth 0 ((members.map strippedLine).flatMap Line.text) = some 0) :
    Draws ((bracedLines header members).map strippedLine)
      [⟨h, {}, bodyOf (members.map strippedLine)⟩] [] := by
  rw [map_strippedLine_bracedLines hintact]
  exact draws_braced hread hbody rfl hbalanced

/-- A declaration without a body becomes a block without members. -/
theorem draws_header {header : List Char} {h : Header} (hintact : Intact header)
    (hread : header? header = some h) (hbody : h.body = none) :
    Draws ([header].map strippedLine) [⟨h, {}, []⟩] [] := by
  rw [List.map_singleton, hintact.strippedLine]
  exact draws_bare hread hbody

/-! ### Entities -/

/-- The stripped lines of the members of a class. -/
theorem map_strippedLine_memberLines {c : Class} (hc : c.Drawable)
    (hkept : Kept c.attributes.values c.methods.values) :
    (memberLines c).map strippedLine = linesOfMembers c.attributes.values c.methods.values := by
  have hattributes : (c.attributes.values.map fun a => (Diagram.attributeLine a).toList).map
      strippedLine = c.attributes.values.map lineOfAttribute := by
    rw [List.map_map]
    exact List.map_congr_left fun a ha =>
      strippedLine_attributeLine (hc.attributes a ha).name (hc.attributes a ha).type
        (hkept.attributes a ha)
  have hmethods : (c.methods.values.map fun m => (Diagram.methodLine m).toList).map strippedLine =
      c.methods.values.map lineOfMethod := by
    rw [List.map_map]
    exact List.map_congr_left fun m hm =>
      strippedLine_methodLine (hc.methods m hm).toWritable (hkept.methods m hm)
  have hgap : (if c.attributes.isEmpty || c.methods.isEmpty then [] else [[]]).map strippedLine =
      if c.attributes.values = [] ∨ c.methods.values = [] then [] else [{ text := [] }] := by
    simp only [values_eq_nil_iff, ← Bool.or_eq_true]
    split
    · rfl
    · rw [List.map_singleton, strippedLine_nil]
  rw [memberLines, List.map_append, List.map_append, hattributes, hmethods, hgap, linesOfMembers]

/-- The declaration of a class. -/
def blockOfClass (c : Class) : Block where
  header :=
    { name := c.name
      kind := .ofClass c.isAbstract c.superclass c.interfaces
      body := if c.hasMembers then some [] else none }
  modifiers := {}
  body := if c.hasMembers then bodyOf (linesOfMembers c.attributes.values c.methods.values) else []

theorem beginsWithWord_classHeaderText (c : Class) (b : Bool) :
    BeginsWithWord (classHeaderText c ++ openingMark b) := by
  by_cases ha : c.isAbstract = true
  · refine ⟨"abstract".toList, ' ' :: (classText c ++ openingMark b), by decide, ?_⟩
    rw [classHeaderText, if_pos ha, List.append_assoc, List.append_assoc, List.singleton_append]
  · refine ⟨"class".toList, ' ' :: (c.name.toList ++ (extendsText c.superclass ++
      implementsText c.interfaces)) ++ openingMark b, by decide, ?_⟩
    rw [classHeaderText, if_neg ha, List.nil_append, classText, List.append_assoc]

theorem draws_classLines {c : Class} (hc : c.Drawable)
    (hkept : Kept c.attributes.values c.methods.values) :
    Draws ((classLines c).map strippedLine) [blockOfClass c] [] := by
  have hread := header?_classHeaderText hc.toHeaded
  have hintact := intact_openingMark (intact_classHeaderText hc.toHeaded)
  have hbalanced := (openDepth_linesOfMembers hc.attributes hc.methods).trans hkept.balanced
  rw [← map_strippedLine_memberLines hc hkept] at hbalanced
  rw [classLines, blockOfClass]
  by_cases h : c.hasMembers = true
  · rw [if_pos h, if_pos h, if_pos h, ← map_strippedLine_memberLines hc hkept]
    exact draws_bracedLines (hintact true) (hread true) rfl hbalanced
  · rw [if_neg h, if_neg h, if_neg h]
    have hplain := hread false
    have hline := hintact false
    rw [openingMark, if_neg Bool.false_ne_true, List.append_nil] at hplain hline
    exact draws_header hline hplain rfl

/-- The lines of the methods of an interface; there is always one. -/
def linesOfMethods (ms : List Method) : List Line :=
  if ms = [] then [{ text := [] }] else ms.map lineOfMethod

theorem map_strippedLine_interfaceMemberLines {i : Interface} (hi : i.Drawable)
    (hkept : Kept [] i.methods.values) :
    (interfaceMemberLines i).map strippedLine = linesOfMethods i.methods.values := by
  simp only [interfaceMemberLines, linesOfMethods, values_eq_nil_iff]
  split
  · rw [List.map_singleton, strippedLine_nil]
  · rw [List.map_map]
    exact List.map_congr_left fun m hm =>
      strippedLine_methodLine (hi.methods m hm).toWritable (hkept.methods m hm)

/-- The declaration of an interface. -/
def blockOfInterface (i : Interface) : Block where
  header := { name := i.name, kind := .ofInterface, body := some [] }
  modifiers := {}
  body := bodyOf (linesOfMethods i.methods.values)

theorem beginsWithWord_plainHeaderText {w n : String} (hw : IsWord w.toList) (b : Bool) :
    BeginsWithWord (plainHeaderText w n ++ openingMark b) :=
  ⟨w.toList, ' ' :: n.toList ++ openingMark b, hw, by rw [plainHeaderText, List.append_assoc]⟩

theorem openDepth_linesOfMethods {ms : List Method} (hm : ∀ m ∈ ms, m.Drawable) :
    openDepth 0 ((linesOfMethods ms).flatMap Line.text) = openDepth 0 (typesText [] ms) := by
  have hnone : ∀ a ∈ ([] : List Attribute), a.Drawable := by simp
  rw [← openDepth_linesOfMembers hnone hm, linesOfMethods]
  by_cases h : ms = []
  · subst h
    rfl
  · rw [if_neg h]
    simp [linesOfMembers]

theorem draws_interfaceLines {i : Interface} (hi : i.Drawable) (hkept : Kept [] i.methods.values) :
    Draws ((interfaceLines i).map strippedLine) [blockOfInterface i] [] := by
  have hintact := intact_openingMark
    (intact_plainHeaderText (w := "interface") (by decide) hi.name) true
  rw [interfaceLines, blockOfInterface, ← map_strippedLine_interfaceMemberLines hi hkept]
  refine draws_bracedLines hintact (header?_interface hi.name true) rfl ?_
  rw [map_strippedLine_interfaceMemberLines hi hkept, openDepth_linesOfMethods hi.methods]
  exact hkept.balanced

/-- The declaration of an enum. -/
def blockOfEnum (e : Enum) : Block where
  header :=
    { name := e.name
      kind := .ofEnum
      body := if e.properties.isEmpty then none else some [] }
  modifiers := {}
  body := if e.properties.isEmpty then []
    else bodyOf (e.properties.values.map fun p => { text := constantText p })

theorem braces_constantText {p : EnumProperty} (hp : p.Drawable) :
    braces (constantText p) = [] := by
  have hvalue : braces (if p.value.toList = [] then []
      else ' ' :: ':' :: ' ' :: p.value.toList) = [] := by
    split
    · rfl
    · rw [braces_cons_of_not rfl, braces_cons_of_not rfl, braces_cons_of_not rfl,
        braces_of_isWord (hp.value ‹_›)]
  rw [constantText, braces_cons_of_not rfl, braces_append, braces_of_isWord hp.name, hvalue]
  rfl

theorem draws_enumLines {e : Enum} (he : e.Drawable) :
    Draws ((enumLines e).map strippedLine) [blockOfEnum e] [] := by
  have hall := intact_plainHeaderText (w := "enum") (by decide) he.name
  have hmembers : (e.properties.values.map constantText).map strippedLine =
      e.properties.values.map fun p => { text := constantText p } := by
    rw [List.map_map]
    exact List.map_congr_left fun p hp => (intact_constantText (he.properties p hp)).strippedLine
  have hbraces : braces (((e.properties.values.map constantText).map strippedLine).flatMap
      Line.text) = [] := by
    rw [hmembers, List.flatMap_map]
    refine List.filter_eq_nil_iff.mpr fun c hc => ?_
    obtain ⟨p, hp, hc⟩ := List.mem_flatMap.mp hc
    exact List.filter_eq_nil_iff.mp (braces_constantText (he.properties p hp)) c hc
  rw [enumLines, blockOfEnum, ← hmembers]
  by_cases h : e.properties.isEmpty = true
  · rw [if_pos h, if_pos h, if_pos h]
    have hread := header?_enum he.name false
    rw [openingMark, if_neg Bool.false_ne_true, List.append_nil] at hread
    exact draws_header (intact_of_all hall) hread rfl
  · rw [if_neg h, if_neg h, if_neg h]
    refine draws_bracedLines (intact_openingMark hall true) (header?_enum he.name true) rfl ?_
    rw [← openDepth_braces, hbraces, openDepth_nil]

/-! ### Associations and the lines between chunks -/

/-- The composition that the line of an association describes. -/
def Association.relation (a : Association) : Relation where
  left := a.left
  leftMultiplicity := quotedLiteral a.rightToLeft
  separator := "*-->"
  rightMultiplicity := quotedLiteral a.leftToRight
  right := a.right
  label := if a.label.toList = [] then none else some a.label

/-- The line of an association says just that. -/
theorem ofLine_associationText {a : Association} (ha : a.Drawable) :
    Standalone.ofLine { text := associationText a } = .composition a.relation := by
  simp only [Standalone.ofLine, inlineMember?_associationText ha, composition?_associationText ha]
  rfl

theorem draws_associationText {a : Association} (ha : a.Drawable) :
    Draws [strippedLine (associationText a)] [] [.composition a.relation] := by
  have hword : BeginsWithWord (associationText a) := ⟨_, _, ha.left, rfl⟩
  have h : Draws [{ text := associationText a }] []
      ([Standalone.ofLine { text := associationText a }].filter Standalone.speaks) :=
    draws_standalone (header?_associationText ha) fun rest _ => openingLine?_of_word hword rest
  rw [ofLine_associationText ha] at h
  rw [(intact_associationText ha).strippedLine]
  exact h

/-- A blank line says nothing. -/
theorem draws_nil : Draws [strippedLine []] [] [] := by
  rw [strippedLine_nil]
  exact draws_standalone (by decide +kernel) fun rest hr => hr

/-- The directive at the beginning of a diagram says nothing. -/
theorem draws_start : Draws [strippedLine "@startuml".toList] [] [] := by
  have hintact : Intact "@startuml".toList := intact_of_all (by decide)
  rw [hintact.strippedLine]
  exact draws_standalone (by decide +kernel) fun rest _ => rfl

/-- Neither does the one at its end. -/
theorem draws_end : Draws [strippedLine "@enduml".toList] [] [] := by
  have hintact : Intact "@enduml".toList := intact_of_all (by decide)
  rw [hintact.strippedLine]
  exact draws_standalone (by decide +kernel) fun rest _ => rfl

/-! ### Diagrams -/

/-- The declarations of a diagram. -/
def diagramBlocks (m : Model) : List Block :=
  m.classes.values.map blockOfClass ++ (m.interfaces.values.map blockOfInterface ++
    m.enums.values.map blockOfEnum)

/-- The statements of a diagram. -/
def diagramStatements (m : Model) : List Standalone :=
  m.associations.map fun a => .composition a.relation

/-- The members of every entity are kept. -/
structure Model.Kept (m : Model) : Prop where
  classes : ∀ c ∈ m.classes.values, ClassModel.Kept c.attributes.values c.methods.values
  interfaces : ∀ i ∈ m.interfaces.values, ClassModel.Kept [] i.methods.values

instance (m : Model) : Decidable m.Kept :=
  decidable_of_iff
    ((∀ c ∈ m.classes.values, ClassModel.Kept c.attributes.values c.methods.values) ∧
      ∀ i ∈ m.interfaces.values, ClassModel.Kept [] i.methods.values)
    ⟨fun h => ⟨h.1, h.2⟩, fun h => ⟨h.classes, h.interfaces⟩⟩

/-- Chunks that are drawn may be spaced out. -/
theorem draws_spacedOut {α : Type} {xs : List α} {ls : α → List (List Char)}
    (bs : α → List Block) (ss : α → List Standalone)
    (h : ∀ x ∈ xs, Draws ((ls x).map strippedLine) (bs x) (ss x)) :
    Draws ((spacedOut (xs.map ls)).map strippedLine) (xs.flatMap bs) (xs.flatMap ss) := by
  induction xs with
  | nil => exact Draws.nil
  | cons x xs ih =>
      have hx := h x (by simp)
      have hrest := ih fun y hy => h y (by simp [hy])
      rw [List.flatMap_cons, List.flatMap_cons]
      cases xs with
      | nil => simpa [spacedOut] using hx
      | cons y ys =>
          have hne : (y :: ys).map ls ≠ [] := List.cons_ne_nil _ _
          rw [List.map_cons (a := x), spacedOut_cons hne, List.map_append, List.map_cons]
          exact hx.append (draws_nil.append hrest)

theorem spacedOut_append {cs ds : List (List (List Char))} (hc : cs ≠ []) (hd : ds ≠ []) :
    spacedOut (cs ++ ds) = spacedOut cs ++ [] :: spacedOut ds := by
  induction cs with
  | nil => exact absurd rfl hc
  | cons c cs ih =>
      cases cs with
      | nil => simpa [spacedOut] using spacedOut_cons hd c
      | cons e es =>
          have hne : e :: es ++ ds ≠ [] := List.cons_ne_nil _ _
          rw [List.cons_append, spacedOut_cons hne, ih (List.cons_ne_nil e es),
            spacedOut_cons (List.cons_ne_nil e es), List.append_assoc, List.cons_append]

/-- Groups of chunks may be spaced out as well. -/
theorem draws_spacedOut_append {cs ds : List (List (List Char))} {bs bs' : List Block}
    {ss ss' : List Standalone} (hc : Draws ((spacedOut cs).map strippedLine) bs ss)
    (hd : Draws ((spacedOut ds).map strippedLine) bs' ss') :
    Draws ((spacedOut (cs ++ ds)).map strippedLine) (bs ++ bs') (ss ++ ss') := by
  by_cases hcn : cs = []
  · subst hcn
    obtain ⟨rfl, rfl⟩ := hc.eq_nil
    exact hd
  · by_cases hdn : ds = []
    · subst hdn
      obtain ⟨rfl, rfl⟩ := hd.eq_nil
      rw [List.append_nil, List.append_nil, List.append_nil]
      exact hc
    · rw [spacedOut_append hcn hdn, List.map_append, List.map_cons]
      exact hc.append (draws_nil.append hd)

/-- The associations of a diagram say what they should. -/
theorem draws_associationChunks {m : Model} (hm : m.Drawable) :
    Draws ((spacedOut (associationChunks m)).map strippedLine) [] (diagramStatements m) := by
  have hlines : ∀ as : List Association, (∀ a ∈ as, a.Drawable) →
      Draws ((as.map associationText).map strippedLine) []
        (as.map fun a => .composition a.relation) := by
    intro as has
    induction as with
    | nil => exact Draws.nil
    | cons a as ih =>
        exact (draws_associationText (has a (by simp))).append (ih fun b hb => has b (by simp [hb]))
  rw [associationChunks, diagramStatements]
  split
  · rw [‹m.associations = []›]
    exact Draws.nil
  · simpa [spacedOut] using hlines m.associations hm.associations

/-- The directives around the chunks of a diagram say nothing. -/
theorem draws_diagramLines_of_chunks {m : Model} {bs : List Block} {ss : List Standalone}
    (hchunks : Draws ((spacedOut (diagramChunks m)).map strippedLine) bs ss) :
    Draws ((diagramLines m).map strippedLine) bs ss := by
  have hcontent : Draws ((contentLines m).map strippedLine) bs ss := by
    rw [contentLines]
    split
    · -- Of a model without entities the two blank lines enclose nothing.
      rename_i hnil
      rw [hnil] at hchunks
      obtain ⟨hb, hs⟩ := hchunks.eq_nil
      rw [hb, hs]
      exact draws_nil
    · exact hchunks
  have h := draws_start.append (hcontent.append draws_end)
  rw [List.append_nil, List.append_nil, List.nil_append, List.nil_append] at h
  rw [diagramLines, List.map_cons, List.map_append]
  exact h

/-- **The outline of a written diagram.** -/
theorem draws_diagramLines {m : Model} (hm : m.Drawable) (hkept : m.Kept) :
    Draws ((diagramLines m).map strippedLine) (diagramBlocks m) (diagramStatements m) := by
  have hclasses := draws_spacedOut (fun c => [blockOfClass c]) (fun _ => [])
    fun c hc => draws_classLines (hm.classes c hc) (hkept.classes c hc)
  have hinterfaces := draws_spacedOut (fun i => [blockOfInterface i]) (fun _ => [])
    fun i hi => draws_interfaceLines (hm.interfaces i hi) (hkept.interfaces i hi)
  have henums := draws_spacedOut (fun e => [blockOfEnum e]) (fun _ => [])
    fun e he => draws_enumLines (hm.enums e he)
  refine draws_diagramLines_of_chunks ?_
  have h := draws_spacedOut_append hclasses (draws_spacedOut_append hinterfaces
    (draws_spacedOut_append henums (draws_associationChunks hm)))
  have hnil : ∀ {α β : Type} (xs : List α), xs.flatMap (fun _ => ([] : List β)) = [] := by
    intro α β xs
    exact List.flatMap_eq_nil_iff.mpr fun _ _ => rfl
  rw [hnil, hnil, hnil, ← List.map_eq_flatMap, ← List.map_eq_flatMap, ← List.map_eq_flatMap,
    List.append_nil] at h
  exact h

/-! ### Line feeds -/

theorem mem_spacedOut {cs : List (List (List Char))} {l : List Char} (h : l ∈ spacedOut cs) :
    l = [] ∨ ∃ c ∈ cs, l ∈ c := by
  induction cs with
  | nil => cases h
  | cons c cs ih =>
      cases cs with
      | nil => exact Or.inr ⟨c, by simp, by simpa [spacedOut] using h⟩
      | cons d ds =>
          rw [spacedOut_cons (List.cons_ne_nil d ds), List.mem_append, List.mem_cons] at h
          rcases h with h | h | h
          · exact Or.inr ⟨c, by simp, h⟩
          · exact Or.inl h
          · rcases ih h with h | ⟨e, he, h⟩
            · exact Or.inl h
            · exact Or.inr ⟨e, List.mem_cons_of_mem _ he, h⟩

theorem not_mem_bracedLines {header : List Char} {members : List (List Char)}
    (hheader : Intact (header ++ openingMark true)) (hmembers : ∀ l ∈ members, '\n' ∉ l) :
    ∀ l ∈ bracedLines header members, '\n' ∉ l := by
  intro l hl
  rcases mem_bracedLines.mp hl with rfl | hl | rfl
  · exact hheader.oneLine
  · exact hmembers l hl
  · decide

theorem not_mem_methods {ms : List Method} (hm : ∀ m ∈ ms, m.Drawable) :
    ∀ l ∈ ms.map fun m => (Diagram.methodLine m).toList, '\n' ∉ l := by
  intro l hl
  obtain ⟨m, hm', rfl⟩ := List.mem_map.mp hl
  exact not_mem_methodLine (hm m hm')

theorem not_mem_classLines {c : Class} (hc : c.Drawable) : ∀ l ∈ classLines c, '\n' ∉ l := by
  have hheader := intact_classHeaderText hc.toHeaded
  have hmembers : ∀ l ∈ memberLines c, '\n' ∉ l := by
    intro l hl
    rw [memberLines, List.mem_append, List.mem_append] at hl
    rcases hl with hl | hl | hl
    · obtain ⟨a, ha, rfl⟩ := List.mem_map.mp hl
      exact not_mem_attributeLine (hc.attributes a ha)
    · split at hl
      · cases hl
      · rcases List.mem_singleton.mp hl with rfl
        exact List.not_mem_nil
    · exact not_mem_methods hc.methods l hl
  rw [classLines]
  split
  · exact not_mem_bracedLines (intact_openingMark hheader true) hmembers
  · intro l hl
    rcases List.mem_singleton.mp hl with rfl
    exact (intact_of_all hheader).oneLine

theorem not_mem_interfaceLines {i : Interface} (hi : i.Drawable) :
    ∀ l ∈ interfaceLines i, '\n' ∉ l := by
  have hheader : (plainHeaderText "interface" i.name).all isIntactChar = true :=
    intact_plainHeaderText (by decide) hi.name
  refine not_mem_bracedLines (intact_openingMark hheader true) ?_
  rw [interfaceMemberLines]
  split
  · intro l hl
    rcases List.mem_singleton.mp hl with rfl
    exact List.not_mem_nil
  · exact not_mem_methods hi.methods

theorem not_mem_enumLines {e : Enum} (he : e.Drawable) : ∀ l ∈ enumLines e, '\n' ∉ l := by
  have hheader : (plainHeaderText "enum" e.name).all isIntactChar = true :=
    intact_plainHeaderText (by decide) he.name
  rw [enumLines]
  split
  · intro l hl
    rcases List.mem_singleton.mp hl with rfl
    exact (intact_of_all hheader).oneLine
  · refine not_mem_bracedLines (intact_openingMark hheader true) ?_
    intro l hl
    obtain ⟨p, hp, rfl⟩ := List.mem_map.mp hl
    exact (intact_constantText (he.properties p hp)).oneLine

theorem not_mem_diagramChunks {m : Model} (hm : m.Drawable) {c : List (List Char)}
    (hc : c ∈ diagramChunks m) : ∀ l ∈ c, '\n' ∉ l := by
  simp only [diagramChunks, associationChunks, List.mem_append, List.mem_map] at hc
  rcases hc with ⟨x, hx, rfl⟩ | ⟨x, hx, rfl⟩ | ⟨x, hx, rfl⟩ | hc
  · exact not_mem_classLines (hm.classes x hx)
  · exact not_mem_interfaceLines (hm.interfaces x hx)
  · exact not_mem_enumLines (hm.enums x hx)
  · split at hc
    · cases hc
    · rcases List.mem_singleton.mp hc with rfl
      intro l hl
      obtain ⟨a, ha, rfl⟩ := List.mem_map.mp hl
      exact (intact_associationText (hm.associations a ha)).oneLine

/-- A line of a diagram belongs to a chunk, unless it is blank or a directive. -/
theorem exists_chunk_of_mem_diagramLines {m : Model} {l : List Char} (hl : l ∈ diagramLines m) :
    l ∈ [[], "@startuml".toList, "@enduml".toList] ∨ ∃ c ∈ diagramChunks m, l ∈ c := by
  have hcontent : l ∈ contentLines m → l = [] ∨ ∃ c ∈ diagramChunks m, l ∈ c := by
    intro hl
    rw [contentLines] at hl
    split at hl
    · exact Or.inl (List.mem_singleton.mp hl)
    · exact mem_spacedOut hl
  rw [diagramLines, List.mem_cons, List.mem_append, List.mem_singleton] at hl
  rcases hl with rfl | hl | rfl
  · exact Or.inl (by decide)
  · refine (hcontent hl).imp_left ?_
    rintro rfl
    exact List.mem_cons_self
  · exact Or.inl (by decide)

/-- If no chunk of a diagram holds a line feed, no line of it does. -/
theorem not_mem_diagramLines_of_chunks {m : Model}
    (h : ∀ c ∈ diagramChunks m, ∀ l ∈ c, '\n' ∉ l) : ∀ l ∈ diagramLines m, '\n' ∉ l := by
  have hframe : ∀ l ∈ [[], "@startuml".toList, "@enduml".toList], '\n' ∉ l := by decide
  intro l hl
  rcases exists_chunk_of_mem_diagramLines hl with hl | ⟨c, hc, hl⟩
  · exact hframe l hl
  · exact h c hc l hl

/-- No line of a diagram holds a line feed. -/
theorem not_mem_diagramLines {m : Model} (hm : m.Drawable) : ∀ l ∈ diagramLines m, '\n' ∉ l :=
  not_mem_diagramLines_of_chunks fun _ hc => not_mem_diagramChunks hm hc

/-- The lines that a written diagram is read from. -/
theorem value_stripModifiers_render {m : Model} (h : ∀ l ∈ diagramLines m, '\n' ∉ l) :
    (stripModifiers (Diagram.render m).toList).value = (diagramLines m).map strippedLine := by
  have hne : diagramLines m ≠ [] := List.cons_ne_nil _ _
  rw [value_stripModifiers, toList_render, splitOnChar_joinLines hne h]

end ClassModel
