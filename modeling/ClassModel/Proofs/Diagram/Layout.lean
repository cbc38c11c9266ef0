/-
The lines of a written diagram.

A diagram is written as one text, section by section, with blank lines between the
declarations.  `diagramLines` is the same diagram as a list of lines, grouped into chunks:
one chunk for each entity and one for all associations.  Both are the same text, since
joining lines and joining chunks by blank lines may be done in either order as long as no
chunk is empty.
-/
import ClassModel.Diagram.Printer
import ClassModel.Text.Split
import ClassModel.Proofs.Diagram.Headers
import ClassModel.Proofs.Diagram.Relations

namespace ClassModel

/-! ### Lines and texts -/

/-- The text of lines. -/
def joinLines (ls : List (List Char)) : List Char :=
  List.intercalate ['\n'] ls

/-- Chunks of lines with a blank line between any two of them. -/
def spacedOut (chunks : List (List (List Char))) : List (List Char) :=
  List.intercalate [[]] chunks

theorem joinLines_cons {ls : List (List Char)} (h : ls ≠ []) (l : List Char) :
    joinLines (l :: ls) = l ++ '\n' :: joinLines ls := by
  cases ls with
  | nil => exact absurd rfl h
  | cons m ms =>
      rw [joinLines, List.intercalate_cons_cons, List.append_assoc]
      rfl

theorem joinLines_append {a b : List (List Char)} (ha : a ≠ []) (hb : b ≠ []) :
    joinLines (a ++ b) = joinLines a ++ '\n' :: joinLines b := by
  rw [joinLines, intercalate_append ['\n'] ha hb, List.append_assoc]
  rfl

theorem spacedOut_cons {cs : List (List (List Char))} (h : cs ≠ []) (c : List (List Char)) :
    spacedOut (c :: cs) = c ++ [] :: spacedOut cs := by
  cases cs with
  | nil => exact absurd rfl h
  | cons d ds =>
      rw [spacedOut, List.intercalate_cons_cons, List.append_assoc]
      rfl

theorem spacedOut_ne_nil {cs : List (List (List Char))} (h : cs ≠ []) (hne : ∀ c ∈ cs, c ≠ []) :
    spacedOut cs ≠ [] := by
  cases cs with
  | nil => exact absurd rfl h
  | cons c cs =>
      have hc := hne c (by simp)
      cases cs with
      | nil => simpa [spacedOut] using hc
      | cons d ds =>
          rw [spacedOut_cons (List.cons_ne_nil d ds)]
          simp [hc]

/-- Joining the lines of chunks that are spaced out. -/
theorem joinLines_spacedOut {cs : List (List (List Char))} (hne : ∀ c ∈ cs, c ≠ []) :
    joinLines (spacedOut cs) = List.intercalate ['\n', '\n'] (cs.map joinLines) := by
  induction cs with
  | nil => rfl
  | cons c cs ih =>
      have hrest : ∀ d ∈ cs, d ≠ [] := fun d hd => hne d (by simp [hd])
      cases cs with
      | nil => simp [spacedOut]
      | cons d ds =>
          have hs := spacedOut_ne_nil (by simp) hrest
          rw [spacedOut_cons (List.cons_ne_nil d ds), joinLines_append (hne c (by simp)) (by simp),
            joinLines_cons hs, ih hrest, List.map_cons, List.map_cons, List.map_cons,
            List.intercalate_cons_cons]
          simp

theorem splitOnChar_of_not_mem {c : Char} {s : List Char} (h : c ∉ s) : splitOnChar c s = [s] := by
  induction s with
  | nil => rfl
  | cons d r ih =>
      rw [List.mem_cons, not_or] at h
      rw [splitOnChar, if_neg (Ne.symm h.1), ih h.2]

theorem splitOnChar_append_cons (c : Char) (s t : List Char) :
    splitOnChar c (s ++ c :: t) = splitOnChar c s ++ splitOnChar c t := by
  induction s with
  | nil => simp [splitOnChar]
  | cons d r ih =>
      rw [List.cons_append, splitOnChar, splitOnChar]
      by_cases hd : d = c
      · rw [if_pos hd, if_pos hd, ih, List.cons_append]
      · rw [if_neg hd, if_neg hd, ih]
        rcases hs : splitOnChar c r with _ | ⟨p, ps⟩
        · exact absurd hs (splitOnChar_ne_nil c r)
        · rfl

theorem splitOnChar_append {c : Char} {s : List Char} (h : c ∉ s) (t : List Char) :
    splitOnChar c (s ++ c :: t) = s :: splitOnChar c t := by
  rw [splitOnChar_append_cons, splitOnChar_of_not_mem h, List.singleton_append]

/-- A text of lines is cut back into the lines. -/
theorem splitOnChar_joinLines {ls : List (List Char)} (hne : ls ≠ []) (h : ∀ l ∈ ls, '\n' ∉ l) :
    splitOnChar '\n' (joinLines ls) = ls := by
  induction ls with
  | nil => exact absurd rfl hne
  | cons l ls ih =>
      have hl := h l (by simp)
      cases ls with
      | nil => simpa [joinLines] using splitOnChar_of_not_mem hl
      | cons m ms =>
          rw [joinLines_cons (by simp), splitOnChar_append hl,
            ih (by simp) fun k hk => h k (by simp [hk])]

/-! ### Entities -/

/-- A header that opens a body, the lines of the body and its closing brace. -/
def bracedLines (header : List Char) (members : List (List Char)) : List (List Char) :=
  (header ++ openingMark true) :: (members ++ [['\x7d']])

theorem mem_bracedLines {header l : List Char} {members : List (List Char)} :
    l ∈ bracedLines header members ↔
      l = header ++ openingMark true ∨ l ∈ members ∨ l = ['\x7d'] := by
  rw [bracedLines, List.mem_cons, List.mem_append, List.mem_singleton]

/-- The lines of the members of a class; a blank one separates attributes from methods. -/
def memberLines (c : Class) : List (List Char) :=
  c.attributes.values.map (fun a => (Diagram.attributeLine a).toList) ++
    ((if c.attributes.isEmpty || c.methods.isEmpty then [] else [[]]) ++
      c.methods.values.map fun m => (Diagram.methodLine m).toList)

/-- The lines of a class. -/
def classLines (c : Class) : List (List Char) :=
  if c.hasMembers then bracedLines (classHeaderText c) (memberLines c) else [classHeaderText c]

/-- The lines of the methods of an interface; there is always one. -/
def interfaceMemberLines (i : Interface) : List (List Char) :=
  if i.methods.isEmpty then [[]] else i.methods.values.map fun m => (Diagram.methodLine m).toList

/-- The lines of an interface. -/
def interfaceLines (i : Interface) : List (List Char) :=
  bracedLines (plainHeaderText "interface" i.name) (interfaceMemberLines i)

/-- The lines of an enum. -/
def enumLines (e : Enum) : List (List Char) :=
  if e.properties.isEmpty then [plainHeaderText "enum" e.name]
  else bracedLines (plainHeaderText "enum" e.name) (e.properties.values.map constantText)

/-- The lines of the associations, as at most one chunk. -/
def associationChunks (m : Model) : List (List (List Char)) :=
  if m.associations = [] then [] else [m.associations.map associationText]

/-- The chunks of a diagram. -/
def diagramChunks (m : Model) : List (List (List Char)) :=
  m.classes.values.map classLines ++ (m.interfaces.values.map interfaceLines ++
    (m.enums.values.map enumLines ++ associationChunks m))

/-- The lines of a diagram between its directives. -/
def contentLines (m : Model) : List (List Char) :=
  if diagramChunks m = [] then [[]] else spacedOut (diagramChunks m)

/-- The lines of a diagram. -/
def diagramLines (m : Model) : List (List Char) :=
  "@startuml".toList :: (contentLines m ++ ["@enduml".toList])

theorem joinLines_bracedLines (header : List Char) {members : List (List Char)}
    (h : members ≠ []) :
    joinLines (bracedLines header members) =
      header ++ (' ' :: '\x7b' :: '\n' :: (joinLines members ++ ['\n', '\x7d'])) := by
  rw [bracedLines, joinLines_cons (by simp), joinLines_append h (by simp)]
  simp [openingMark, joinLines]

/-! ### The printer and the lines -/

theorem isEmpty_eq (s : String) : s.isEmpty = decide (s.toList = []) := by
  rw [Bool.eq_iff_iff, decide_eq_true_iff, String.toList_eq_nil_iff]
  simp

theorem toList_textIf (b : Bool) (s : String) : (textIf b s).toList = if b then s.toList else [] := by
  cases b <;> rfl

theorem values_eq_nil_iff {α : Type} {m : OrderedMap α} : m.values = [] ↔ m.isEmpty = true := by
  rw [OrderedMap.values, List.map_eq_nil_iff, OrderedMap.isEmpty, List.isEmpty_iff]

theorem toList_methodLines (ms : List Method) :
    (Diagram.methodLines ms).toList =
      joinLines (ms.map fun m => (Diagram.methodLine m).toList) := by
  rw [Diagram.methodLines, String.toList_intercalate, List.map_map]
  rfl

theorem memberLines_ne_nil {c : Class} (h : c.hasMembers = true) : memberLines c ≠ [] := by
  intro hnil
  rw [memberLines, List.append_eq_nil_iff, List.append_eq_nil_iff, List.map_eq_nil_iff,
    List.map_eq_nil_iff, values_eq_nil_iff, values_eq_nil_iff] at hnil
  rw [Class.hasMembers, hnil.1, hnil.2.2] at h
  cases h

/-- The body of a class is its member lines between braces. -/
theorem toList_classBody (c : Class) :
    (Diagram.classBody c).toList =
      ' ' :: '\x7b' :: '\n' :: (joinLines (memberLines c) ++ ['\n', '\x7d']) := by
  have hattributes : (String.intercalate "\n" (c.attributes.values.map Diagram.attributeLine)).toList =
      joinLines (c.attributes.values.map fun a => (Diagram.attributeLine a).toList) := by
    rw [String.toList_intercalate, List.map_map]
    rfl
  have hlines : joinLines (memberLines c) =
      joinLines (c.attributes.values.map fun a => (Diagram.attributeLine a).toList) ++
        ((if !c.attributes.isEmpty && !c.methods.isEmpty then ['\n', '\n'] else []) ++
          joinLines (c.methods.values.map fun m => (Diagram.methodLine m).toList)) := by
    rcases ha : c.attributes.isEmpty with _ | _
    · rcases hm : c.methods.isEmpty with _ | _
      · have hna : (c.attributes.values.map fun a => (Diagram.attributeLine a).toList) ≠ [] := by
          rw [ne_eq, List.map_eq_nil_iff, values_eq_nil_iff, ha]
          exact Bool.false_ne_true
        have hnm : (c.methods.values.map fun m => (Diagram.methodLine m).toList) ≠ [] := by
          rw [ne_eq, List.map_eq_nil_iff, values_eq_nil_iff, hm]
          exact Bool.false_ne_true
        rw [memberLines, ha, hm, joinLines_append hna (by simp)]
        simp [joinLines_cons hnm]
      · have hnil : c.methods.values = [] := values_eq_nil_iff.mpr hm
        simp [memberLines, ha, hm, hnil, joinLines]
    · have hnil : c.attributes.values = [] := values_eq_nil_iff.mpr ha
      simp [memberLines, ha, hnil, joinLines]
  simp [Diagram.classBody, String.toList_append, hattributes, toList_methodLines, hlines,
    toList_textIf]

theorem toList_classClauses (c : Class) :
    (Diagram.classClauses c).toList = extendsText c.superclass ++ implementsText c.interfaces := by
  have hnames : ∀ (n : String) (ns : List String),
      List.intercalate [',', ' '] ((n :: ns).map String.toList) = n.toList ++ namesText ns := by
    intro n ns
    induction ns generalizing n with
    | nil => simp [namesText]
    | cons k ks ih =>
        rw [List.map_cons, List.map_cons, List.intercalate_cons_cons, ← List.map_cons, ih]
        simp [namesText]
  have himplements : (textIf (!c.interfaces.isEmpty)
      (" implements " ++ String.intercalate ", " c.interfaces)).toList =
        implementsText c.interfaces := by
    rw [toList_textIf]
    cases c.interfaces with
    | nil => rfl
    | cons n ns =>
        have htext : (String.intercalate ", " (n :: ns)).toList = n.toList ++ namesText ns := by
          rw [String.toList_intercalate]
          exact hnames n ns
        simp [implementsText, String.toList_append, htext]
  rw [Diagram.classClauses, String.toList_append, himplements]
  cases c.superclass with
  | none => rfl
  | some parent => simp [extendsText, String.toList_append]

/-- The written class is its lines. -/
theorem toList_renderClass (c : Class) :
    (Diagram.renderClass c).toList = joinLines (classLines c) := by
  have hheader : (textIf c.isAbstract "abstract " ++ "class " ++ c.name ++
      Diagram.classClauses c).toList = classHeaderText c := by
    rw [String.toList_append, toList_classClauses, String.toList_append, String.toList_append,
      toList_textIf]
    cases ha : c.isAbstract <;> simp [classHeaderText, classText, ha]
  rw [Diagram.renderClass, String.toList_append, hheader, toList_textIf, classLines]
  by_cases h : c.hasMembers = true
  · rw [if_pos h, if_pos h, toList_classBody, joinLines_bracedLines _ (memberLines_ne_nil h)]
  · rw [if_neg h, if_neg h, List.append_nil]
    simp [joinLines]

/-- The written interface is its lines. -/
theorem toList_renderInterface (i : Interface) :
    (Diagram.renderInterface i).toList = joinLines (interfaceLines i) := by
  have hbody : joinLines (interfaceMemberLines i) =
      joinLines (i.methods.values.map fun m => (Diagram.methodLine m).toList) := by
    rw [interfaceMemberLines]
    split
    · rw [values_eq_nil_iff.mpr ‹_›]
      rfl
    · rfl
  have hne : interfaceMemberLines i ≠ [] := by
    rw [interfaceMemberLines]
    split
    · simp
    · rw [ne_eq, List.map_eq_nil_iff, values_eq_nil_iff]
      exact ‹_›
  rw [interfaceLines, joinLines_bracedLines _ hne, hbody]
  simp [Diagram.renderInterface, plainHeaderText, String.toList_append, toList_methodLines]

theorem toList_constantLine (p : EnumProperty) :
    (Diagram.constantLine p).toList = '\n' :: constantText p := by
  rw [Diagram.constantLine, String.toList_append, toList_textIf, isEmpty_eq, constantText]
  by_cases h : p.value.toList = []
  · simp [h, String.toList_append]
  · simp [h, String.toList_append]

/-- The written enum is its lines. -/
theorem toList_renderEnum (e : Enum) : (Diagram.renderEnum e).toList = joinLines (enumLines e) := by
  have hflat : ∀ ps : List EnumProperty, ps ≠ [] →
      ps.flatMap (fun p => '\n' :: constantText p) = '\n' :: joinLines (ps.map constantText) := by
    intro ps h
    induction ps with
    | nil => exact absurd rfl h
    | cons p ps ih =>
        cases ps with
        | nil => simp [joinLines]
        | cons q qs =>
            have hne : (q :: qs).map constantText ≠ [] := List.cons_ne_nil _ _
            rw [List.flatMap_cons, ih (List.cons_ne_nil q qs), List.map_cons (a := p),
              joinLines_cons hne]
            rfl
  rw [Diagram.renderEnum, String.toList_append, String.toList_append, toList_textIf, enumLines]
  by_cases h : e.properties.isEmpty = true
  · rw [if_pos h, h]
    simp [joinLines, plainHeaderText]
  · have hne : e.properties.values ≠ [] := fun hnil => h (values_eq_nil_iff.mp hnil)
    have hlines : (String.join (e.properties.values.map Diagram.constantLine)).toList =
        '\n' :: joinLines (e.properties.values.map constantText) := by
      rw [String.toList_join, List.flatMap_map, ← hflat _ hne, List.flatMap_def, List.flatMap_def]
      exact congrArg _ (List.map_congr_left fun p _ => toList_constantLine p)
    rw [if_neg h, joinLines_bracedLines _ (by rwa [ne_eq, List.map_eq_nil_iff])]
    simp [h, plainHeaderText, String.toList_append, hlines]

/-- The written association is its line. -/
theorem toList_renderAssociation (a : Association) :
    (Diagram.renderAssociation a).toList = associationText a := by
  have hquoted : ∀ m : Multiplicity, (Diagram.quoted m).toList = quotedText m := by
    intro m
    cases m <;> rfl
  have hlabel : (textIf (!a.label.isEmpty) (" : " ++ a.label)).toList = labelText a.label := by
    rw [toList_textIf, isEmpty_eq, labelText]
    by_cases h : a.label.toList = []
    · simp [h]
    · simp [h, String.toList_append]
  simp [Diagram.renderAssociation, associationText, associationRest, String.toList_append, hquoted,
    hlabel]

/-! ### Sections -/

/-- Joining groups first, without the ones that are empty, makes no difference. -/
theorem intercalate_filter {α : Type} (sep : List α) {xss : List (List (List α))}
    (h : ∀ xs ∈ xss, ∀ x ∈ xs, x ≠ []) :
    List.intercalate sep ((xss.map (List.intercalate sep)).filter fun x => !x.isEmpty) =
      List.intercalate sep xss.flatten := by
  have hempty : ∀ xs : List (List α), (∀ x ∈ xs, x ≠ []) →
      ((List.intercalate sep xs).isEmpty = true ↔ xs = []) := by
    intro xs hxs
    rw [List.isEmpty_iff]
    rcases xs with _ | ⟨x, _ | ⟨y, ys⟩⟩
    · simp
    · simpa using hxs x (by simp)
    · simp [List.intercalate_cons_cons, hxs x (by simp)]
  induction xss with
  | nil => rfl
  | cons xs xss ih =>
      have hxs := hempty xs (h xs (by simp))
      have hrest := ih fun ys hys => h ys (by simp [hys])
      rw [List.map_cons, List.flatten_cons]
      by_cases hnil : xs = []
      · rw [List.filter_cons_of_neg (by simp [hxs.mpr hnil]), hrest, hnil, List.nil_append]
      · have hne : (List.intercalate sep xs).isEmpty = false := by
          rw [← Bool.not_eq_true, hxs]
          exact hnil
        rw [List.filter_cons_of_pos (by simp [hne])]
        by_cases hflat : xss.flatten = []
        · -- Nothing but empty groups follows.
          have hfilter : (xss.map (List.intercalate sep)).filter (fun x => !x.isEmpty) = [] := by
            rw [List.filter_eq_nil_iff]
            intro t ht
            obtain ⟨ys, hys, rfl⟩ := List.mem_map.mp ht
            have : ys = [] := List.flatten_eq_nil_iff.mp hflat ys hys
            simp [this]
          rw [hfilter, hflat, List.append_nil]
          simp
        · rw [intercalate_append sep hnil hflat, ← hrest]
          cases hf : (xss.map (List.intercalate sep)).filter fun x => !x.isEmpty with
          | nil =>
              rw [hf] at hrest
              refine absurd ?_ hflat
              refine (hempty xss.flatten ?_).mp (by rw [← hrest]; rfl)
              intro x hx
              obtain ⟨ys, hys, hx⟩ := List.mem_flatten.mp hx
              exact h ys (by simp [hys]) x hx
          | cons y ys => rw [List.intercalate_cons_cons]

theorem classLines_ne_nil (c : Class) : classLines c ≠ [] := by
  rw [classLines]
  split <;> simp [bracedLines]

theorem enumLines_ne_nil (e : Enum) : enumLines e ≠ [] := by
  rw [enumLines]
  split <;> simp [bracedLines]

theorem ne_nil_of_mem_diagramChunks {m : Model} {c : List (List Char)}
    (h : c ∈ diagramChunks m) : c ≠ [] := by
  simp only [diagramChunks, associationChunks, List.mem_append, List.mem_map] at h
  rcases h with ⟨x, -, rfl⟩ | ⟨x, -, rfl⟩ | ⟨x, -, rfl⟩ | h
  · exact classLines_ne_nil x
  · simp [interfaceLines, bracedLines]
  · exact enumLines_ne_nil x
  · split at h
    · cases h
    · rcases List.mem_singleton.mp h with rfl
      rwa [ne_eq, List.map_eq_nil_iff]

/-- The first line of a declaration or of the associations is not empty. -/
theorem joinLines_ne_nil_of_mem_diagramChunks {m : Model} {c : List (List Char)}
    (h : c ∈ diagramChunks m) : joinLines c ≠ [] := by
  have hcons : ∀ (l : List Char) (ls : List (List Char)), l ≠ [] → joinLines (l :: ls) ≠ [] := by
    intro l ls hl
    cases ls with
    | nil => simpa [joinLines] using hl
    | cons k ks =>
        rw [joinLines_cons (by simp)]
        simp
  have hclass : ∀ c : Class, classHeaderText c ≠ [] := fun c =>
    List.append_ne_nil_of_right_ne_nil _
      (List.append_ne_nil_of_right_ne_nil _ (List.cons_ne_nil _ _))
  have hplain : ∀ w n : String, plainHeaderText w n ≠ [] := fun w n =>
    List.append_ne_nil_of_right_ne_nil _ (List.cons_ne_nil _ _)
  have hopen : ∀ header : List Char, header ++ openingMark true ≠ [] := fun header =>
    List.append_ne_nil_of_right_ne_nil _ (List.cons_ne_nil _ _)
  simp only [diagramChunks, associationChunks, List.mem_append, List.mem_map] at h
  rcases h with ⟨x, -, rfl⟩ | ⟨x, -, rfl⟩ | ⟨x, -, rfl⟩ | h
  · rw [classLines]
    split
    · exact hcons _ _ (hopen _)
    · exact hcons _ _ (hclass x)
  · exact hcons _ _ (hopen _)
  · rw [enumLines]
    split
    · exact hcons _ _ (hplain _ _)
    · exact hcons _ _ (hopen _)
  · split at h
    · cases h
    · rename_i hne
      rcases List.mem_singleton.mp h with rfl
      obtain ⟨a, as, ha⟩ := List.exists_cons_of_ne_nil hne
      rw [ha]
      exact hcons _ _ (List.append_ne_nil_of_right_ne_nil _ (List.cons_ne_nil _ _))

/-- The text of the sections is the text of the chunks. -/
theorem toList_paragraphs_sections (m : Model) :
    (Diagram.paragraphs ((Diagram.sections m).filter (!·.isEmpty))).toList =
      List.intercalate ['\n', '\n'] ((diagramChunks m).map joinLines) := by
  have hgroup : ∀ {α : Type} (xs : List α) (render : α → String) (ls : α → List (List Char)),
      (∀ x, (render x).toList = joinLines (ls x)) →
      (Diagram.paragraphs (xs.map render)).toList =
        List.intercalate ['\n', '\n'] ((xs.map ls).map joinLines) := by
    intro α xs render ls h
    rw [Diagram.paragraphs, String.toList_intercalate, List.map_map, List.map_map]
    exact congrArg _ (List.map_congr_left fun x _ => h x)
  have hassociations : (String.intercalate "\n" (m.associations.map
      Diagram.renderAssociation)).toList =
        List.intercalate ['\n', '\n'] ((associationChunks m).map joinLines) := by
    have hlines : (String.intercalate "\n" (m.associations.map Diagram.renderAssociation)).toList =
        joinLines (m.associations.map associationText) := by
      rw [String.toList_intercalate, List.map_map]
      exact congrArg _ (List.map_congr_left fun a _ => toList_renderAssociation a)
    rw [hlines, associationChunks]
    split
    · rw [‹m.associations = []›]
      rfl
    · simp
  have hsections : (Diagram.sections m).map String.toList =
      [(m.classes.values.map classLines).map joinLines,
        (m.interfaces.values.map interfaceLines).map joinLines,
        (m.enums.values.map enumLines).map joinLines,
        (associationChunks m).map joinLines].map (List.intercalate ['\n', '\n']) := by
    simp only [Diagram.sections, List.map_cons, List.map_nil, hgroup _ _ _ toList_renderClass,
      hgroup _ _ _ toList_renderInterface, hgroup _ _ _ toList_renderEnum, hassociations]
  have hfilter : ((Diagram.sections m).filter (!·.isEmpty)).map String.toList =
      ((Diagram.sections m).map String.toList).filter fun x => !x.isEmpty := by
    rw [List.filter_map]
    refine congrArg _ (List.filter_congr fun s _ => ?_)
    rw [isEmpty_eq, Function.comp_apply]
    cases s.toList <;> rfl
  have hchunks : ∀ c ∈ diagramChunks m, joinLines c ≠ [] := fun c hc =>
    joinLines_ne_nil_of_mem_diagramChunks hc
  rw [Diagram.paragraphs, String.toList_intercalate, hfilter, hsections]
  rw [show "\n\n".toList = ['\n', '\n'] from rfl, intercalate_filter]
  · rw [diagramChunks]
    simp
  · intro xs hxs x hx
    obtain ⟨c, hc, rfl⟩ : ∃ c ∈ diagramChunks m, joinLines c = x := by
      simp only [List.mem_cons, List.not_mem_nil, or_false] at hxs
      rcases hxs with rfl | rfl | rfl | rfl <;> obtain ⟨c, hc, rfl⟩ := List.mem_map.mp hx <;>
        exact ⟨c, by simp only [diagramChunks, List.mem_append, hc, true_or, or_true], rfl⟩
    exact hchunks c hc

/-- **A written diagram is the text of its lines.** -/
theorem toList_render (m : Model) : (Diagram.render m).toList = joinLines (diagramLines m) := by
  have hcontent : contentLines m ≠ [] ∧ joinLines (contentLines m) =
      List.intercalate ['\n', '\n'] ((diagramChunks m).map joinLines) := by
    rw [contentLines]
    split
    · rw [‹diagramChunks m = []›]
      exact ⟨by simp, rfl⟩
    · exact ⟨spacedOut_ne_nil ‹_› fun c hc => ne_nil_of_mem_diagramChunks hc,
        joinLines_spacedOut fun c hc => ne_nil_of_mem_diagramChunks hc⟩
  rw [Diagram.render, String.toList_append, String.toList_append, toList_paragraphs_sections,
    ← hcontent.2, diagramLines, joinLines_cons (by simp), joinLines_append hcontent.1 (by simp)]
  simp [joinLines]

end ClassModel
