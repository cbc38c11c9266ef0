/-
Models that can be drawn.

A model is drawable if each of its names is a word and each of its types is a type on a
single line.  That is as much as the grammar of a diagram asks for, and every model that was
read satisfies it.  Of a drawable model each line is known, also once its modifiers are
taken out.

It is not all that is needed for the lines to be found again.  A type may hold words in
braces, which look like modifiers, and braces that look like the end of a body, and a method
may return a type named `abstract`.  `Kept` excludes the first two for the members of one
entity, and `Method.Misread` is the third.
-/
import ClassModel.Proofs.Diagram.Bodies
import ClassModel.Proofs.Diagram.Headers
import ClassModel.Proofs.Diagram.Modifiers
import ClassModel.Proofs.Diagram.Relations

namespace ClassModel

open LineParser

/-! ### Drawable models -/

/-- An attribute that can be written on a line. -/
structure Attribute.Drawable (a : Attribute) : Prop where
  name : IsWord a.name.toList
  type : IsType TypeSuffix.Readable a.type.toList
  oneLine : '\n' ∉ a.type.toList

/-- A method that can be written on a line. -/
structure Method.Drawable (m : Method) : Prop extends m.Writable where
  oneLine : '\n' ∉ m.typesText

/-- A class whose header and members can be written.  Nothing is written for its visibility. -/
structure Class.Drawable (c : Class) : Prop extends c.Headed where
  attributes : ∀ a ∈ c.attributes.values, a.Drawable
  methods : ∀ m ∈ c.methods.values, m.Drawable
  visibility : c.visibility = .pub

/-- An interface whose header and methods can be written. -/
structure Interface.Drawable (i : Interface) : Prop where
  name : IsWord i.name.toList
  methods : ∀ m ∈ i.methods.values, m.Drawable
  visibility : i.visibility = .pub

/-- An enum whose header and constants can be written. -/
structure Enum.Drawable (e : Enum) : Prop where
  name : IsWord e.name.toList
  properties : ∀ p ∈ e.properties.values, p.Drawable

/-- A model of which everything can be written. -/
structure Model.Drawable (m : Model) : Prop where
  classes : ∀ c ∈ m.classes.values, c.Drawable
  interfaces : ∀ i ∈ m.interfaces.values, i.Drawable
  enums : ∀ e ∈ m.enums.values, e.Drawable
  associations : ∀ a ∈ m.associations, a.Drawable

/-! ### Members that are found again -/

/-- A method without words in braces in its types. -/
structure Method.TypesUnmarked (m : Method) : Prop where
  returnType : Unmarked m.returnType.toList
  parameters : ∀ p ∈ m.parameters, Unmarked p.type.toList

instance (m : Method) : Decidable m.TypesUnmarked :=
  decidable_of_iff (Unmarked m.returnType.toList ∧ ∀ p ∈ m.parameters, Unmarked p.type.toList)
    ⟨fun h => ⟨h.1, h.2⟩, fun h => ⟨h.returnType, h.parameters⟩⟩

/-- The types of the members of an entity, in the order in which they are written. -/
def typesText (attributes : List Attribute) (methods : List Method) : List Char :=
  (attributes.flatMap fun a => a.type.toList) ++ methods.flatMap Method.typesText

/-- The members of an entity whose types hold no word in braces, and together no brace that
is not matched. -/
structure Kept (as : List Attribute) (ms : List Method) : Prop where
  attributes : ∀ a ∈ as, Unmarked a.type.toList
  methods : ∀ m ∈ ms, m.TypesUnmarked
  balanced : openDepth 0 (typesText as ms) = some 0

instance (as : List Attribute) (ms : List Method) : Decidable (Kept as ms) :=
  decidable_of_iff ((∀ a ∈ as, Unmarked a.type.toList) ∧ (∀ m ∈ ms, m.TypesUnmarked) ∧
      openDepth 0 (typesText as ms) = some 0)
    ⟨fun h => ⟨h.1, h.2.1, h.2.2⟩, fun h => ⟨h.attributes, h.methods, h.balanced⟩⟩

/-! ### Lines with a visibility -/

/-- The modifier of a static member with the space behind it. -/
def staticMark (isStatic : Bool) : List Char :=
  if isStatic then "\x7bstatic\x7d ".toList else []

/-- The written line of a member. -/
def writtenLine (v : Visibility) (isStatic : Bool) (body : List Char) : List Char :=
  '\t' :: v.marker :: ' ' :: (staticMark isStatic ++ body)

/-- The line of a member, once its modifier is taken out. -/
def memberLineOf (v : Visibility) (isStatic : Bool) (body : List Char) : Line where
  text := '\t' :: v.marker :: (modifierGap isStatic ++ body)
  modifiers := { isStatic }

theorem marker_ne_brace (v : Visibility) : v.marker ≠ '\x7b' := by
  cases v <;> decide

theorem separates_marker (v : Visibility) : separates v.marker = true := by
  cases v <;> decide

/-- A line whose body holds no word in braces loses its modifier and nothing else. -/
theorem strippedLine_writtenLine (v : Visibility) (isStatic : Bool) {body t : List Char} {c : Char}
    (hend : body = t ++ [c]) (hc : c ≠ '\r') (hbody : Unmarked body) :
    strippedLine (writtenLine v isStatic body) = memberLineOf v isStatic body := by
  have hreturn : dropReturn (writtenLine v isStatic body) = writtenLine v isStatic body := by
    have he : writtenLine v isStatic body =
        ('\t' :: v.marker :: ' ' :: (staticMark isStatic ++ t)) ++ [c] := by
      simp [writtenLine, hend]
    rw [he]
    exact dropReturn_append hc
  cases isStatic with
  | true => exact strippedLine_static (by decide) (marker_ne_brace v) hreturn hbody
  | false =>
      refine strippedLine_of_unmarked hreturn ?_
      rw [writtenLine, unmarked_cons_iff (by decide), unmarked_cons_iff (separates_marker v),
        unmarked_cons_iff (by decide)]
      exact hbody

theorem not_mem_writtenLine (v : Visibility) (isStatic : Bool) {body : List Char}
    (h : '\n' ∉ body) : '\n' ∉ writtenLine v isStatic body := by
  have hmarker : v.marker ≠ '\n' := by cases v <;> decide
  have hstatic : '\n' ∉ staticMark isStatic := by cases isStatic <;> decide
  simp [writtenLine, h, hmarker.symm, hstatic]

/-! ### Attributes -/

/-- What stands behind the visibility of an attribute. -/
def attributeRest (a : Attribute) : List Char :=
  a.type.toList ++ ' ' :: a.name.toList

theorem isBlank_of_isWordChar {c : Char} (h : isWordChar c = true) : isBlank c = false := by
  have hn : 0x30 ≤ c.toNat ∧ c.toNat ≤ 0x7A := by
    delta isWordChar Char.isAlphanum Char.isAlpha Char.isUpper Char.isLower Char.isDigit at h
    simp only [Bool.or_eq_true, Bool.and_eq_true, decide_eq_true_eq, beq_iff_eq] at h
    rcases h with ((h | h) | h) | rfl
    · exact ⟨Nat.le_trans (by decide) (UInt32.le_iff_toNat_le.mp h.1),
        Nat.le_trans (UInt32.le_iff_toNat_le.mp h.2) (by decide)⟩
    · exact ⟨Nat.le_trans (by decide) (UInt32.le_iff_toNat_le.mp h.1),
        Nat.le_trans (UInt32.le_iff_toNat_le.mp h.2) (by decide)⟩
    · exact ⟨Nat.le_trans (by decide) (UInt32.le_iff_toNat_le.mp h.1),
        Nat.le_trans (UInt32.le_iff_toNat_le.mp h.2) (by decide)⟩
    · decide
  rw [← Bool.not_eq_true]
  intro hb
  simp only [isBlank, Bool.or_eq_true, Bool.and_eq_true, decide_eq_true_eq, beq_iff_eq] at hb
  omega

/-- No blank stands at either end of a type. -/
theorem trim_of_isType {P : TypeSuffix → Prop} {s : List Char} (h : IsType P s) : trim s = s := by
  have hstart : Stops isBlank s := by
    simpa using h.stops (fun _ => isBlank_of_isWordChar) []
  have hlast : Stops isBlank s.reverse := by
    obtain ⟨t, c, rfl, hc⟩ := h.getLast?_eq
    rw [List.reverse_append]
    refine stops_cons.mpr ?_
    rcases hc with hc | rfl | rfl
    · exact isBlank_of_isWordChar hc
    · decide
    · decide
  rw [trim, trimStart, dropWhile_of_stops hstart, trimEnd, dropWhile_of_stops hlast,
    List.reverse_reverse]

section Attributes

variable {a : Attribute}

theorem toList_attributeLine {P : TypeSuffix → Prop} (htype : IsType P a.type.toList) :
    (Diagram.attributeLine a).toList = writtenLine a.visibility a.isStatic (attributeRest a) := by
  have htrim : String.ofList (trim a.type.toList) = a.type := by
    rw [trim_of_isType htype, String.ofList_toList]
  have hstatic : (textIf a.isStatic "\x7bstatic\x7d ").toList = staticMark a.isStatic := by
    cases a.isStatic <;> rfl
  simp [Diagram.attributeLine, writtenLine, attributeRest, htrim, hstatic, String.toList_append]

theorem attributeText_eq (a : Attribute) :
    attributeText a = (memberLineOf a.visibility a.isStatic (attributeRest a)).text := rfl

theorem unmarked_attributeRest_iff (hname : IsWord a.name.toList) :
    Unmarked (attributeRest a) ↔ Unmarked a.type.toList := by
  rw [attributeRest, unmarked_append_cons_iff (by decide)]
  exact ⟨And.left, fun h => ⟨h, unmarked_of_isWord hname⟩⟩

theorem exists_attributeRest (hname : IsWord a.name.toList) :
    ∃ t c, attributeRest a = t ++ [c] ∧ c ≠ '\r' := by
  have hc := hname.chars _ (List.getLast_mem hname.ne_nil)
  refine ⟨a.type.toList ++ ' ' :: a.name.toList.dropLast, a.name.toList.getLast hname.ne_nil, ?_,
    ne_of_isWordChar hc (by decide)⟩
  rw [attributeRest, List.append_assoc, List.cons_append, List.dropLast_concat_getLast]

/-- The line of an attribute, once its modifier is taken out. -/
def lineOfAttribute (a : Attribute) : Line :=
  memberLineOf a.visibility a.isStatic (attributeRest a)

theorem strippedLine_attributeLine {P : TypeSuffix → Prop} (hname : IsWord a.name.toList)
    (htype : IsType P a.type.toList) (hu : Unmarked a.type.toList) :
    strippedLine (Diagram.attributeLine a).toList = lineOfAttribute a := by
  obtain ⟨t, c, he, hc⟩ := exists_attributeRest hname
  rw [toList_attributeLine htype]
  exact strippedLine_writtenLine _ _ he hc ((unmarked_attributeRest_iff hname).mpr hu)

theorem not_mem_of_isWord {w : List Char} {c : Char} (hw : IsWord w) (hc : isWordChar c = false) :
    c ∉ w := by
  intro h
  rw [hw.chars c h] at hc
  cases hc

theorem not_mem_attributeLine (ha : a.Drawable) : '\n' ∉ (Diagram.attributeLine a).toList := by
  rw [toList_attributeLine ha.type]
  refine not_mem_writtenLine _ _ ?_
  have hname : '\n' ∉ a.name.toList := not_mem_of_isWord ha.name (by decide)
  simp [attributeRest, ha.oneLine, hname]

end Attributes

/-! ### Methods -/

section Methods

variable {m : Method}

theorem toList_methodLine (m : Method) :
    (Diagram.methodLine m).toList = writtenLine m.visibility m.isStatic (methodRest m) := by
  have hparameters : (String.intercalate ", " (m.parameters.map Diagram.parameter)).toList =
      parametersText m.parameters := by
    rw [String.toList_intercalate, List.map_map]
    rfl
  have hstatic : (textIf m.isStatic "\x7bstatic\x7d ").toList = staticMark m.isStatic := by
    cases m.isStatic <;> rfl
  have habstract : (textIf m.isAbstract "abstract ").toList =
      if m.isAbstract then "abstract".toList ++ [' '] else [] := by
    cases m.isAbstract <;> rfl
  simp only [Diagram.methodLine, String.toList_append, String.toList_singleton, hstatic, habstract,
    hparameters, writtenLine, methodRest, signatureText, List.append_assoc]
  rfl

theorem methodText_eq (m : Method) :
    methodText m = (memberLineOf m.visibility m.isStatic (methodRest m)).text := rfl

theorem unmarked_parametersText_iff {ps : List Parameter}
    (hname : ∀ p ∈ ps, IsWord p.name.toList) :
    Unmarked (parametersText ps) ↔ ∀ p ∈ ps, Unmarked p.type.toList := by
  have hone : ∀ p ∈ ps, Unmarked (Diagram.parameter p).toList ↔ Unmarked p.type.toList := by
    intro p hp
    rw [toList_parameter, unmarked_append_cons_iff (by decide), unmarked_cons_iff (by decide),
      unmarked_cons_iff (by decide)]
    exact ⟨And.right, fun h => ⟨unmarked_of_isWord (hname p hp), h⟩⟩
  induction ps with
  | nil => exact ⟨fun _ p hp => absurd hp List.not_mem_nil, fun _ => unmarked_nil⟩
  | cons p ps ih =>
      have hp := hone p (by simp)
      have hrest : Unmarked (parametersText ps) ↔ ∀ q ∈ ps, Unmarked q.type.toList :=
        ih (fun q hq => hname q (by simp [hq])) fun q hq => hone q (by simp [hq])
      rw [List.forall_mem_cons, ← hp, ← hrest]
      cases ps with
      | nil => simp [parametersText, unmarked_nil]
      | cons q r =>
          have htext : parametersText (p :: q :: r) =
              (Diagram.parameter p).toList ++ ',' :: ' ' :: parametersText (q :: r) := by
            simp [parametersText, List.intercalate_cons_cons]
          rw [htext, unmarked_append_cons_iff (by decide), unmarked_cons_iff (by decide)]

theorem unmarked_methodRest_iff (hm : m.Writable) :
    Unmarked (methodRest m) ↔ m.TypesUnmarked := by
  have hrest : Unmarked (m.returnType.toList ++ ' ' :: signatureText m) ↔ m.TypesUnmarked := by
    rw [signatureText, unmarked_append_cons_iff (by decide), unmarked_append_cons_iff (by decide),
      unmarked_append_singleton_iff (by decide), unmarked_parametersText_iff hm.parameterName]
    exact ⟨fun h => ⟨h.1, h.2.2⟩, fun h => ⟨h.returnType, unmarked_of_isWord hm.name, h.parameters⟩⟩
  rw [methodRest]
  cases m.isAbstract with
  | false => exact hrest
  | true =>
      have hword : Unmarked "abstract".toList := unmarked_of_isWord (by decide)
      rw [if_pos rfl, List.append_assoc, List.singleton_append, unmarked_append_cons_iff (by decide),
        hrest]
      exact ⟨And.right, fun h => ⟨hword, h⟩⟩

theorem exists_methodRest (m : Method) : ∃ t, methodRest m = t ++ [')'] := by
  refine ⟨(if m.isAbstract then "abstract".toList ++ [' '] else []) ++ (m.returnType.toList ++
    ' ' :: (m.name.toList ++ '(' :: parametersText m.parameters)), ?_⟩
  rw [methodRest, signatureText, List.append_assoc, List.append_assoc, List.cons_append,
    List.append_assoc, List.cons_append]

/-- The line of a method, once its modifier is taken out. -/
def lineOfMethod (m : Method) : Line :=
  memberLineOf m.visibility m.isStatic (methodRest m)

theorem strippedLine_methodLine (hm : m.Writable) (hu : m.TypesUnmarked) :
    strippedLine (Diagram.methodLine m).toList = lineOfMethod m := by
  obtain ⟨t, he⟩ := exists_methodRest m
  rw [toList_methodLine]
  exact strippedLine_writtenLine _ _ he (by decide) ((unmarked_methodRest_iff hm).mpr hu)

theorem not_mem_methodLine (hm : m.Drawable) : '\n' ∉ (Diagram.methodLine m).toList := by
  have htypes := hm.oneLine
  rw [Method.typesText, List.mem_append, not_or, List.mem_flatMap, not_exists] at htypes
  have hname : '\n' ∉ m.name.toList := not_mem_of_isWord hm.name (by decide)
  have hparameters : '\n' ∉ parametersText m.parameters := by
    intro h
    rcases mem_parametersText h with h | h | h | ⟨p, hp, h | h⟩
    · exact absurd h (by decide)
    · exact absurd h (by decide)
    · exact absurd h (by decide)
    · exact not_mem_of_isWord (hm.parameterName p hp) (by decide) h
    · exact htypes.2 p ⟨hp, h⟩
  have hmark : '\n' ∉ (if m.isAbstract then "abstract".toList ++ [' '] else []) := by
    cases m.isAbstract <;> decide
  rw [toList_methodLine]
  refine not_mem_writtenLine _ _ ?_
  rw [methodRest, signatureText, List.mem_append, not_or]
  exact ⟨hmark, by simp [htypes.1, hname, hparameters]⟩

end Methods

/-! ### Headers, constants and associations -/

/-- A line that is left as it is. -/
structure Intact (line : List Char) : Prop where
  unmarked : Unmarked line
  noReturn : dropReturn line = line
  oneLine : '\n' ∉ line

theorem Intact.strippedLine {line : List Char} (h : Intact line) :
    strippedLine line = { text := line } :=
  strippedLine_of_unmarked h.noReturn h.unmarked

/-- A line without braces that does not end with a carriage return is left as it is. -/
theorem intact_of_forall {line : List Char}
    (h : ∀ c ∈ line, c ≠ '\x7b' ∧ c ≠ '\r' ∧ c ≠ '\n') : Intact line := by
  refine ⟨unmarked_of_not_mem fun hc => (h _ hc).1 rfl, ?_, fun hc => (h _ hc).2.2 rfl⟩
  rw [dropReturn, if_neg]
  intro hlast
  exact (h _ (List.mem_of_getLast? hlast)).2.1 rfl

/-- A character that is left as it is wherever it stands. -/
def isIntactChar (c : Char) : Bool :=
  c != '\x7b' && c != '\r' && c != '\n'

theorem isIntactChar_of_isWordChar {c : Char} (h : isWordChar c = true) :
    isIntactChar c = true := by
  have hne : ∀ d : Char, isWordChar d = false → (c != d) = true := fun d hd =>
    bne_iff_ne.mpr (ne_of_isWordChar h hd)
  rw [isIntactChar, hne _ (by decide), hne _ (by decide), hne _ (by decide)]
  rfl

theorem intact_of_all {line : List Char} (h : line.all isIntactChar = true) : Intact line :=
  intact_of_forall fun c hc => by
    simpa [isIntactChar, and_assoc] using List.all_eq_true.mp h c hc

theorem all_of_isWord {w : List Char} (h : IsWord w) : w.all isIntactChar = true :=
  List.all_eq_true.mpr fun c hc => isIntactChar_of_isWordChar (h.chars c hc)

theorem intact_plainHeaderText {w n : String} (hw : IsWord w.toList) (hn : IsWord n.toList) :
    (plainHeaderText w n).all isIntactChar = true := by
  rw [plainHeaderText, List.all_append, List.all_cons, all_of_isWord hw, all_of_isWord hn]
  rfl

theorem intact_classHeaderText {c : Class} (hc : c.Headed) :
    (classHeaderText c).all isIntactChar = true := by
  have hparent : (extendsText c.superclass).all isIntactChar = true := by
    cases hp : c.superclass with
    | none => rfl
    | some p =>
        rw [extendsText, List.all_cons, List.all_append, List.all_cons,
          all_of_isWord (hc.superclass p hp)]
        rfl
  have hnames : ∀ ns : List String, (∀ n ∈ ns, IsWord n.toList) →
      (namesText ns).all isIntactChar = true := by
    intro ns hns
    rw [namesText, List.all_flatMap, List.all_eq_true]
    intro n hn
    rw [List.all_cons, List.all_cons, all_of_isWord (hns n hn)]
    rfl
  have hinterfaces : (implementsText c.interfaces).all isIntactChar = true := by
    cases hi : c.interfaces with
    | nil => rfl
    | cons n ns =>
        have hn := hc.interfaces n (by simp [hi])
        rw [implementsText, List.all_cons, List.all_append, List.all_cons, List.all_append,
          all_of_isWord hn, hnames ns fun k hk => hc.interfaces k (by simp [hi, hk])]
        rfl
  have hclass : (classText c).all isIntactChar = true := by
    rw [classText, List.all_append, List.all_cons, List.all_append, List.all_append, hparent,
      hinterfaces, all_of_isWord hc.name]
    rfl
  rw [classHeaderText, List.all_append, hclass]
  cases c.isAbstract <;> rfl

/-- The opening brace at the end of a header begins no word in braces. -/
theorem intact_openingMark {line : List Char} (h : line.all isIntactChar = true) (b : Bool) :
    Intact (line ++ openingMark b) := by
  have hline := intact_of_all h
  cases b with
  | false => rwa [openingMark, if_neg Bool.false_ne_true, List.append_nil]
  | true =>
      have hopen : Unmarked ['\x7b'] := by decide +kernel
      refine ⟨?_, ?_, ?_⟩
      · rw [openingMark, if_pos rfl, unmarked_append_cons_iff (by decide)]
        exact ⟨hline.unmarked, hopen⟩
      · rw [openingMark, if_pos rfl, ← List.singleton_append, ← List.append_assoc]
        exact dropReturn_append (by decide)
      · rw [openingMark, if_pos rfl, List.mem_append, not_or]
        exact ⟨hline.oneLine, by decide⟩

theorem intact_constantText {p : EnumProperty} (hp : p.Drawable) : Intact (constantText p) := by
  refine intact_of_all ?_
  have hvalue : (if p.value.toList = [] then ([] : List Char)
      else ' ' :: ':' :: ' ' :: p.value.toList).all isIntactChar = true := by
    split
    · rfl
    · rw [List.all_cons, List.all_cons, List.all_cons, all_of_isWord (hp.value ‹_›)]
      rfl
  rw [constantText, List.all_cons, List.all_append, all_of_isWord hp.name, hvalue]
  rfl

theorem intact_associationText {a : Association} (ha : a.Drawable) :
    Intact (associationText a) := by
  refine intact_of_all ?_
  have hquoted : ∀ m : Multiplicity, (quotedText m).all isIntactChar = true := by
    intro m
    cases m <;> decide
  have hlabel : (labelText a.label).all isIntactChar = true := by
    rw [labelText]
    split
    · rfl
    · have hall : a.label.toList.all isIntactChar = true := by
        rw [List.all_eq_true]
        intro c hc
        have := ha.label.chars c hc
        rw [isLabelChar, Bool.or_eq_true] at this
        rcases this with hw | hs
        · exact isIntactChar_of_isWordChar hw
        · simp only [isSpace, Bool.or_eq_true, beq_iff_eq] at hs
          rcases hs with rfl | rfl <;> rfl
      rw [List.all_cons, List.all_cons, List.all_cons, hall]
      rfl
  rw [associationText, associationRest]
  simp only [List.all_append, List.all_cons, hquoted, hlabel, all_of_isWord ha.left,
    all_of_isWord ha.right]
  rfl

end ClassModel
