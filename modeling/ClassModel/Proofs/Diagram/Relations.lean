/-
Reading lines that relate two types, and lines that name a constant.

Every association is written as a composition owned by its left type.  Where no multiplicity
is written two spaces stand side by side, and the parser takes them together, so the line
reads the same with a multiplicity and without one.  The diamond in the operator and the
quote in front of a multiplicity are no characters of a word, which is why such a line is
neither a header nor a member of anything, whatever its left type is called.

A label comes back without the spaces at its ends, so the labels that survive are those
that have none there.
-/
import ClassModel.Diagram.Constant
import ClassModel.Diagram.Member
import ClassModel.Diagram.Relation
import ClassModel.Proofs.Diagram.Headers
import ClassModel.Proofs.Diagram.Parameters

namespace ClassModel

open LineParser

/-! ### Labels -/

/-- What is left out where it is empty is empty where it is missing. -/
theorem getD_of_left_out (s : String) :
    (if s.toList = [] then none else some s).getD "" = s := by
  split
  · exact (String.toList_eq_nil_iff.mp ‹_›).symm
  · rfl

/-- A character of a label. -/
def isLabelChar (c : Char) : Bool :=
  isWordChar c || isSpace c

/-- A label: nothing, or words with spaces between them. -/
structure IsLabel (l : List Char) : Prop where
  chars : ∀ c ∈ l, isLabelChar c = true
  head : ∀ c ∈ l.head?, isWordChar c = true
  last : ∀ c ∈ l.getLast?, isWordChar c = true

instance (l : List Char) : Decidable (IsLabel l) :=
  decidable_of_iff ((∀ c ∈ l, isLabelChar c = true) ∧ (∀ c ∈ l.head?, isWordChar c = true) ∧
      ∀ c ∈ l.getLast?, isWordChar c = true)
    ⟨fun h => ⟨h.1, h.2.1, h.2.2⟩, fun h => ⟨h.chars, h.head, h.last⟩⟩

theorem isLabel_nil : IsLabel [] := by
  decide

theorem IsLabel.stops {l : List Char} (h : IsLabel l) : Stops isSpace l := fun c hc =>
  isSpace_of_isWordChar (h.head c hc)

/-- A text without spaces at either end is left as it is. -/
theorem trimSpaces_of_isLabel {l : List Char} (h : IsLabel l) : trimSpaces l = l := by
  have hlast : Stops isSpace l.reverse := by
    intro c hc
    rw [List.head?_reverse] at hc
    exact isSpace_of_isWordChar (h.last c hc)
  rw [trimSpaces, dropWhile_of_stops h.stops, dropWhile_of_stops hlast, List.reverse_reverse]

/-- What is left of words and spaces without the spaces at either end is a label. -/
theorem isLabel_trimSpaces {s : List Char} (h : ∀ c ∈ s, isLabelChar c = true) :
    IsLabel (trimSpaces s) := by
  have hword : ∀ {t : List Char} {c : Char}, (∀ d ∈ t, isLabelChar d = true) → Stops isSpace t →
      c ∈ t.head? → isWordChar c = true := by
    intro t c ht hs hc
    have hlabel := ht c (List.mem_of_mem_head? hc)
    rw [isLabelChar, hs c hc, Bool.or_false] at hlabel
    exact hlabel
  have hfront : ∀ c ∈ s.dropWhile isSpace, isLabelChar c = true := fun c hc =>
    h c ((List.dropWhile_suffix _).subset hc)
  have hsub : ∀ c ∈ (s.dropWhile isSpace).reverse.dropWhile isSpace, isLabelChar c = true :=
    fun c hc => hfront c (List.mem_reverse.mp ((List.dropWhile_suffix _).subset hc))
  refine ⟨fun c hc => hsub c (List.mem_reverse.mp hc), ?_, ?_⟩
  · intro c hc
    -- What is left keeps its first character, or nothing is left at all.
    have hpre : trimSpaces s <+: s.dropWhile isSpace := by
      have := List.reverse_prefix.mpr (List.dropWhile_suffix (l := (s.dropWhile isSpace).reverse)
        isSpace)
      rwa [List.reverse_reverse] at this
    obtain ⟨t, ht⟩ := hpre
    refine hword hfront (stops_dropWhile isSpace s) ?_
    rw [← ht, List.head?_append, Option.mem_def.mp hc]
    rfl
  · intro c hc
    rw [trimSpaces, List.getLast?_reverse] at hc
    exact hword hsub (stops_dropWhile isSpace _) hc

/-! ### Written associations -/

/-- A multiplicity in quotes, or nothing for an unspecified one. -/
def quotedText (m : Multiplicity) : List Char :=
  if m ≠ .unspecified then '"' :: (m.literal.toList ++ ['"']) else []

/-- A label with the colon in front of it, or nothing. -/
def labelText (l : String) : List Char :=
  if l.toList = [] then [] else ' ' :: ':' :: ' ' :: l.toList

/-- What stands behind the operator of an association. -/
def associationRest (a : Association) : List Char :=
  ' ' :: (quotedText a.leftToRight ++ ' ' :: (a.right.toList ++ labelText a.label))

/-- The line of an association. -/
def associationText (a : Association) : List Char :=
  a.left.toList ++ ' ' :: (quotedText a.rightToLeft ++ ' ' :: ("*-->".toList ++ associationRest a))

/-- An association that can be written on a line. -/
structure Association.Drawable (a : Association) : Prop where
  left : IsWord a.left.toList
  right : IsWord a.right.toList
  label : IsLabel a.label.toList

section Associations

variable {a : Association}

/-- Behind the left type, spaces left aside, there is a quote or a diamond. -/
theorem exists_associationText (a : Association) : ∃ c r,
    (quotedText a.rightToLeft ++ ' ' :: ("*-->".toList ++ associationRest a)).dropWhile isSpace =
      c :: r ∧ (c = '"' ∨ c = '*') := by
  cases h : a.rightToLeft with
  | unspecified => exact ⟨'*', _, rfl, Or.inr rfl⟩
  | zeroOrOne => exact ⟨'"', _, rfl, Or.inl rfl⟩
  | one => exact ⟨'"', _, rfl, Or.inl rfl⟩
  | many => exact ⟨'"', _, rfl, Or.inl rfl⟩
  | oneOrMany => exact ⟨'"', _, rfl, Or.inl rfl⟩

/-- A line with an association behind its first word declares nothing. -/
theorem header?_word_association {w : List Char} (hw : IsWord w) (a : Association) :
    header? (w ++ ' ' :: (quotedText a.rightToLeft ++ ' ' :: ("*-->".toList ++
      associationRest a))) = none := by
  obtain ⟨c, r, he, hc⟩ := exists_associationText a
  refine header?_word_eq_none hw ?_ ?_
  · rw [he, stops_cons]
    rcases hc with rfl | rfl <;> decide
  · rw [he, stops_cons]
    rcases hc with rfl | rfl <;> rfl

/-- The line of an association declares nothing. -/
theorem header?_associationText (ha : a.Drawable) : header? (associationText a) = none :=
  header?_word_association ha.left a

/-- The line of an association attaches nothing to a type. -/
theorem inlineMember?_associationText (ha : a.Drawable) :
    inlineMember? (associationText a) = none := by
  obtain ⟨c, r, he, hc⟩ := exists_associationText a
  have hstart : Stops isSpace (associationText a) :=
    ha.left.stops (fun _ => isSpace_of_isWordChar) _
  have hvisibility : visibility (associationText a) = some (none, associationText a) := by
    have hmark : satisfy (fun c => c == '+' || c == '-' || c == '#' || c == '~')
        (associationText a) = none := by
      obtain ⟨d, t, hd, hw⟩ := ha.left.exists_cons
      have hne : ∀ e : Char, isWordChar e = false → (d == e) = false := fun e he' =>
        beq_false_of_isWordChar hw he'
      rw [associationText, hd, List.cons_append, satisfy_cons, hne _ (by decide), hne _ (by decide),
        hne _ (by decide), hne _ (by decide)]
      rfl
    rw [visibility, bind_of_some (optional_eq_none hmark)]
    rfl
  have hname : name (associationText a) = some (a.left, ' ' :: (quotedText a.rightToLeft ++
      ' ' :: ("*-->".toList ++ associationRest a))) :=
    name_append ha.left (stops_cons.mpr rfl)
  have hcolon : colon (' ' :: (quotedText a.rightToLeft ++
      ' ' :: ("*-->".toList ++ associationRest a))) = none := by
    refine colon_eq_none ?_
    show Stops (· == ':') ((quotedText a.rightToLeft ++
      ' ' :: ("*-->".toList ++ associationRest a)).dropWhile isSpace)
    rw [he, stops_cons]
    rcases hc with rfl | rfl <;> rfl
  have htarget : inlineTarget (associationText a) = none := by
    rw [inlineTarget, bind_of_some hvisibility, bind_of_some (spaces_of_stops hstart),
      bind_of_some hname, bind_of_none hcolon]
  have hdrop := dropWhile_of_stops hstart
  have hattribute : accept (fullLine inlineAttribute) (associationText a) = none := by
    refine accept_fullLine_eq_none ?_
    rw [hdrop, inlineAttribute, bind_of_none htarget]
  have hmethod : inlineMethod? (associationText a) = none := by
    refine accept_fullLine_eq_none ?_
    rw [hdrop, inlineMethod, bind_of_none htarget]
  rw [inlineMember?, hattribute, hmethod]
  rfl

/-- The literal in front of which a multiplicity is written. -/
def quotedLiteral (m : Multiplicity) : Option String :=
  if m ≠ .unspecified then some m.literal else none

theorem ofLiteral_quotedLiteral (m : Multiplicity) :
    Multiplicity.ofLiteral (quotedLiteral m) = m := by
  cases m <;> rfl

theorem quotedMultiplicity_quotedText {m : Multiplicity} (hm : m ≠ .unspecified) (r : List Char) :
    quotedMultiplicity (quotedText m ++ r) = some (m.literal, r) := by
  cases m with
  | unspecified => exact absurd rfl hm
  | zeroOrOne => rfl
  | one => rfl
  | many => rfl
  | oneOrMany => rfl

theorem quotedMultiplicity_eq_none {s : List Char} (h : Stops (· == '"') s) :
    quotedMultiplicity s = none := by
  rw [quotedMultiplicity, bind_of_none (char_eq_none h)]

/-- The multiplicity in front of the operator is read together with the spaces behind it. -/
theorem leftMultiplicity_text (m : Multiplicity) {r : List Char} (hr : Stops isSpace r)
    (hq : Stops (· == '"') r) :
    optional (do
      let m ← quotedMultiplicity
      spaces1
      return m) ((quotedText m ++ ' ' :: r).dropWhile isSpace) = some (quotedLiteral m, r) := by
  by_cases hm : m = .unspecified
  · subst hm
    have hdrop : (quotedText .unspecified ++ ' ' :: r).dropWhile isSpace = r := by
      show r.dropWhile isSpace = r
      exact dropWhile_of_stops hr
    rw [hdrop]
    exact optional_eq_none (bind_of_none (quotedMultiplicity_eq_none hq) _)
  · have hdrop : (quotedText m ++ ' ' :: r).dropWhile isSpace = quotedText m ++ ' ' :: r := by
      rw [quotedText, if_pos hm]
      rfl
    rw [hdrop, quotedLiteral, if_pos hm]
    refine optional_eq_some ?_
    rw [bind_of_some (quotedMultiplicity_quotedText hm _), bind_of_some (spaces1_space hr)]
    rfl

/-- The multiplicity behind the operator leaves at least one space. -/
theorem rightMultiplicity_text (m : Multiplicity) {r : List Char} (hr : Stops isSpace r)
    (hq : Stops (· == '"') r) : ∃ t,
    optional (do
      spaces1
      quotedMultiplicity) (' ' :: (quotedText m ++ ' ' :: r)) = some (quotedLiteral m, t) ∧
      spaces1 t = some ((), r) := by
  by_cases hm : m = .unspecified
  · subst hm
    have hspaces : spaces1 (' ' :: ' ' :: r) = some ((), r) := by
      rw [spaces1_cons]
      show some ((), r.dropWhile isSpace) = _
      rw [dropWhile_of_stops hr]
    refine ⟨' ' :: ' ' :: r, optional_eq_none ?_, hspaces⟩
    show (spaces1 >>= fun _ => quotedMultiplicity) (' ' :: ' ' :: r) = none
    rw [bind_of_some hspaces, quotedMultiplicity_eq_none hq]
  · have hstop : Stops isSpace (quotedText m ++ ' ' :: r) := by
      rw [quotedText, if_pos hm]
      exact stops_cons.mpr rfl
    refine ⟨' ' :: r, ?_, spaces1_space hr⟩
    rw [quotedLiteral, if_pos hm]
    refine optional_eq_some ?_
    rw [bind_of_some (spaces1_space hstop), quotedMultiplicity_quotedText hm]

theorem compositionOperator_text (r : List Char) :
    compositionOperator ("*-->".toList ++ ' ' :: r) = some ("*-->", ' ' :: r) := by
  rfl

/-- The label at the end of a line is read. -/
theorem label_text {l : String} (hl : IsLabel l.toList) :
    LineParser.optional label (labelText l) = some (if l.toList = [] then none else some l, []) := by
  by_cases hnil : l.toList = []
  · rw [labelText, if_pos hnil, if_pos hnil]
    rfl
  · rw [labelText, if_neg hnil, if_neg hnil]
    refine optional_eq_some ?_
    have hcolon : colon (' ' :: ':' :: ' ' :: l.toList) = some ((), l.toList) :=
      colon_of_spaces (w := [' ']) (v := [' ']) (by simp [isSpace]) (by simp [isSpace]) hl.stops
    have hrun : run1 (fun c => isWordChar c || isSpace c) l.toList = some (l.toList, []) := by
      have := run1_append hnil hl.chars (stops_nil isLabelChar)
      rwa [List.append_nil] at this
    rw [label, bind_of_some hcolon, bind_of_some hrun, trimSpaces_of_isLabel hl,
      String.ofList_toList]
    rfl

/-- **A written association is read back as a composition.** -/
theorem composition?_associationText (ha : a.Drawable) :
    composition? (associationText a) =
      some { left := a.left, leftMultiplicity := quotedLiteral a.rightToLeft, separator := "*-->",
             rightMultiplicity := quotedLiteral a.leftToRight, right := a.right,
             label := if a.label.toList = [] then none else some a.label } := by
  have hstart : Stops isSpace (associationText a) :=
    ha.left.stops (fun _ => isSpace_of_isWordChar) _
  have hright : Stops isSpace (a.right.toList ++ labelText a.label) :=
    ha.right.stops (fun _ => isSpace_of_isWordChar) _
  have hrightQuote : Stops (· == '"') (a.right.toList ++ labelText a.label) :=
    ha.right.stops (fun _ hc => beq_false_of_isWordChar hc (by decide)) _
  have hlabel : Stops isWordChar (labelText a.label) := by
    unfold labelText
    split
    · exact stops_nil _
    · exact stops_cons.mpr rfl
  obtain ⟨t, ht, hspaces⟩ := rightMultiplicity_text a.leftToRight hright hrightQuote
  rw [composition?, relation, accept_fullLine_eq_some_iff, dropWhile_of_stops hstart]
  refine ⟨[], ?_, by simp⟩
  have hleft : name (associationText a) = some (a.left, ' ' :: (quotedText a.rightToLeft ++
      ' ' :: ("*-->".toList ++ associationRest a))) :=
    name_append ha.left (stops_cons.mpr rfl)
  have hmultiplicity := leftMultiplicity_text a.rightToLeft
    (r := "*-->".toList ++ associationRest a) (stops_cons.mpr rfl) (stops_cons.mpr rfl)
  have hoperator : compositionOperator ("*-->".toList ++ associationRest a) =
      some ("*-->", associationRest a) := compositionOperator_text _
  rw [bind_of_some hleft, bind_of_some (spaces1_cons _), bind_of_some hmultiplicity,
    bind_of_some hoperator]
  rw [associationRest, bind_of_some ht, bind_of_some hspaces,
    bind_of_some (name_append ha.right hlabel), bind_of_some (label_text ha.label)]
  rfl

end Associations

/-! ### What a relation names -/

/-- **The types of a relation are words, and its label is a label.** -/
theorem relation_eq_some {operator : LineParser String} {line : List Char} {r : Relation}
    (h : accept (relation operator) line = some r) : r.association.Drawable := by
  rw [relation, accept_fullLine_eq_some_iff] at h
  obtain ⟨t, h, -⟩ := h
  simp only [bind_apply, Option.bind_eq_some_iff, pure_apply, Option.some.injEq,
    Prod.mk.injEq] at h
  obtain ⟨⟨left, _⟩, hleft, _, _, _, _, _, _, _, _, _, _, ⟨right, _⟩, hright, ⟨l, _⟩, hlabel,
    rfl, -⟩ := h
  refine ⟨(name_eq_some_iff.mp hleft).2.1, (name_eq_some_iff.mp hright).2.1, ?_⟩
  rcases optional_eq_some_iff.mp hlabel with ⟨l, rfl, hl⟩ | ⟨rfl, -, -⟩
  · simp only [label, bind_apply, Option.bind_eq_some_iff, pure_apply, Option.some.injEq,
      Prod.mk.injEq] at hl
    obtain ⟨_, _, ⟨text, _⟩, htext, rfl, -⟩ := hl
    show IsLabel (String.ofList (trimSpaces text)).toList
    rw [String.toList_ofList]
    exact isLabel_trimSpaces (run1_eq_some htext).2.2.1
  · exact isLabel_nil

/-! ### Constants -/

/-- The line of a constant. -/
def constantText (p : EnumProperty) : List Char :=
  '\t' :: (p.name.toList ++ if p.value.toList = [] then [] else ' ' :: ':' :: ' ' :: p.value.toList)

/-- A constant that can be written on a line. -/
structure EnumProperty.Drawable (p : EnumProperty) : Prop where
  name : IsWord p.name.toList
  value : p.value.toList ≠ [] → IsWord p.value.toList

/-- **A written constant is read back.** -/
theorem constantLine?_constantText {p : EnumProperty} (hp : p.Drawable) :
    constantLine? (constantText p) =
      some (p.name, if p.value.toList = [] then none else some p.value) := by
  have hrun : ∀ r, run (fun c => !isWordChar c) ('\t' :: (p.name.toList ++ r)) =
      some (['\t'], p.name.toList ++ r) := by
    intro r
    have hstop : Stops (fun c => !isWordChar c) (p.name.toList ++ r) :=
      hp.name.stops (fun _ hc => by simp [hc]) r
    have htake := takeWhile_append_of_stops (w := ['\t']) (by decide) hstop
    have hdrop := dropWhile_append_of_stops (w := ['\t']) (by decide) hstop
    rw [run_apply]
    exact congrArg some (Prod.ext htake hdrop)
  by_cases hnil : p.value.toList = []
  · have hword : word (p.name.toList ++ []) = some (p.name.toList, []) :=
      word_append hp.name (stops_nil _)
    have hvalue : LineParser.optional constantValue [] = some (none, []) := rfl
    rw [constantText, if_pos hnil, if_pos hnil, constantLine?, accept, constant,
      bind_of_some (hrun _), bind_of_some hword, bind_of_some hvalue, bind_of_some (run_apply _ _),
      String.ofList_toList]
    rfl
  · have hv := hp.value hnil
    have hword : word (p.name.toList ++ ' ' :: ':' :: ' ' :: p.value.toList) =
        some (p.name.toList, ' ' :: ':' :: ' ' :: p.value.toList) :=
      word_append hp.name (stops_cons.mpr rfl)
    have hspace : Stops isSpace p.value.toList := by
      simpa using hv.stops (fun _ => isSpace_of_isWordChar) []
    have hread : word p.value.toList = some (p.value.toList, []) := by
      simpa using word_append hv (stops_nil _)
    have hmark : satisfy (fun c => c == '=' || c == ':') (':' :: ' ' :: p.value.toList) =
        some (':', ' ' :: p.value.toList) := rfl
    have hskip : spaces (' ' :: p.value.toList) = some ((), p.value.toList) := by
      rw [spaces_apply]
      show some ((), p.value.toList.dropWhile isSpace) = _
      rw [dropWhile_of_stops hspace]
    have hvalue : constantValue (' ' :: ':' :: ' ' :: p.value.toList) =
        some (p.value.toList, []) := by
      have hcolon : spaces (' ' :: ':' :: ' ' :: p.value.toList) =
          some ((), ':' :: ' ' :: p.value.toList) := rfl
      rw [constantValue, bind_of_some hcolon, bind_of_some hmark, bind_of_some hskip, hread]
    rw [constantText, if_neg hnil, if_neg hnil, constantLine?, accept, constant,
      bind_of_some (hrun _), bind_of_some hword, bind_of_some (optional_eq_some hvalue),
      bind_of_some (run_apply _ _), String.ofList_toList, Option.map_some, String.ofList_toList]
    rfl

/-- **A constant and its value are words.** -/
theorem constantLine?_eq_some {line : List Char} {n : String} {v : Option String}
    (h : constantLine? line = some (n, v)) :
    IsWord n.toList ∧ ∀ x ∈ v, IsWord x.toList := by
  rw [constantLine?, accept, Option.map_eq_some_iff] at h
  obtain ⟨⟨x, r⟩, hread, he⟩ := h
  simp only [constant, bind_apply, Option.bind_eq_some_iff, pure_apply, Option.some.injEq,
    Prod.mk.injEq] at hread
  obtain ⟨_, _, ⟨w, _⟩, hw, ⟨value, _⟩, hvalue, _, _, rfl, -⟩ := hread
  cases he
  refine ⟨by rw [String.toList_ofList]; exact (word_eq_some_iff.mp hw).2.1, ?_⟩
  intro x hx
  rcases optional_eq_some_iff.mp hvalue with ⟨u, rfl, hu⟩ | ⟨rfl, -, -⟩
  · cases hx
    simp only [constantValue, bind_apply, Option.bind_eq_some_iff] at hu
    obtain ⟨_, _, _, _, _, _, hu⟩ := hu
    rw [String.toList_ofList]
    exact (word_eq_some_iff.mp hu).2.1
  · cases hx

end ClassModel
