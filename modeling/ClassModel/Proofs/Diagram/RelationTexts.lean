/-
The language of relation lines.

A relation line is taken apart into a `RelationText`: two words, an operator between them, perhaps
quoted multiplicities on either side of it, perhaps a label, and the spaces around all of these.
The reader accepts a line exactly if it is such a text, and it returns the words, the operator,
the multiplicities and the label of that text.  There is nothing to choose: a line is taken apart
in one way at most.

The reader is greedy and never goes back, so that much is not clear from the start.  It is true
because each part ends where its characters stop, and what may follow begins with a character
that the part could not go on with.  The one part that needs a look ahead is the multiplicity in
front of the right word, which shares its spaces with the gap that comes next.  A label may hold
spaces, but it neither begins nor ends with one, and so the spaces at the end of the line are not
part of it.
-/
import ClassModel.Proofs.Diagram.Relations

namespace ClassModel

open LineParser

/-! ### Texts of relations -/

/-- Spaces and tabs, possibly none. -/
def IsBlankRun (s : List Char) : Prop :=
  ∀ c ∈ s, isSpace c = true

instance (s : List Char) : Decidable (IsBlankRun s) :=
  decidableForallChars (fun c => isSpace c = true) s

/-- Spaces and tabs, at least one. -/
structure IsGap (s : List Char) : Prop where
  ne_nil : s ≠ []
  spaces : IsBlankRun s

instance (s : List Char) : Decidable (IsGap s) :=
  decidable_of_iff (s ≠ [] ∧ IsBlankRun s) ⟨fun h => ⟨h.1, h.2⟩, fun h => ⟨h.ne_nil, h.spaces⟩⟩

/-- A character of a multiplicity. -/
def isMultiplicityChar (c : Char) : Bool :=
  isWordChar c || c == '*' || c == '.'

/-- What may stand between the quotes of a multiplicity. -/
structure IsMultiplicity (s : List Char) : Prop where
  ne_nil : s ≠ []
  chars : ∀ c ∈ s, isMultiplicityChar c = true

instance (s : List Char) : Decidable (IsMultiplicity s) :=
  decidable_of_iff (s ≠ [] ∧ ∀ c ∈ s, isMultiplicityChar c = true)
    ⟨fun h => ⟨h.1, h.2⟩, fun h => ⟨h.ne_nil, h.chars⟩⟩

/-- Dashes, at least one. -/
structure IsDashes (s : List Char) : Prop where
  ne_nil : s ≠ []
  chars : ∀ c ∈ s, (c == '-') = true

instance (s : List Char) : Decidable (IsDashes s) :=
  decidable_of_iff (s ≠ [] ∧ ∀ c ∈ s, (c == '-') = true)
    ⟨fun h => ⟨h.1, h.2⟩, fun h => ⟨h.ne_nil, h.chars⟩⟩

/-- The operator of a composition: dashes between a diamond and perhaps an arrow head. -/
inductive IsCompositionOperator : List Char → Prop where
  | left {mark : Char} {dashes : List Char} {head : Option Char} (hmark : mark = '*' ∨ mark = 'o')
      (hdashes : IsDashes dashes) (hhead : ∀ c ∈ head, c = '>') :
      IsCompositionOperator (mark :: (dashes ++ head.toList))
  | right {head : Option Char} {dashes : List Char} {mark : Char} (hhead : ∀ c ∈ head, c = '<')
      (hdashes : IsDashes dashes) (hmark : mark = '*' ∨ mark = 'o') :
      IsCompositionOperator (head.toList ++ (dashes ++ [mark]))

/-- The parts of a relation line in their order. -/
structure RelationText where
  indent : List Char
  left : List Char
  leftGap : List Char
  /-- The multiplicity in front of the operator and the spaces behind its quotes. -/
  leftMultiplicity : Option (List Char × List Char)
  operator : List Char
  /-- The spaces in front of the quotes and the multiplicity behind the operator. -/
  rightMultiplicity : Option (List Char × List Char)
  rightGap : List Char
  right : List Char
  /-- The spaces on both sides of the colon, and the label. -/
  label : Option (List Char × List Char × List Char)
  trailing : List Char

namespace RelationText

/-- A multiplicity in front of the operator. -/
def leftQuote : Option (List Char × List Char) → List Char
  | none => []
  | some (text, gap) => '"' :: (text ++ '"' :: gap)

/-- A multiplicity behind the operator. -/
def rightQuote : Option (List Char × List Char) → List Char
  | none => []
  | some (gap, text) => gap ++ '"' :: (text ++ ['"'])

/-- A label with its colon. -/
def labelPart : Option (List Char × List Char × List Char) → List Char
  | none => []
  | some (before, behind, text) => before ++ ':' :: (behind ++ text)

/-- What stands behind the right word. -/
def afterRight (x : RelationText) : List Char :=
  labelPart x.label ++ x.trailing

/-- What stands behind the operator. -/
def afterOperator (x : RelationText) : List Char :=
  rightQuote x.rightMultiplicity ++ (x.rightGap ++ (x.right ++ x.afterRight))

/-- What stands behind the left word and its gap. -/
def afterLeft (x : RelationText) : List Char :=
  leftQuote x.leftMultiplicity ++ (x.operator ++ x.afterOperator)

/-- The line that the parts make up. -/
def text (x : RelationText) : List Char :=
  x.indent ++ (x.left ++ (x.leftGap ++ x.afterLeft))

/-- The relation that the parts describe; `separator` says under which name an operator is kept. -/
def relation (separator : List Char → String) (x : RelationText) : Relation where
  left := String.ofList x.left
  leftMultiplicity := x.leftMultiplicity.map fun m => String.ofList m.1
  separator := separator x.operator
  rightMultiplicity := x.rightMultiplicity.map fun m => String.ofList m.2
  right := String.ofList x.right
  label := x.label.map fun l => String.ofList l.2.2

/-- The parts of a line with operators of a kind. -/
structure Spells (IsOperator : List Char → Prop) (x : RelationText) (line : List Char) : Prop where
  text : x.text = line
  indent : IsBlankRun x.indent
  left : IsWord x.left
  leftGap : IsGap x.leftGap
  leftMultiplicity : ∀ m ∈ x.leftMultiplicity, IsMultiplicity m.1 ∧ IsGap m.2
  operator : IsOperator x.operator
  rightMultiplicity : ∀ m ∈ x.rightMultiplicity, IsGap m.1 ∧ IsMultiplicity m.2
  rightGap : IsGap x.rightGap
  right : IsWord x.right
  label : ∀ l ∈ x.label, IsBlankRun l.1 ∧ IsBlankRun l.2.1 ∧ l.2.2 ≠ [] ∧ IsLabel l.2.2
  trailing : IsBlankRun x.trailing

end RelationText

/-- An operator parser that reads the operators of a kind, where a space follows them, and keeps
them under a name. -/
structure ReadsOperators (operator : LineParser String) (IsOperator : List Char → Prop)
    (separator : List Char → String) : Prop where
  read : ∀ {w r}, IsOperator w → ¬Stops isSpace r → operator (w ++ r) = some (separator w, r)
  found : ∀ {s r o}, operator s = some (o, r) → ∃ w, IsOperator w ∧ s = w ++ r ∧ o = separator w
  starts : ∀ {w r}, IsOperator w → Stops isSpace (w ++ r) ∧ Stops (· == '"') (w ++ r)

/-! ### Where the parts stop -/

theorem IsGap.not_stops {s : List Char} (h : IsGap s) (r : List Char) :
    ¬Stops isSpace (s ++ r) := by
  obtain ⟨c, t, rfl⟩ := List.exists_cons_of_ne_nil h.ne_nil
  intro hstop
  rw [List.cons_append, stops_cons, h.spaces c (by simp)] at hstop
  cases hstop

/-- A gap ends the part in front of it. -/
theorem IsGap.stops {s : List Char} (h : IsGap s) {p : Char → Bool}
    (hp : ∀ c, isSpace c = true → p c = false) (r : List Char) : Stops p (s ++ r) := by
  obtain ⟨c, t, rfl⟩ := List.exists_cons_of_ne_nil h.ne_nil
  exact stops_cons.mpr (hp c (h.spaces c (by simp)))

theorem isWordChar_of_isSpace {c : Char} (h : isSpace c = true) : isWordChar c = false := by
  cases hword : isWordChar c with
  | false => rfl
  | true =>
      rw [isSpace_of_isWordChar hword] at h
      cases h

/-- A label ends with a word character, so spaces behind it are not part of it. -/
theorem trimSpaces_append {l s : List Char} (hne : l ≠ []) (hl : IsLabel l) (hs : IsBlankRun s) :
    trimSpaces (l ++ s) = l := by
  obtain ⟨c, t, rfl⟩ := List.exists_cons_of_ne_nil hne
  have hstart : Stops isSpace (c :: t ++ s) :=
    stops_cons.mpr (isSpace_of_isWordChar (hl.head c rfl))
  have hend : Stops isSpace (c :: t).reverse := by
    intro d hd
    rw [List.head?_reverse] at hd
    exact isSpace_of_isWordChar (hl.last d hd)
  have hback : ∀ d ∈ s.reverse, isSpace d = true := fun d hd => hs d (List.mem_reverse.mp hd)
  rw [trimSpaces, dropWhile_of_stops hstart, List.reverse_append,
    dropWhile_append_of_stops hback hend, List.reverse_reverse]

/-- What is left in front of the spaces at the end of a text without spaces in front. -/
theorem exists_trimSpaces {s : List Char} (h : Stops isSpace s) :
    ∃ t, IsBlankRun t ∧ s = trimSpaces s ++ t := by
  refine ⟨(s.reverse.takeWhile isSpace).reverse, ?_, ?_⟩
  · intro c hc
    exact of_mem_takeWhile (List.mem_reverse.mp hc)
  · rw [trimSpaces, dropWhile_of_stops h, ← List.reverse_append, run_append, List.reverse_reverse]

namespace RelationText

variable {IsOperator : List Char → Prop} {operator : LineParser String}
  {separator : List Char → String} {x : RelationText} {line : List Char}

/-- Behind the right word there is nothing that a word goes on with. -/
theorem Spells.stops_afterRight (h : x.Spells IsOperator line) : Stops isWordChar x.afterRight := by
  have hspaces : ∀ {s t : List Char}, IsBlankRun s → Stops isWordChar t →
      Stops isWordChar (s ++ t) := by
    intro s t hs ht
    cases s with
    | nil => exact ht
    | cons c r => exact stops_cons.mpr (isWordChar_of_isSpace (hs c (by simp)))
  rw [afterRight]
  cases hl : x.label with
  | none =>
      have := hspaces h.trailing (stops_nil isWordChar)
      simpa [labelPart] using this
  | some l =>
      obtain ⟨hbefore, -, -, -⟩ := h.label l hl
      rw [labelPart, List.append_assoc]
      exact hspaces hbefore (stops_cons.mpr rfl)

theorem Spells.not_stops_afterOperator (h : x.Spells IsOperator line) :
    ¬Stops isSpace x.afterOperator := by
  rw [afterOperator]
  cases hm : x.rightMultiplicity with
  | none => exact h.rightGap.not_stops _
  | some m =>
      rw [rightQuote, List.append_assoc]
      exact (h.rightMultiplicity m hm).1.not_stops _

theorem Spells.stops_afterLeft (hoperator : ReadsOperators operator IsOperator separator)
    (h : x.Spells IsOperator line) : Stops isSpace x.afterLeft := by
  rw [afterLeft]
  cases hm : x.leftMultiplicity with
  | none => exact (hoperator.starts h.operator).1
  | some m => exact stops_cons.mpr rfl

end RelationText

/-! ### A text is read -/

theorem quotedMultiplicity_append {m r : List Char} (hm : IsMultiplicity m) :
    quotedMultiplicity ('"' :: (m ++ '"' :: r)) = some (String.ofList m, r) := by
  have hrun : run1 (fun c => isWordChar c || c == '*' || c == '.') (m ++ '"' :: r) =
      some (m, '"' :: r) := run1_append hm.ne_nil hm.chars (stops_cons.mpr rfl)
  rw [quotedMultiplicity, bind_of_some (char_cons _ _), bind_of_some hrun,
    bind_of_some (char_cons _ _)]
  rfl

namespace RelationText

variable {IsOperator : List Char → Prop} {operator : LineParser String}
  {separator : List Char → String} {x : RelationText} {line : List Char}

theorem Spells.read_leftMultiplicity (hoperator : ReadsOperators operator IsOperator separator)
    (h : x.Spells IsOperator line) :
    LineParser.optional (do
      let m ← quotedMultiplicity
      spaces1
      return m) x.afterLeft =
      some (x.leftMultiplicity.map fun m => String.ofList m.1, x.operator ++ x.afterOperator) := by
  obtain ⟨hspace, hquote⟩ := hoperator.starts (r := x.afterOperator) h.operator
  rw [afterLeft]
  cases hm : x.leftMultiplicity with
  | none => exact optional_eq_none (bind_of_none (quotedMultiplicity_eq_none hquote) _)
  | some m =>
      obtain ⟨htext, hgap⟩ := h.leftMultiplicity m hm
      refine optional_eq_some ?_
      have hquoted : quotedMultiplicity (leftQuote (some m) ++ (x.operator ++ x.afterOperator)) =
          some (String.ofList m.1, m.2 ++ (x.operator ++ x.afterOperator)) := by
        have hread := quotedMultiplicity_append (r := m.2 ++ (x.operator ++ x.afterOperator)) htext
        simpa [leftQuote] using hread
      rw [bind_of_some hquoted, bind_of_some (spaces1_append hgap.ne_nil hgap.spaces hspace)]
      rfl

/-- The multiplicity behind the operator leaves the gap in front of the right word. -/
theorem Spells.read_rightMultiplicity (h : x.Spells IsOperator line) : ∃ t,
    LineParser.optional (do
      spaces1
      quotedMultiplicity) x.afterOperator =
        some (x.rightMultiplicity.map fun m => String.ofList m.2, t) ∧
      spaces1 t = some ((), x.right ++ x.afterRight) := by
  have hstop : Stops isSpace (x.right ++ x.afterRight) :=
    h.right.stops (fun _ => isSpace_of_isWordChar) _
  have hgap := spaces1_append h.rightGap.ne_nil h.rightGap.spaces hstop
  rw [afterOperator]
  cases hm : x.rightMultiplicity with
  | none =>
      refine ⟨_, optional_eq_none ?_, hgap⟩
      have hquote : Stops (· == '"') (x.right ++ x.afterRight) :=
        h.right.stops (fun _ hc => beq_false_of_isWordChar hc (by decide)) _
      show (spaces1 >>= fun _ => quotedMultiplicity) (x.rightGap ++ (x.right ++ x.afterRight)) = none
      rw [bind_of_some hgap, quotedMultiplicity_eq_none hquote]
  | some m =>
      obtain ⟨hfirst, htext⟩ := h.rightMultiplicity m hm
      refine ⟨x.rightGap ++ (x.right ++ x.afterRight), optional_eq_some ?_, hgap⟩
      have hquoted := quotedMultiplicity_append (r := x.rightGap ++ (x.right ++ x.afterRight)) htext
      have hspaces := spaces1_append (r := '"' :: (m.2 ++ '"' :: (x.rightGap ++ (x.right ++
        x.afterRight)))) hfirst.ne_nil hfirst.spaces (stops_cons.mpr rfl)
      have hline : rightQuote (some m) ++ (x.rightGap ++ (x.right ++ x.afterRight)) =
          m.1 ++ '"' :: (m.2 ++ '"' :: (x.rightGap ++ (x.right ++ x.afterRight))) := by
        simp [rightQuote]
      rw [hline, bind_of_some hspaces, hquoted]

/-- The label takes the spaces behind it as well. -/
theorem Spells.read_label (h : x.Spells IsOperator line) : ∃ t, IsBlankRun t ∧
    LineParser.optional LineParser.label x.afterRight =
      some (x.label.map fun l => String.ofList l.2.2, t) := by
  rw [afterRight]
  cases hl : x.label with
  | none =>
      refine ⟨x.trailing, h.trailing, optional_eq_none (bind_of_none (colon_eq_none ?_) _)⟩
      have hnil : x.trailing.dropWhile isSpace = [] := by
        rw [← List.append_nil x.trailing, List.dropWhile_append_of_pos h.trailing, List.dropWhile_nil]
      rw [labelPart, List.nil_append, hnil]
      exact stops_nil _
  | some l =>
      obtain ⟨hbefore, hbehind, hne, hlabel⟩ := h.label l hl
      refine ⟨[], fun c hc => absurd hc List.not_mem_nil, optional_eq_some ?_⟩
      obtain ⟨c, t, hct⟩ := List.exists_cons_of_ne_nil hne
      have hstart : Stops isSpace (l.2.2 ++ x.trailing) := by
        rw [hct]
        exact stops_cons.mpr (isSpace_of_isWordChar (hlabel.head c (by rw [hct]; rfl)))
      have hcolon : colon (labelPart (some l) ++ x.trailing) = some ((), l.2.2 ++ x.trailing) := by
        have hread := colon_of_spaces hbefore hbehind hstart
        simpa [labelPart] using hread
      have hall : ∀ d ∈ l.2.2 ++ x.trailing, isLabelChar d = true := by
        intro d hd
        rcases List.mem_append.mp hd with hd | hd
        · exact hlabel.chars d hd
        · simp [isLabelChar, h.trailing d hd]
      have hrun : run1 (fun c => isWordChar c || isSpace c) (l.2.2 ++ x.trailing) =
          some (l.2.2 ++ x.trailing, []) := by
        have hread := run1_append (List.append_ne_nil_of_left_ne_nil hne x.trailing) hall
          (stops_nil isLabelChar)
        rwa [List.append_nil] at hread
      rw [LineParser.label, bind_of_some hcolon, bind_of_some hrun,
        trimSpaces_append hne hlabel h.trailing]
      rfl

/-- **A line that can be taken apart is read, and what is read are its parts.** -/
theorem Spells.accept (hoperator : ReadsOperators operator IsOperator separator)
    (h : x.Spells IsOperator line) :
    LineParser.accept (LineParser.relation operator) line = some (x.relation separator) := by
  have hleft : IsWord (String.ofList x.left).toList := by
    rw [String.toList_ofList]
    exact h.left
  have hright : IsWord (String.ofList x.right).toList := by
    rw [String.toList_ofList]
    exact h.right
  have hname : ∀ {w r : List Char}, IsWord w → Stops isWordChar r →
      name (w ++ r) = some (String.ofList w, r) := by
    intro w r hw hr
    rw [name_apply, word_append hw hr]
    rfl
  have hstart : line.dropWhile isSpace = x.left ++ (x.leftGap ++ x.afterLeft) := by
    rw [← h.text, RelationText.text]
    exact dropWhile_append_of_stops h.indent (h.left.stops (fun _ => isSpace_of_isWordChar) _)
  have hgap := spaces1_append h.leftGap.ne_nil h.leftGap.spaces (h.stops_afterLeft hoperator)
  obtain ⟨t, hmultiplicity, hspaces⟩ := h.read_rightMultiplicity
  obtain ⟨u, hu, hlabel⟩ := h.read_label
  rw [LineParser.relation, accept_fullLine_eq_some_iff, hstart]
  refine ⟨u, ?_, hu⟩
  rw [bind_of_some (hname h.left (h.leftGap.stops (fun _ => isWordChar_of_isSpace) _)),
    bind_of_some hgap, bind_of_some (h.read_leftMultiplicity hoperator),
    bind_of_some (hoperator.read h.operator h.not_stops_afterOperator), bind_of_some hmultiplicity,
    bind_of_some hspaces, bind_of_some (hname h.right h.stops_afterRight), bind_of_some hlabel]
  rfl

end RelationText

/-! ### What is read is a text -/

theorem quotedMultiplicity_eq_some {s r : List Char} {m : String}
    (h : quotedMultiplicity s = some (m, r)) :
    s = '"' :: (m.toList ++ '"' :: r) ∧ IsMultiplicity m.toList := by
  simp only [quotedMultiplicity, bind_apply, Option.bind_eq_some_iff, pure_apply,
    Option.some.injEq, Prod.mk.injEq] at h
  obtain ⟨⟨a, s₁⟩, ha, ⟨text, s₂⟩, htext, ⟨b, s₃⟩, hb, rfl, rfl⟩ := h
  obtain ⟨-, rfl⟩ := char_eq_some_iff.mp ha
  obtain ⟨rfl, hne, hall, -⟩ := run1_eq_some htext
  obtain ⟨-, rfl⟩ := char_eq_some_iff.mp hb
  rw [String.toList_ofList]
  exact ⟨rfl, hne, hall⟩

theorem spaces1_eq_some_gap {s r : List Char} {u : Unit} (h : spaces1 s = some (u, r)) :
    ∃ w, IsGap w ∧ s = w ++ r := by
  obtain ⟨⟨w, hne, hw, hs⟩, -⟩ := spaces1_eq_some h
  exact ⟨w, ⟨hne, hw⟩, hs⟩

/-- The multiplicity in front of an operator, as it was read. -/
theorem leftMultiplicity_eq_some {s r : List Char} {o : Option String}
    (h : LineParser.optional (do
      let m ← quotedMultiplicity
      spaces1
      return m) s = some (o, r)) :
    ∃ m : Option (List Char × List Char), (∀ x ∈ m, IsMultiplicity x.1 ∧ IsGap x.2) ∧
      s = RelationText.leftQuote m ++ r ∧ o = m.map fun x => String.ofList x.1 := by
  rcases optional_eq_some_iff.mp h with ⟨m, rfl, hm⟩ | ⟨rfl, -, rfl⟩
  · simp only [bind_apply, Option.bind_eq_some_iff, pure_apply, Option.some.injEq,
      Prod.mk.injEq] at hm
    obtain ⟨⟨m', t⟩, hquoted, ⟨_, t'⟩, hspaces, rfl, rfl⟩ := hm
    obtain ⟨rfl, htext⟩ := quotedMultiplicity_eq_some hquoted
    obtain ⟨gap, hgap, rfl⟩ := spaces1_eq_some_gap hspaces
    refine ⟨some (m'.toList, gap), ?_, by simp [RelationText.leftQuote], by simp⟩
    rintro x ⟨⟩
    exact ⟨htext, hgap⟩
  · exact ⟨none, by simp, rfl, rfl⟩

/-- The multiplicity behind an operator, as it was read. -/
theorem rightMultiplicity_eq_some {s r : List Char} {o : Option String}
    (h : LineParser.optional (do
      spaces1
      quotedMultiplicity) s = some (o, r)) :
    ∃ m : Option (List Char × List Char), (∀ x ∈ m, IsGap x.1 ∧ IsMultiplicity x.2) ∧
      s = RelationText.rightQuote m ++ r ∧ o = m.map fun x => String.ofList x.2 := by
  rcases optional_eq_some_iff.mp h with ⟨m, rfl, hm⟩ | ⟨rfl, -, rfl⟩
  · simp only [bind_apply, Option.bind_eq_some_iff] at hm
    obtain ⟨⟨_, t⟩, hspaces, hquoted⟩ := hm
    obtain ⟨rfl, htext⟩ := quotedMultiplicity_eq_some hquoted
    obtain ⟨gap, hgap, rfl⟩ := spaces1_eq_some_gap hspaces
    refine ⟨some (gap, m.toList), ?_, by simp [RelationText.rightQuote], by simp⟩
    rintro x ⟨⟩
    exact ⟨hgap, htext⟩
  · exact ⟨none, by simp, rfl, rfl⟩

/-- The label, as it was read, and the spaces that were read with it. -/
theorem label_eq_some {s r : List Char} {o : Option String}
    (h : LineParser.optional LineParser.label s = some (o, r)) :
    ∃ l : Option (List Char × List Char × List Char), ∃ t, IsBlankRun t ∧
      (∀ x ∈ l, IsBlankRun x.1 ∧ IsBlankRun x.2.1 ∧ x.2.2 ≠ [] ∧ IsLabel x.2.2) ∧
      s = RelationText.labelPart l ++ (t ++ r) ∧ o = l.map fun x => String.ofList x.2.2 := by
  have hnone : IsBlankRun [] := fun c hc => absurd hc List.not_mem_nil
  rcases optional_eq_some_iff.mp h with ⟨l, rfl, hl⟩ | ⟨rfl, -, rfl⟩
  · simp only [LineParser.label, bind_apply, Option.bind_eq_some_iff, pure_apply,
      Option.some.injEq, Prod.mk.injEq] at hl
    obtain ⟨⟨_, s₁⟩, hcolon, ⟨text, s₂⟩, hrun, rfl, rfl⟩ := hl
    obtain ⟨before, behind, hbefore, hbehind, rfl, hstart⟩ := colon_eq_some hcolon
    obtain ⟨rfl, hne, hall, -⟩ := run1_eq_some hrun
    have hstart' : Stops isSpace text := by
      obtain ⟨c, t, rfl⟩ := List.exists_cons_of_ne_nil hne
      exact stops_cons.mpr (stops_cons.mp hstart)
    obtain ⟨t, ht, hcut⟩ := exists_trimSpaces hstart'
    have hlabel := isLabel_trimSpaces hall
    refine ⟨some (before, behind, trimSpaces text), t, ht, ?_, ?_, rfl⟩
    · rintro x ⟨⟩
      refine ⟨hbefore, hbehind, fun hnil => hne ?_, hlabel⟩
      -- A text that begins with a word is not blank, so something is left of it.
      rw [show trimSpaces text = [] from hnil, List.nil_append] at hcut
      rw [hcut] at hstart'
      cases t with
      | nil => exact hcut
      | cons c r =>
          have hc := stops_cons.mp hstart'
          rw [ht c (by simp)] at hc
          cases hc
    · rw [RelationText.labelPart]
      have hjoin : text ++ s₂ = trimSpaces text ++ (t ++ s₂) := by
        rw [← List.append_assoc, ← hcut]
      rw [hjoin]
      simp
  · exact ⟨none, [], hnone, by simp, rfl, rfl⟩

/-- **A line that is read can be taken apart into what was read.** -/
theorem exists_spells_of_accept {IsOperator : List Char → Prop} {operator : LineParser String}
    {separator : List Char → String} (hoperator : ReadsOperators operator IsOperator separator)
    {line : List Char} {r : Relation} (h : accept (LineParser.relation operator) line = some r) :
    ∃ x : RelationText, x.Spells IsOperator line ∧ r = x.relation separator := by
  obtain ⟨rest, hread, hrest⟩ := accept_fullLine_eq_some_iff.mp h
  simp only [bind_apply, Option.bind_eq_some_iff, pure_apply, Option.some.injEq,
    Prod.mk.injEq] at hread
  obtain ⟨⟨left, s₁⟩, hleft, ⟨_, s₂⟩, hgap, ⟨lm, s₃⟩, hlm, ⟨sep, s₄⟩, hsep, ⟨rm, s₅⟩, hrm,
    ⟨_, s₆⟩, hgap', ⟨right, s₇⟩, hright, ⟨l, s₈⟩, hl, rfl, rfl⟩ := hread
  obtain ⟨hline, hword, -⟩ := name_eq_some_iff.mp hleft
  obtain ⟨gap, hisgap, rfl⟩ := spaces1_eq_some_gap hgap
  obtain ⟨m, hm, rfl, rfl⟩ := leftMultiplicity_eq_some hlm
  obtain ⟨n, hn, rfl, rfl⟩ := rightMultiplicity_eq_some hrm
  obtain ⟨gap', hisgap', rfl⟩ := spaces1_eq_some_gap hgap'
  obtain ⟨rfl, hword', -⟩ := name_eq_some_iff.mp hright
  obtain ⟨label, t, ht, hlabel, rfl, rfl⟩ := label_eq_some hl
  obtain ⟨op, hop, rfl, rfl⟩ := hoperator.found hsep
  let x : RelationText :=
    { indent := line.takeWhile isSpace, left := left.toList, leftGap := gap, leftMultiplicity := m,
      operator := op, rightMultiplicity := n, rightGap := gap', right := right.toList,
      label := label, trailing := t ++ s₈ }
  refine ⟨x, ⟨?_, fun _ => of_mem_takeWhile, hword, hisgap, hm, hop, hn, hisgap', hword', hlabel,
    ?_⟩, ?_⟩
  · have hcut := run_append isSpace line
    rw [hline] at hcut
    exact hcut
  · intro c hc
    rcases List.mem_append.mp hc with hc | hc
    · exact ht c hc
    · exact hrest c hc
  · simp [RelationText.relation, x]

/-! ### A line is taken apart in one way -/

namespace RelationText

/-- In front of an operator a multiplicity is told by its quote. -/
theorem leftQuote_inj {m n : Option (List Char × List Char)} {r t : List Char}
    (hm : ∀ x ∈ m, IsMultiplicity x.1 ∧ IsGap x.2) (hn : ∀ x ∈ n, IsMultiplicity x.1 ∧ IsGap x.2)
    (hr : Stops isSpace r ∧ Stops (· == '"') r) (ht : Stops isSpace t ∧ Stops (· == '"') t)
    (h : leftQuote m ++ r = leftQuote n ++ t) : m = n ∧ r = t := by
  cases m with
  | none =>
      cases n with
      | none => exact ⟨rfl, h⟩
      | some n =>
          rw [show r = leftQuote (some n) ++ t from h] at hr
          exact absurd hr.2 (by simp [leftQuote])
  | some m =>
      cases n with
      | none =>
          rw [show t = leftQuote (some m) ++ r from h.symm] at ht
          exact absurd ht.2 (by simp [leftQuote])
      | some n =>
          obtain ⟨hm, hmgap⟩ := hm m rfl
          obtain ⟨hn, hngap⟩ := hn n rfl
          simp only [leftQuote, List.cons_append, List.append_assoc, List.cons.injEq,
            true_and] at h
          obtain ⟨htext, h⟩ := append_inj_of_stops hm.chars (stops_cons.mpr rfl) hn.chars
            (stops_cons.mpr rfl) h
          obtain ⟨hgap, hrest⟩ := append_inj_of_stops hmgap.spaces hr.1 hngap.spaces ht.1
            (List.cons.inj h).2
          exact ⟨congrArg some (Prod.ext htext hgap), hrest⟩

/-- Behind an operator the spaces come first, and a multiplicity is told by the quote behind
them. -/
theorem rightQuote_inj {m n : Option (List Char × List Char)} {g k r t : List Char}
    (hm : ∀ x ∈ m, IsGap x.1 ∧ IsMultiplicity x.2) (hn : ∀ x ∈ n, IsGap x.1 ∧ IsMultiplicity x.2)
    (hg : IsGap g) (hk : IsGap k)
    (hr : Stops isSpace r ∧ Stops (· == '"') r) (ht : Stops isSpace t ∧ Stops (· == '"') t)
    (h : rightQuote m ++ (g ++ r) = rightQuote n ++ (k ++ t)) : m = n ∧ g = k ∧ r = t := by
  have hquote : ∀ {s : List Char}, Stops isSpace ('"' :: s) := stops_cons.mpr rfl
  cases m with
  | none =>
      cases n with
      | none =>
          obtain ⟨hgap, hrest⟩ := append_inj_of_stops hg.spaces hr.1 hk.spaces ht.1 h
          exact ⟨rfl, hgap, hrest⟩
      | some n =>
          obtain ⟨hngap, -⟩ := hn n rfl
          simp only [rightQuote, List.nil_append, List.append_assoc, List.cons_append] at h
          obtain ⟨-, rfl⟩ := append_inj_of_stops hg.spaces hr.1 hngap.spaces hquote h
          exact absurd hr.2 (by simp)
  | some m =>
      obtain ⟨hmgap, hm⟩ := hm m rfl
      cases n with
      | none =>
          simp only [rightQuote, List.nil_append, List.append_assoc, List.cons_append] at h
          obtain ⟨-, rfl⟩ := append_inj_of_stops hmgap.spaces hquote hk.spaces ht.1 h
          exact absurd ht.2 (by simp)
      | some n =>
          obtain ⟨hngap, hn⟩ := hn n rfl
          simp only [rightQuote, List.append_assoc, List.cons_append, List.nil_append] at h
          obtain ⟨hfirst, h⟩ := append_inj_of_stops hmgap.spaces hquote hngap.spaces hquote h
          obtain ⟨htext, h⟩ := append_inj_of_stops hm.chars (stops_cons.mpr rfl) hn.chars
            (stops_cons.mpr rfl) (List.cons.inj h).2
          obtain ⟨hgap, hrest⟩ := append_inj_of_stops hg.spaces hr.1 hk.spaces ht.1
            (List.cons.inj h).2
          exact ⟨congrArg some (Prod.ext hfirst htext), hgap, hrest⟩

/-- A label is told by its colon, and it ends with its last word. -/
theorem labelPart_inj {l k : Option (List Char × List Char × List Char)} {s t : List Char}
    (hl : ∀ x ∈ l, IsBlankRun x.1 ∧ IsBlankRun x.2.1 ∧ x.2.2 ≠ [] ∧ IsLabel x.2.2)
    (hk : ∀ x ∈ k, IsBlankRun x.1 ∧ IsBlankRun x.2.1 ∧ x.2.2 ≠ [] ∧ IsLabel x.2.2)
    (hs : IsBlankRun s) (ht : IsBlankRun t) (h : labelPart l ++ s = labelPart k ++ t) :
    l = k ∧ s = t := by
  have hblank : ∀ {x : List Char × List Char × List Char} {s t : List Char}, IsBlankRun s →
      s ≠ labelPart (some x) ++ t := by
    intro x s t hs hcut
    have hcolon := hs ':' (by rw [hcut]; simp [labelPart])
    exact absurd hcolon (by decide)
  cases l with
  | none =>
      cases k with
      | none => exact ⟨rfl, h⟩
      | some x => exact absurd h (hblank hs)
  | some x =>
      cases k with
      | none => exact absurd h.symm (hblank ht)
      | some y =>
          obtain ⟨hbefore, hbehind, hne, hlabel⟩ := hl x rfl
          obtain ⟨hbefore', hbehind', hne', hlabel'⟩ := hk y rfl
          have hstart : ∀ {w u : List Char}, w ≠ [] → IsLabel w → Stops isSpace (w ++ u) := by
            intro w u hw hlabel
            obtain ⟨c, t, rfl⟩ := List.exists_cons_of_ne_nil hw
            exact stops_cons.mpr (hlabel.stops c rfl)
          simp only [labelPart, List.append_assoc, List.cons_append] at h
          obtain ⟨hfirst, h⟩ := append_inj_of_stops hbefore (stops_cons.mpr rfl) hbefore'
            (stops_cons.mpr rfl) h
          obtain ⟨hsecond, h⟩ := append_inj_of_stops hbehind (hstart hne hlabel) hbehind'
            (hstart hne' hlabel') (List.cons.inj h).2
          have htext := congrArg trimSpaces h
          rw [trimSpaces_append hne hlabel hs, trimSpaces_append hne' hlabel' ht] at htext
          rw [htext] at h
          exact ⟨congrArg some (Prod.ext hfirst (Prod.ext hsecond htext)),
            List.append_cancel_left h⟩

/-- **A line can be taken apart in one way only.** -/
theorem Spells.unique {IsOperator : List Char → Prop} {operator : LineParser String}
    {separator : List Char → String} (hoperator : ReadsOperators operator IsOperator separator)
    {x y : RelationText} {line : List Char} (hx : x.Spells IsOperator line)
    (hy : y.Spells IsOperator line) : x = y := by
  have hword : ∀ {w : List Char}, IsWord w → ∀ r,
      Stops isSpace (w ++ r) ∧ Stops (· == '"') (w ++ r) := fun hw r =>
    ⟨hw.stops (fun _ => isSpace_of_isWordChar) r,
      hw.stops (fun _ hc => beq_false_of_isWordChar hc (by decide)) r⟩
  have hgap : ∀ {s : List Char}, IsGap s → ∀ r, Stops isWordChar (s ++ r) := fun hs r =>
    hs.stops (fun _ => isWordChar_of_isSpace) r
  have h : x.text = y.text := hx.text.trans hy.text.symm
  rw [RelationText.text, RelationText.text] at h
  obtain ⟨hindent, h⟩ := append_inj_of_stops hx.indent (hword hx.left _).1 hy.indent
    (hword hy.left _).1 h
  obtain ⟨hleft, h⟩ := append_inj_of_stops hx.left.chars (hgap hx.leftGap _) hy.left.chars
    (hgap hy.leftGap _) h
  obtain ⟨hleftGap, h⟩ := append_inj_of_stops hx.leftGap.spaces (hx.stops_afterLeft hoperator)
    hy.leftGap.spaces (hy.stops_afterLeft hoperator) h
  rw [afterLeft, afterLeft] at h
  obtain ⟨hleftMultiplicity, h⟩ := leftQuote_inj hx.leftMultiplicity hy.leftMultiplicity
    (hoperator.starts hx.operator) (hoperator.starts hy.operator) h
  -- The operators are read off the same text, so what is left behind them is the same.
  have hread := hoperator.read hx.operator hx.not_stops_afterOperator
  rw [h, hoperator.read hy.operator hy.not_stops_afterOperator] at hread
  have hrest : y.afterOperator = x.afterOperator := (Prod.mk.inj (Option.some.inj hread)).2
  rw [hrest] at h
  have hop : x.operator = y.operator := List.append_cancel_right h
  rw [afterOperator, afterOperator] at hrest
  obtain ⟨hrightMultiplicity, hrightGap, h⟩ := rightQuote_inj hx.rightMultiplicity
    hy.rightMultiplicity hx.rightGap hy.rightGap (hword hx.right _) (hword hy.right _) hrest.symm
  obtain ⟨hright, h⟩ := append_inj_of_stops hx.right.chars hx.stops_afterRight hy.right.chars
    hy.stops_afterRight h
  rw [afterRight, afterRight] at h
  obtain ⟨hlabel, htrailing⟩ := labelPart_inj hx.label hy.label hx.trailing hy.trailing h
  cases x
  cases y
  simp only at *
  subst hindent hleft hleftGap hleftMultiplicity hop hrightMultiplicity hrightGap hright hlabel
    htrailing
  rfl

end RelationText

/-! ### The two kinds of operators -/

/-- The ends of an operator that are no dashes. -/
theorem stops_dash_of_mem {o : Option Char} {d : Char} (ho : ∀ c ∈ o, c = d)
    (hd : (d == '-') = false) {r : List Char} (hr : Stops (· == '-') r) :
    Stops (· == '-') (o.toList ++ r) := by
  cases o with
  | none => exact hr
  | some c => exact stops_cons.mpr (by rw [ho c rfl]; exact hd)

/-- A space ends the dashes in front of it. -/
theorem stops_of_not_stops_isSpace {r : List Char} (h : ¬Stops isSpace r) {p : Char → Bool}
    (hp : ∀ c, isSpace c = true → p c = false) : Stops p r := by
  cases r with
  | nil => exact stops_nil p
  | cons c t =>
      refine stops_cons.mpr (hp c ?_)
      rw [stops_cons] at h
      simpa using h

theorem optional_char_append {d : Char} {o : Option Char} (ho : ∀ c ∈ o, c = d) {r : List Char}
    (hr : Stops (· == d) r) : LineParser.optional (char d) (o.toList ++ r) = some (o, r) := by
  cases o with
  | none => exact optional_eq_none (char_eq_none hr)
  | some c =>
      obtain rfl := ho c rfl
      exact optional_eq_some (char_cons c r)

theorem optional_char_eq_some {d : Char} {s r : List Char} {o : Option Char}
    (h : LineParser.optional (char d) s = some (o, r)) :
    (∀ c ∈ o, c = d) ∧ s = o.toList ++ r := by
  rcases optional_eq_some_iff.mp h with ⟨c, rfl, hc⟩ | ⟨rfl, -, rfl⟩
  · obtain ⟨rfl, rfl⟩ := char_eq_some_iff.mp hc
    exact ⟨by simp, rfl⟩
  · exact ⟨by simp, rfl⟩

theorem diamond_cons {c : Char} (h : c = '*' ∨ c = 'o') (r : List Char) :
    diamond (c :: r) = some (c, r) := by
  rcases h with rfl | rfl <;> rfl

theorem diamond_eq_some {s r : List Char} {c : Char} (h : diamond s = some (c, r)) :
    (c = '*' ∨ c = 'o') ∧ s = c :: r := by
  obtain ⟨rfl, hc⟩ := satisfy_eq_some_iff.mp h
  exact ⟨by simpa using hc, rfl⟩

theorem beq_dash_of_isSpace (c : Char) (h : isSpace c = true) : (c == '-') = false := by
  cases hc : c == '-' with
  | false => rfl
  | true =>
      obtain rfl := eq_of_beq hc
      exact absurd h (by decide)

theorem IsDashes.exists_cons {s : List Char} (h : IsDashes s) : ∃ t, s = '-' :: t := by
  obtain ⟨c, t, rfl⟩ := List.exists_cons_of_ne_nil h.ne_nil
  have hc := h.chars c (by simp)
  exact ⟨t, by rw [eq_of_beq hc]⟩

theorem leftOwned_append {mark : Char} {dashes r : List Char} {head : Option Char}
    (hmark : mark = '*' ∨ mark = 'o') (hdashes : IsDashes dashes) (hhead : ∀ c ∈ head, c = '>')
    (hr : ¬Stops isSpace r) :
    leftOwned (mark :: (dashes ++ head.toList) ++ r) =
      some (mark :: (dashes ++ head.toList), r) := by
  have hdash : Stops (· == '-') r := stops_of_not_stops_isSpace hr beq_dash_of_isSpace
  have hstop : Stops (· == '>') r := by
    refine stops_of_not_stops_isSpace hr fun c hc => beq_eq_false_iff_ne.mpr ?_
    rintro rfl
    exact absurd hc (by decide)
  have hrun := run1_append hdashes.ne_nil hdashes.chars (stops_dash_of_mem hhead rfl hdash)
  rw [List.cons_append, List.append_assoc, leftOwned, bind_of_some (diamond_cons hmark _),
    bind_of_some hrun, bind_of_some (optional_char_append hhead hstop)]
  rfl

theorem rightOwned_append {mark : Char} {dashes r : List Char} {head : Option Char}
    (hhead : ∀ c ∈ head, c = '<') (hdashes : IsDashes dashes) (hmark : mark = '*' ∨ mark = 'o') :
    rightOwned (head.toList ++ (dashes ++ [mark]) ++ r) =
      some (head.toList ++ (dashes ++ [mark]), r) := by
  have hstop : Stops (· == '<') (dashes ++ (mark :: r)) := by
    obtain ⟨t, rfl⟩ := hdashes.exists_cons
    exact stops_cons.mpr rfl
  have hrun : run1 (· == '-') (dashes ++ (mark :: r)) = some (dashes, mark :: r) :=
    run1_append hdashes.ne_nil hdashes.chars
      (stops_cons.mpr (by rcases hmark with rfl | rfl <;> rfl))
  have hline : head.toList ++ (dashes ++ [mark]) ++ r = head.toList ++ (dashes ++ mark :: r) := by
    simp
  rw [hline, rightOwned, bind_of_some (optional_char_append hhead hstop), bind_of_some hrun,
    bind_of_some (diamond_cons hmark _)]
  simp

/-- An operator owned by the right type does not begin with a diamond. -/
theorem leftOwned_rightOwned {mark : Char} {dashes r : List Char} {head : Option Char}
    (hhead : ∀ c ∈ head, c = '<') (hdashes : IsDashes dashes) :
    leftOwned (head.toList ++ (dashes ++ [mark]) ++ r) = none := by
  refine bind_of_none ?_ _
  cases head with
  | none =>
      obtain ⟨t, rfl⟩ := hdashes.exists_cons
      rfl
  | some c =>
      obtain rfl := hhead c rfl
      rfl

theorem readsOperators_composition :
    ReadsOperators compositionOperator IsCompositionOperator String.ofList where
  read := by
    intro w r hw hr
    rw [compositionOperator]
    cases hw with
    | left hmark hdashes hhead =>
        rw [bind_of_some (orElse_of_some (leftOwned_append hmark hdashes hhead hr))]
        rfl
    | right hhead hdashes hmark =>
        have hread := (orElse_of_none (leftOwned_rightOwned hhead hdashes)).trans
          (rightOwned_append (r := r) hhead hdashes hmark)
        rw [bind_of_some hread]
        rfl
  found := by
    intro s r o h
    simp only [compositionOperator, bind_apply, Option.bind_eq_some_iff, pure_apply,
      Option.some.injEq, Prod.mk.injEq] at h
    obtain ⟨⟨w, t⟩, h, rfl, rfl⟩ := h
    refine ⟨w, ?_⟩
    rw [orElse_apply, Option.or_eq_some_iff] at h
    rcases h with h | ⟨-, h⟩
    · simp only [leftOwned, bind_apply, Option.bind_eq_some_iff, pure_apply, Option.some.injEq,
        Prod.mk.injEq] at h
      obtain ⟨⟨mark, s₁⟩, hmark, ⟨dashes, s₂⟩, hrun, ⟨head, s₃⟩, hhead, rfl, rfl⟩ := h
      obtain ⟨hdiamond, rfl⟩ := diamond_eq_some hmark
      obtain ⟨rfl, hne, hall, -⟩ := run1_eq_some hrun
      obtain ⟨harrow, rfl⟩ := optional_char_eq_some hhead
      exact ⟨.left hdiamond ⟨hne, hall⟩ harrow, by simp, rfl⟩
    · simp only [rightOwned, bind_apply, Option.bind_eq_some_iff, pure_apply, Option.some.injEq,
        Prod.mk.injEq] at h
      obtain ⟨⟨head, s₁⟩, hhead, ⟨dashes, s₂⟩, hrun, ⟨mark, s₃⟩, hmark, rfl, rfl⟩ := h
      obtain ⟨harrow, rfl⟩ := optional_char_eq_some hhead
      obtain ⟨rfl, hne, hall, -⟩ := run1_eq_some hrun
      obtain ⟨hdiamond, rfl⟩ := diamond_eq_some hmark
      refine ⟨?_, by simp, rfl⟩
      rw [List.append_assoc]
      exact .right harrow ⟨hne, hall⟩ hdiamond
  starts := by
    intro w r hw
    cases hw with
    | left hmark hdashes hhead =>
        rcases hmark with rfl | rfl <;> exact ⟨stops_cons.mpr rfl, stops_cons.mpr rfl⟩
    | @right head dashes mark hhead hdashes hmark =>
        obtain ⟨t, rfl⟩ := hdashes.exists_cons
        cases head with
        | none => exact ⟨stops_cons.mpr rfl, stops_cons.mpr rfl⟩
        | some c =>
            obtain rfl := hhead c rfl
            exact ⟨stops_cons.mpr rfl, stops_cons.mpr rfl⟩

theorem readsOperators_plain : ReadsOperators plainOperator IsDashes fun _ => "--" where
  read := by
    intro w r hw hr
    have hrun := run1_append hw.ne_nil hw.chars (stops_of_not_stops_isSpace hr beq_dash_of_isSpace)
    rw [plainOperator, bind_of_some hrun]
    rfl
  found := by
    intro s r o h
    simp only [plainOperator, bind_apply, Option.bind_eq_some_iff, pure_apply, Option.some.injEq,
      Prod.mk.injEq] at h
    obtain ⟨⟨w, t⟩, hrun, rfl, rfl⟩ := h
    obtain ⟨rfl, hne, hall, -⟩ := run1_eq_some hrun
    exact ⟨w, ⟨hne, hall⟩, rfl, rfl⟩
  starts := by
    intro w r hw
    obtain ⟨t, rfl⟩ := hw.exists_cons
    exact ⟨stops_cons.mpr rfl, stops_cons.mpr rfl⟩

/-! ### Relation lines -/

/-- **A relation is read off a line exactly if the line is the text of one**, and what is read are
the parts of the text, which are determined by the line.  So it is for compositions, whose
operator is kept as it stands, and for plain associations, whose operator is kept as two dashes. -/
theorem relation_lines_exact (line : List Char) :
    ((∀ r, composition? line = some r ↔ ∃ x : RelationText,
        x.Spells IsCompositionOperator line ∧ r = x.relation String.ofList) ∧
      ∀ x y : RelationText, x.Spells IsCompositionOperator line →
        y.Spells IsCompositionOperator line → x = y) ∧
    (∀ r, plainAssociation? line = some r ↔ ∃ x : RelationText,
        x.Spells IsDashes line ∧ r = x.relation fun _ => "--") ∧
      ∀ x y : RelationText, x.Spells IsDashes line → y.Spells IsDashes line → x = y := by
  refine ⟨⟨fun r => ⟨fun h => ?_, ?_⟩, fun x y hx hy => ?_⟩, fun r => ⟨fun h => ?_, ?_⟩,
    fun x y hx hy => ?_⟩
  · exact exists_spells_of_accept readsOperators_composition h
  · rintro ⟨x, hx, rfl⟩
    exact hx.accept readsOperators_composition
  · exact hx.unique readsOperators_composition hy
  · exact exists_spells_of_accept readsOperators_plain h
  · rintro ⟨x, hx, rfl⟩
    exact hx.accept readsOperators_plain
  · exact hx.unique readsOperators_plain hy

/-- A composition with all its parts, read by taking its line apart. -/
theorem composition?_read_by_parts :
    composition? "class01 \"1\" o-- \"1..*\" class02 : Nom assoc ".toList =
      some { left := "class01", leftMultiplicity := some "1", separator := "o--",
             rightMultiplicity := some "1..*", right := "class02", label := some "Nom assoc" } := by
  let x : RelationText :=
    { indent := [], left := "class01".toList, leftGap := [' '],
      leftMultiplicity := some (['1'], [' ']), operator := "o--".toList,
      rightMultiplicity := some ([' '], "1..*".toList), rightGap := [' '],
      right := "class02".toList, label := some ([' '], [' '], "Nom assoc".toList),
      trailing := [' '] }
  have hx : x.Spells IsCompositionOperator
      "class01 \"1\" o-- \"1..*\" class02 : Nom assoc ".toList :=
    { text := by decide
      indent := by decide
      left := by decide
      leftGap := by decide
      leftMultiplicity := by decide
      operator := @IsCompositionOperator.left 'o' "--".toList none (.inr rfl) (by decide) (by simp)
      rightMultiplicity := by decide
      rightGap := by decide
      right := by decide
      label := by decide
      trailing := by decide }
  rw [((relation_lines_exact _).1.1 _).mpr ⟨x, hx, rfl⟩]
  decide

end ClassModel
