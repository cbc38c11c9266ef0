/-
Reading member lines.

A written member line reads back as the member it was written from.  The four layouts are
tried in order and only one of them may match, so most of the work is to see the others
fail.  They fail early: behind the word that begins a type there is a bracket or a space
and another word, and neither is the colon or the parenthesis that the layouts with the
name in front ask for there.

One line does not read back.  A method that returns a type of the name `abstract` and is not
abstract itself is written with that word in front of its name, where it is taken for the
mark.  `methodLine?_methodText` says what becomes of every method, that one included.

What comes out of any line at all is a word for the name and a type for the type, cut out
of the line.
-/
import ClassModel.Diagram.Member
import ClassModel.Proofs.Diagram.Parameters

namespace ClassModel

namespace LineParser

/-! ### What a parser leaves -/

/-- A parser that leaves an end of what it is given. -/
def Trims {α : Type} (p : LineParser α) : Prop :=
  ∀ ⦃s a r⦄, p s = some (a, r) → r <:+ s

namespace Trims

variable {α β : Type} {p q : LineParser α}

theorem pure (a : α) : Trims (pure a) := by
  intro s b r h
  cases h
  exact List.suffix_rfl

theorem bind {f : α → LineParser β} (hp : Trims p) (hf : ∀ a, Trims (f a)) : Trims (p >>= f) := by
  intro s b r h
  rw [bind_apply, Option.bind_eq_some_iff] at h
  obtain ⟨⟨a, t⟩, ha, hb⟩ := h
  exact (hf a hb).trans (hp ha)

theorem orElse (hp : Trims p) (hq : Trims q) : Trims (p <|> q) := by
  intro s a r h
  rw [orElse_apply, Option.or_eq_some_iff] at h
  rcases h with h | ⟨-, h⟩
  · exact hp h
  · exact hq h

theorem optional (hp : Trims p) : Trims (optional p) := by
  intro s o r h
  rcases optional_eq_some_iff.mp h with ⟨a, -, ha⟩ | ⟨-, -, rfl⟩
  · exact hp ha
  · exact List.suffix_rfl

theorem many (hp : Trims p) : Trims (many p) := by
  intro s as r h
  refine many_induct (motive := fun s _ r => r <:+ s) (fun _ _ => List.suffix_rfl) ?_ h
  intro s a r as t hs ht
  exact ht.trans (hp hs)

theorem satisfy (c : Char → Bool) : Trims (satisfy c) := by
  intro s a r h
  obtain ⟨rfl, -⟩ := satisfy_eq_some_iff.mp h
  exact List.suffix_cons a r

theorem run (c : Char → Bool) : Trims (run c) := by
  intro s a r h
  cases h
  exact List.dropWhile_suffix c

theorem run1 (c : Char → Bool) : Trims (run1 c) := by
  intro s a r h
  rw [(run1_eq_some_iff.mp h).2.2]
  exact List.dropWhile_suffix c

theorem spaces : Trims spaces :=
  bind (run _) fun _ => pure _

theorem spaces1 : Trims spaces1 :=
  bind (run1 _) fun _ => pure _

theorem name : Trims name :=
  bind (run1 _) fun _ => pure _

theorem colon : Trims colon :=
  bind spaces fun _ => bind (satisfy _) fun _ => spaces

theorem typeText : Trims typeText := by
  intro s t r h
  rw [(typeText_eq_some h).1]
  exact List.suffix_append _ _

theorem keyword (w : String) : Trims (keyword w) := by
  intro s u r h
  rw [keyword_eq_some h]
  exact List.suffix_append _ _

theorem visibility : Trims visibility :=
  bind (optional (satisfy _)) fun _ => pure _

theorem abstractMark : Trims abstractMark :=
  bind (optional (bind (keyword _) fun _ => spaces1)) fun _ => pure _

theorem typeBefore : Trims typeBefore :=
  bind typeText fun _ => bind spaces1 fun _ => pure _

end Trims

/-! ### Types in front of words -/

/-- A character that follows the first word of a type, spaces left aside, if a word follows
the type. -/
def followsWord (c : Char) : Prop :=
  isWordChar c = true ∨ c = '<' ∨ c = '['

theorem beq_false_of_followsWord {c d : Char} (h : followsWord c) (hd : isWordChar d = false)
    (hopen : d ≠ '<' ∧ d ≠ '[') : (c == d) = false := by
  rcases h with h | rfl | rfl
  · exact beq_false_of_isWordChar h hd
  · exact beq_eq_false_iff_ne.mpr hopen.1.symm
  · exact beq_eq_false_iff_ne.mpr hopen.2.symm

variable {P : TypeSuffix → Prop}

/-- Of a type in front of a word, a name parser takes the first word. -/
theorem name_type {t y : List Char} (ht : IsType P t) (hy : ∃ c z, y = c :: z ∧ isWordChar c = true) :
    ∃ n x c z, name (t ++ ' ' :: y) = some (n, x) ∧ x.dropWhile isSpace = c :: z ∧
      followsWord c ∧ ' ' :: y <:+ x := by
  obtain ⟨d, u, rfl, hd⟩ := hy
  obtain ⟨head, xs, hhead, -, rfl⟩ := ht
  have hhead' : IsWord (String.ofList head).toList := by rwa [String.toList_ofList]
  have hname : ∀ x, Stops isWordChar x → name (head ++ x) = some (String.ofList head, x) := by
    intro x hx
    simpa using name_append hhead' hx
  rw [List.append_assoc]
  rcases xs with _ | ⟨x, xs⟩
  · have hdrop : (' ' :: d :: u).dropWhile isSpace = d :: u :=
      dropWhile_append_of_stops (w := [' ']) (by simp [isSpace])
        (stops_cons.mpr (isSpace_of_isWordChar hd))
    exact ⟨_, _, d, u, hname _ (stops_cons.mpr rfl), hdrop, Or.inl hd, List.suffix_rfl⟩
  · cases x with
    | arguments inner =>
        refine ⟨_, _, '<', _, hname _ (stops_cons.mpr rfl), rfl, Or.inr (Or.inl rfl), ?_⟩
        exact List.suffix_append _ _
    | array size =>
        refine ⟨_, _, '[', _, hname _ (stops_cons.mpr rfl), rfl, Or.inr (Or.inr rfl), ?_⟩
        exact List.suffix_append _ _

theorem colon_eq_none_of_followsWord {s z : List Char} {c : Char}
    (h : s.dropWhile isSpace = c :: z) (hc : followsWord c) : colon s = none := by
  refine colon_eq_none ?_
  rw [h]
  exact stops_cons.mpr (beq_false_of_followsWord hc (by decide) (by decide))

theorem parameterList_eq_none_of_followsWord {s z : List Char} {c : Char}
    (h : s.dropWhile isSpace = c :: z) (hc : followsWord c) :
    parameterList (s.dropWhile isSpace) = none := by
  rw [parameterList, bind_of_none]
  refine char_eq_none ?_
  rw [h]
  exact stops_cons.mpr (beq_false_of_followsWord hc (by decide) (by decide))

theorem visibility_marker (v : Visibility) (r : List Char) :
    visibility (v.marker :: r) = some (some v, r) := by
  have hmarker : (v.marker == '+' || v.marker == '-' || v.marker == '#' || v.marker == '~') =
      true := by cases v <;> rfl
  have hchar : satisfy (fun c => c == '+' || c == '-' || c == '#' || c == '~') (v.marker :: r) =
      some (v.marker, r) := by
    rw [satisfy_cons, if_pos hmarker]
  rw [visibility, bind_of_some (optional_eq_some hchar)]
  simp

theorem keyword_abstract {v r : List Char} (hv : IsWord v) (hr : Stops isIdentifierContinue r) :
    keyword "abstract" (v ++ r) = if v = "abstract".toList then some ((), r) else none :=
  keyword_append (by decide) hv hr

/-- The mark is taken off if a word follows it. -/
theorem abstractMark_mark {r : List Char} (hr : Stops isSpace r) :
    abstractMark ("abstract".toList ++ ' ' :: r) = some (true, r) := by
  have hk : keyword "abstract" ("abstract".toList ++ ' ' :: r) = some ((), ' ' :: r) := by
    rw [keyword_abstract (by decide) (stops_cons.mpr (by decide)), if_pos rfl]
  have hmark : (do
      keyword "abstract"
      spaces1) ("abstract".toList ++ ' ' :: r) = some ((), r) := by
    rw [bind_of_some hk, spaces1_space hr]
  rw [abstractMark, bind_of_some (optional_eq_some hmark)]
  rfl

/-- Another type than the word itself is not taken for the mark. -/
theorem abstractMark_type {t y : List Char} (ht : IsType P t) (hne : t ≠ "abstract".toList) :
    abstractMark (t ++ ' ' :: y) = some (false, t ++ ' ' :: y) := by
  have hnone : (do
      keyword "abstract"
      spaces1) (t ++ ' ' :: y) = none := by
    obtain ⟨head, xs, hhead, -, rfl⟩ := ht
    rw [List.append_assoc]
    have hstop : Stops isIdentifierContinue (xs.flatMap TypeSuffix.text ++ ' ' :: y) := by
      rcases xs with _ | ⟨_ | _, xs⟩
      · exact stops_cons.mpr (by decide)
      · exact stops_cons.mpr (by decide)
      · exact stops_cons.mpr (by decide)
    have hk := keyword_abstract hhead hstop
    by_cases he : head = "abstract".toList
    · rw [if_pos he] at hk
      rw [bind_of_some hk]
      rcases xs with _ | ⟨_ | _, xs⟩
      · exact absurd (by simpa using he) hne
      · exact spaces1_eq_none (stops_cons.mpr rfl)
      · exact spaces1_eq_none (stops_cons.mpr rfl)
    · rw [if_neg he] at hk
      exact bind_of_none hk _
  rw [abstractMark, bind_of_some (optional_eq_none hnone)]
  rfl

end LineParser

open LineParser

/-! ### Written attributes -/

/-- The spaces that a modifier leaves in front of a member once it is taken out. -/
def modifierGap (isStatic : Bool) : List Char :=
  if isStatic then [' ', ' '] else [' ']

/-- The line of an attribute without its modifier. -/
def attributeText (a : Attribute) : List Char :=
  '\t' :: a.visibility.marker :: (modifierGap a.isStatic ++ (a.type.toList ++ ' ' :: a.name.toList))

theorem isSpace_of_mem_modifierGap {b : Bool} : ∀ c ∈ modifierGap b, isSpace c = true := by
  cases b <;> simp [modifierGap, isSpace]

/-- Spaces in front of the visibility and behind it lead to the member. -/
theorem dropWhile_memberText (v : Visibility) (r : List Char) :
    ('\t' :: v.marker :: r).dropWhile isSpace = v.marker :: r := by
  cases v <;> rfl

section Attributes

variable {a : Attribute}

/-- Behind the visibility and the spaces of an attribute stands its type. -/
theorem spaces_attributeText {P : TypeSuffix → Prop} (htype : IsType P a.type.toList) :
    spaces (modifierGap a.isStatic ++ (a.type.toList ++ ' ' :: a.name.toList)) =
      some ((), a.type.toList ++ ' ' :: a.name.toList) := by
  rw [spaces_apply, dropWhile_append_of_stops isSpace_of_mem_modifierGap
    (htype.stops (fun _ => isSpace_of_isWordChar) _)]

/-- No colon follows the first word of a type. -/
theorem accept_nameTypeAttribute_attributeText {P : TypeSuffix → Prop} (hname : IsWord a.name.toList)
    (htype : IsType P a.type.toList) :
    accept (fullLine nameTypeAttribute) (attributeText a) = none := by
  obtain ⟨n, x, c, z, hn, hx, hc, -⟩ := name_type htype hname.exists_cons
  refine accept_fullLine_eq_none ?_
  rw [attributeText, dropWhile_memberText, nameTypeAttribute, bind_of_some (visibility_marker _ _),
    bind_of_some (spaces_attributeText htype), bind_of_some hn,
    bind_of_none (colon_eq_none_of_followsWord hx hc)]

theorem attributeLine?_attributeText (hname : IsWord a.name.toList)
    (htype : IsType TypeSuffix.Readable a.type.toList) :
    attributeLine? (attributeText a) =
      some { visibility := some a.visibility, name := a.name, type := a.type } := by
  have htail : name a.name.toList = some (a.name, []) := by
    simpa using name_append hname (stops_nil _)
  have hstop : Stops isSpace a.name.toList := by
    simpa using hname.stops (fun _ => isSpace_of_isWordChar) []
  have hbefore : typeBefore (a.type.toList ++ ' ' :: a.name.toList) =
      some (a.type, a.name.toList) := by
    rw [typeBefore, bind_of_some (typeText_append htype (stops_cons.mpr rfl)
      (stops_cons.mpr rfl)), bind_of_some (spaces1_space hstop)]
    rfl
  rw [attributeLine?, accept_nameTypeAttribute_attributeText hname htype, Option.none_or,
    accept_fullLine_eq_some_iff]
  refine ⟨[], ?_, by simp⟩
  rw [attributeText, dropWhile_memberText, typeNameAttribute,
    bind_of_some (visibility_marker _ _), bind_of_some (spaces_attributeText htype),
    typeNameAttributeRest, bind_of_some hbefore, bind_of_some htail]
  rfl

theorem memberLine?_attributeText (hname : IsWord a.name.toList)
    (htype : IsType TypeSuffix.Readable a.type.toList) :
    memberLine? (attributeText a) =
      some (.field { visibility := some a.visibility, name := a.name, type := a.type }) := by
  rw [memberLine?, attributeLine?_attributeText hname htype]
  rfl

/-- A line with a type that is not read up to the name is no member. -/
theorem memberLine?_attributeText_eq_none {P : TypeSuffix → Prop} (hname : IsWord a.name.toList)
    (htype : IsType P a.type.toList) (hmark : a.type.toList ≠ "abstract".toList)
    (hbefore : typeBefore (a.type.toList ++ ' ' :: a.name.toList) = none) :
    memberLine? (attributeText a) = none := by
  obtain ⟨n, x, c, z, hn, hx, hc, -⟩ := name_type htype hname.exists_cons
  have hparameters := parameterList_eq_none_of_followsWord hx hc
  have hattribute : accept (fullLine typeNameAttribute) (attributeText a) = none := by
    refine accept_fullLine_eq_none ?_
    rw [attributeText, dropWhile_memberText, typeNameAttribute, bind_of_some (visibility_marker _ _),
      bind_of_some (spaces_attributeText htype), typeNameAttributeRest, bind_of_none hbefore]
  -- Without a type in front, the first word of the type is the name of a method, if any.
  have hmethod : accept (fullLine typeNameMethod) (attributeText a) = none := by
    refine accept_fullLine_eq_none ?_
    rw [attributeText, dropWhile_memberText, typeNameMethod, bind_of_some (visibility_marker _ _),
      bind_of_some (spaces_attributeText htype), typeNameMethodRest,
      bind_of_some (abstractMark_type htype hmark), bind_of_some (optional_eq_none hbefore),
      bind_of_some hn, bind_of_some (spaces_apply x), bind_of_none hparameters]
  have hnameMethod : accept (fullLine nameTypeMethod) (attributeText a) = none := by
    refine accept_fullLine_eq_none ?_
    rw [attributeText, dropWhile_memberText, nameTypeMethod, bind_of_some (visibility_marker _ _),
      bind_of_some (spaces_attributeText htype), bind_of_some (abstractMark_type htype hmark),
      bind_of_some hn, bind_of_some (spaces_apply x), bind_of_none hparameters]
  rw [memberLine?, attributeLine?, accept_nameTypeAttribute_attributeText hname htype, hattribute,
    methodLine?, hnameMethod, hmethod]
  rfl

end Attributes

/-! ### Written methods -/

/-- The name of a method with its parameter list. -/
def signatureText (m : Method) : List Char :=
  m.name.toList ++ '(' :: (parametersText m.parameters ++ [')'])

/-- What stands behind the visibility of a method. -/
def methodRest (m : Method) : List Char :=
  (if m.isAbstract then "abstract".toList ++ [' '] else []) ++
    (m.returnType.toList ++ ' ' :: signatureText m)

/-- The line of a method without its modifier. -/
def methodText (m : Method) : List Char :=
  '\t' :: m.visibility.marker :: (modifierGap m.isStatic ++ methodRest m)

/-- A method that can be written on a line. -/
structure Method.Writable (m : Method) : Prop where
  name : IsWord m.name.toList
  returnType : IsType TypeSuffix.Readable m.returnType.toList
  listed : Listed m.parameters
  parameterName : ∀ p ∈ m.parameters, IsWord p.name.toList
  parameterType : ∀ p ∈ m.parameters, IsType TypeSuffix.Readable p.type.toList
  /-- No parenthesis stands inside the parameter list. -/
  noParenthesis : ∀ p ∈ m.parameters, ∀ c ∈ p.type.toList, c ≠ '(' ∧ c ≠ ')'

/-- The line of a method claims an abstract method where there is none. -/
def Method.Misread (m : Method) : Prop :=
  m.isAbstract = false ∧ m.returnType = "abstract"

instance (m : Method) : Decidable m.Misread :=
  inferInstanceAs (Decidable (_ ∧ _))

/-- What the line of a method is read as. -/
def Method.asRead (m : Method) : MethodLine where
  visibility := some m.visibility
  isAbstract := m.isAbstract || decide m.Misread
  name := m.name
  returnType := if m.Misread then none else some m.returnType
  parameters := m.parameters

section Methods

variable {m : Method}

theorem mem_parametersText {ps : List Parameter} {c : Char} (h : c ∈ parametersText ps) :
    c = ',' ∨ c = ' ' ∨ c = ':' ∨ ∃ p ∈ ps, c ∈ p.name.toList ∨ c ∈ p.type.toList := by
  induction ps with
  | nil => cases h
  | cons p ps ih =>
      have hp : c ∈ (Diagram.parameter p).toList →
          c = ' ' ∨ c = ':' ∨ c ∈ p.name.toList ∨ c ∈ p.type.toList := by
        intro hc
        rw [toList_parameter] at hc
        simp only [List.mem_append, List.mem_cons] at hc
        rcases hc with hc | hc | hc | hc | hc
        · exact Or.inr (Or.inr (Or.inl hc))
        · exact Or.inl hc
        · exact Or.inr (Or.inl hc)
        · exact Or.inl hc
        · exact Or.inr (Or.inr (Or.inr hc))
      cases ps with
      | nil =>
          rcases hp (by simpa [parametersText] using h) with h | h | h
          · exact Or.inr (Or.inl h)
          · exact Or.inr (Or.inr (Or.inl h))
          · exact Or.inr (Or.inr (Or.inr ⟨p, by simp, h⟩))
      | cons q r =>
          have hsplit : c ∈ (Diagram.parameter p).toList ∨ c = ',' ∨ c = ' ' ∨
              c ∈ parametersText (q :: r) := by
            simpa [parametersText, List.intercalate_cons_cons, or_assoc] using h
          rcases hsplit with h | h | h | h
          · rcases hp h with h | h | h
            · exact Or.inr (Or.inl h)
            · exact Or.inr (Or.inr (Or.inl h))
            · exact Or.inr (Or.inr (Or.inr ⟨p, by simp, h⟩))
          · exact Or.inl h
          · exact Or.inr (Or.inl h)
          · rcases ih h with h | h | h | ⟨t, ht, h⟩
            · exact Or.inl h
            · exact Or.inr (Or.inl h)
            · exact Or.inr (Or.inr (Or.inl h))
            · exact Or.inr (Or.inr (Or.inr ⟨t, by simp [ht], h⟩))

theorem parameterList_parametersText (hm : m.Writable) (r : List Char) :
    parameterList ('(' :: (parametersText m.parameters ++ ')' :: r)) = some (m.parameters, r) := by
  have hplain : ∀ c ∈ parametersText m.parameters, (c != '(' && c != ')') = true := by
    intro c hc
    have hne : c ≠ '(' ∧ c ≠ ')' := by
      rcases mem_parametersText hc with rfl | rfl | rfl | ⟨p, hp, h | h⟩
      · decide
      · decide
      · decide
      · have hw := (hm.parameterName p hp).chars c h
        exact ⟨ne_of_isWordChar hw (by decide), ne_of_isWordChar hw (by decide)⟩
      · exact hm.noParenthesis p hp c h
    simp [hne]
  have hclose : Stops (fun c => c != '(' && c != ')') (')' :: r) := stops_cons.mpr rfl
  have hrun : run (fun c => c != '(' && c != ')') (parametersText m.parameters ++ ')' :: r) =
      some (parametersText m.parameters, ')' :: r) := by
    rw [run_apply, takeWhile_append_of_stops hplain hclose, dropWhile_append_of_stops hplain hclose]
  have hread : readParameters (parametersText m.parameters) = m.parameters :=
    readParameters_parametersText hm.listed hm.parameterName hm.parameterType
  rw [parameterList, bind_of_some (char_cons '(' _), bind_of_some hrun,
    bind_of_some (char_cons ')' r), hread]
  rfl

theorem signatureText_start (hm : m.Writable) :
    ∃ c z, signatureText m = c :: z ∧ isWordChar c = true := by
  obtain ⟨c, t, ht, hc⟩ := hm.name.exists_cons
  exact ⟨c, _, by rw [signatureText, ht, List.cons_append], hc⟩

/-- Behind the visibility of a method there is a type, the word `abstract` counting as one,
and then a word. -/
theorem methodRest_eq (hm : m.Writable) :
    ∃ t y, methodRest m = t ++ ' ' :: y ∧ IsType TypeSuffix.Readable t ∧ '(' ∈ y ∧
      ∃ c z, y = c :: z ∧ isWordChar c = true := by
  have hparen : '(' ∈ signatureText m := by simp [signatureText]
  by_cases ha : m.isAbstract = true
  · refine ⟨"abstract".toList, m.returnType.toList ++ ' ' :: signatureText m,
      by simp [methodRest, ha], IsType.of_isWord (by decide), by simp [hparen], ?_⟩
    obtain ⟨head, xs, hhead, -, he⟩ := hm.returnType
    obtain ⟨c, t, rfl, hc⟩ := hhead.exists_cons
    exact ⟨c, _, by rw [he, List.cons_append, List.cons_append], hc⟩
  · exact ⟨m.returnType.toList, signatureText m, by simp [methodRest, ha], hm.returnType, hparen,
      signatureText_start hm⟩

theorem stops_methodRest (hm : m.Writable) : Stops isSpace (methodRest m) := by
  obtain ⟨t, y, he, ht, -, -⟩ := methodRest_eq hm
  rw [he]
  exact ht.stops (fun _ => isSpace_of_isWordChar) _

theorem spaces_methodRest (hm : m.Writable) :
    spaces (modifierGap m.isStatic ++ methodRest m) = some ((), methodRest m) := by
  rw [spaces_apply, dropWhile_append_of_stops isSpace_of_mem_modifierGap (stops_methodRest hm)]

/-- The line of a method is no attribute. -/
theorem attributeLine?_methodText (hm : m.Writable) : attributeLine? (methodText m) = none := by
  obtain ⟨t, y, he, ht, hparen, hy⟩ := methodRest_eq hm
  obtain ⟨n, x, c, z, hn, hx, hc, -⟩ := name_type ht hy
  have hgap := spaces_methodRest hm
  rw [he] at hgap
  have hfirst : accept (fullLine nameTypeAttribute) (methodText m) = none := by
    refine accept_fullLine_eq_none ?_
    rw [methodText, dropWhile_memberText, nameTypeAttribute, bind_of_some (visibility_marker _ _),
      he, bind_of_some hgap, bind_of_some hn, bind_of_none (colon_eq_none_of_followsWord hx hc)]
  -- The other layout stops at the end of a word, with the parenthesis still to come.
  have hsecond : accept (fullLine typeNameAttribute) (methodText m) = none := by
    obtain ⟨d, u, rfl, hd⟩ := hy
    have hspace : Stops isSpace (d :: u) := stops_cons.mpr (isSpace_of_isWordChar hd)
    have htype : typeText (t ++ ' ' :: d :: u) = some (String.ofList t, ' ' :: d :: u) := by
      have := typeText_append (t := String.ofList t) (r := ' ' :: d :: u)
        (by rwa [String.toList_ofList]) (stops_cons.mpr rfl) (stops_cons.mpr rfl)
      rwa [String.toList_ofList] at this
    have hbefore : typeBefore (t ++ ' ' :: d :: u) = some (String.ofList t, d :: u) := by
      rw [typeBefore, bind_of_some htype, bind_of_some (spaces1_space hspace)]
      rfl
    have hword := run_append isWordChar (d :: u)
    have hname : name (d :: u) = some (String.ofList ((d :: u).takeWhile isWordChar),
        (d :: u).dropWhile isWordChar) := by
      rw [name_eq_some_iff, String.toList_ofList]
      refine ⟨hword.symm, ⟨?_, fun _ => of_mem_takeWhile⟩, stops_dropWhile _ _⟩
      rw [List.takeWhile_cons_of_pos hd]
      exact List.cons_ne_nil _ _
    have hmem : '(' ∈ (d :: u).dropWhile isWordChar := by
      rw [← hword, List.mem_append] at hparen
      rcases hparen with h | h
      · have : isWordChar '(' = true := of_mem_takeWhile h
        exact absurd this (by decide)
      · exact h
    have hread : typeNameAttribute ((methodText m).dropWhile isSpace) =
        some (⟨some m.visibility, String.ofList ((d :: u).takeWhile isWordChar), String.ofList t⟩,
          (d :: u).dropWhile isWordChar) := by
      rw [methodText, dropWhile_memberText, typeNameAttribute,
        bind_of_some (visibility_marker _ _), he, bind_of_some hgap, typeNameAttributeRest,
        bind_of_some hbefore, bind_of_some hname]
      rfl
    exact accept_fullLine_eq_none_of_rest hread hmem (by decide)
  rw [attributeLine?, hfirst, hsecond]
  rfl

theorem dropWhile_signatureText (hm : m.Writable) :
    (signatureText m).dropWhile isSpace = signatureText m := by
  obtain ⟨c, z, he, hc⟩ := signatureText_start hm
  rw [he]
  exact dropWhile_of_stops (stops_cons.mpr (isSpace_of_isWordChar hc))

theorem name_signatureText (hm : m.Writable) :
    name (signatureText m) = some (m.name, '(' :: (parametersText m.parameters ++ [')'])) :=
  name_append hm.name (stops_cons.mpr (by decide))

theorem spaces_parameters (ps : List Parameter) :
    spaces ('(' :: (parametersText ps ++ [')'])) =
      some ((), '(' :: (parametersText ps ++ [')'])) :=
  spaces_of_stops (stops_cons.mpr rfl)

/-- A type in front of a signature is read together with the space. -/
theorem typeBefore_signatureText (hm : m.Writable) :
    typeBefore (m.returnType.toList ++ ' ' :: signatureText m) =
      some (m.returnType, signatureText m) := by
  have hstop : Stops isSpace (signatureText m) := by
    rw [← dropWhile_signatureText hm]
    exact stops_dropWhile _ _
  rw [typeBefore, bind_of_some (typeText_append hm.returnType (stops_cons.mpr rfl)
    (stops_cons.mpr rfl)), bind_of_some (spaces1_space hstop)]
  rfl

/-- Without a type in front of it, a signature has none. -/
theorem typeBefore_eq_none (hm : m.Writable) : typeBefore (signatureText m) = none := by
  have htype : typeText (signatureText m) =
      some (m.name, '(' :: (parametersText m.parameters ++ [')'])) :=
    typeText_append (IsType.of_isWord hm.name) (stops_cons.mpr (by decide))
      (stops_cons.mpr (by decide))
  rw [typeBefore, bind_of_some htype, bind_of_none (spaces1_eq_none (stops_cons.mpr rfl))]

/-- What is read of a line once the mark and the type are known. -/
theorem typeNameMethod_methodText (hm : m.Writable) {s : List Char} {mark : Bool}
    {type : Option String} (hmark : abstractMark (methodRest m) = some (mark, s))
    (htype : LineParser.optional typeBefore s = some (type, signatureText m)) :
    accept (fullLine typeNameMethod) (methodText m) =
      some { visibility := some m.visibility, isAbstract := mark, name := m.name,
             returnType := type, parameters := m.parameters } := by
  rw [accept_fullLine_eq_some_iff]
  refine ⟨[], ?_, by simp⟩
  rw [methodText, dropWhile_memberText, typeNameMethod, bind_of_some (visibility_marker _ _),
    bind_of_some (spaces_methodRest hm), typeNameMethodRest, bind_of_some hmark,
    bind_of_some htype, bind_of_some (name_signatureText hm),
    bind_of_some (spaces_parameters _), bind_of_some (parameterList_parametersText hm [])]
  rfl

/-- A method that is not misread keeps its mark and its type. -/
theorem methodLine?_of_not_misread (hm : m.Writable) (h : ¬m.Misread) :
    methodLine? (methodText m) = some m.asRead := by
  have hmark : abstractMark (methodRest m) =
      some (m.isAbstract, m.returnType.toList ++ ' ' :: signatureText m) := by
    by_cases ha : m.isAbstract = true
    · have hstop : Stops isSpace (m.returnType.toList ++ ' ' :: signatureText m) :=
        hm.returnType.stops (fun _ => isSpace_of_isWordChar) _
      have := abstractMark_mark hstop
      simpa [methodRest, ha] using this
    · have hne : m.returnType.toList ≠ "abstract".toList := fun he =>
        h ⟨by simpa using ha, String.toList_inj.mp he⟩
      have := abstractMark_type hm.returnType hne (y := signatureText m)
      simpa [methodRest, ha] using this
  obtain ⟨n, x, c, z, hn, hx, hc, -⟩ := name_type hm.returnType (signatureText_start hm)
  -- Behind the word that is taken for the name there is no parenthesis.
  have hfirst : accept (fullLine nameTypeMethod) (methodText m) = none := by
    refine accept_fullLine_eq_none ?_
    rw [methodText, dropWhile_memberText, nameTypeMethod, bind_of_some (visibility_marker _ _),
      bind_of_some (spaces_methodRest hm), bind_of_some hmark, bind_of_some hn,
      bind_of_some (spaces_apply x), bind_of_none (parameterList_eq_none_of_followsWord hx hc)]
  rw [methodLine?, hfirst, Option.none_or, typeNameMethod_methodText hm hmark
    (optional_eq_some (typeBefore_signatureText hm))]
  simp [Method.asRead, h]

/-- A method that returns `abstract` loses its type to the mark. -/
theorem methodLine?_of_misread (hm : m.Writable) (h : m.Misread) :
    methodLine? (methodText m) = some m.asRead := by
  have hmark : abstractMark (methodRest m) = some (true, signatureText m) := by
    have hstop : Stops isSpace (signatureText m) := by
      rw [← dropWhile_signatureText hm]
      exact stops_dropWhile _ _
    have := abstractMark_mark hstop
    simpa [methodRest, h.1, h.2] using this
  -- The parameter list ends the line, where a colon should follow.
  have hfirst : accept (fullLine nameTypeMethod) (methodText m) = none := by
    refine accept_fullLine_eq_none ?_
    rw [methodText, dropWhile_memberText, nameTypeMethod, bind_of_some (visibility_marker _ _),
      bind_of_some (spaces_methodRest hm), bind_of_some hmark,
      bind_of_some (name_signatureText hm), bind_of_some (spaces_parameters _),
      bind_of_some (parameterList_parametersText hm []),
      bind_of_none (colon_eq_none (stops_nil _))]
  rw [methodLine?, hfirst, Option.none_or, typeNameMethod_methodText hm hmark
    (optional_eq_none (typeBefore_eq_none hm))]
  simp [Method.asRead, h]

/-- **What becomes of a written method line.** -/
theorem methodLine?_methodText (hm : m.Writable) :
    methodLine? (methodText m) = some m.asRead := by
  by_cases h : m.Misread
  · exact methodLine?_of_misread hm h
  · exact methodLine?_of_not_misread hm h

theorem memberLine?_methodText (hm : m.Writable) :
    memberLine? (methodText m) = some (.method m.asRead) := by
  rw [memberLine?, attributeLine?_methodText hm, methodLine?_methodText hm]
  rfl

end Methods

end ClassModel
