/-
Grammars that exclude each other.

The layouts of a member are tried in a fixed order, and so are the three things that a line
outside all bodies may say.  The order is a convenience: no line has two readings, so whichever
grammar is tried first, the same one accepts.  Two facts make it so.

  * What a line ends with.  Only the method layouts with the name behind the type end with the
    parenthesis of a parameter list; every other one ends with a name or a type.
  * What follows the first word of a line.  Spaces left aside it is a colon, a parenthesis, or
    whatever a type goes on with in front of a name, and no two of these are the same.

The first word is a delicate matter only where it is `abstract`, since the method layouts may take
it for a mark.  Then another word must follow it, and again no colon and no parenthesis does.
-/
import ClassModel.Proofs.Diagram.Readings
import ClassModel.Proofs.Diagram.Statements

namespace ClassModel

open LineParser

/-! ### Grammars of which at most one accepts -/

section Orders

variable {α β γ : Type}

/-- No line is accepted by both grammars. -/
def Exclusive (g : α → Option β) (h : α → Option γ) : Prop :=
  ∀ line, g line = none ∨ h line = none

theorem Exclusive.symm {g : α → Option β} {h : α → Option γ} (hx : Exclusive g h) :
    Exclusive h g := by
  intro line
  exact (hx line).symm

theorem exclusive_of_forall {g : α → Option β} {h : α → Option γ}
    (hx : ∀ line b c, g line = some b → h line ≠ some c) : Exclusive g h := by
  intro line
  cases hg : g line with
  | none => exact Or.inl rfl
  | some b =>
      cases hh : h line with
      | none => exact Or.inr rfl
      | some c => exact absurd hh (hx line b c hg)

/-- Grammars for texts that exclude each other do so for whatever carries a text, and whatever is
made of their readings. -/
theorem Exclusive.map {α' β' γ' : Type} {g : α → Option β} {h : α → Option γ}
    (hx : Exclusive g h) (text : α' → α) (j : α' → β → β') (k : α' → γ → γ') :
    Exclusive (fun line => (g (text line)).map (j line)) fun line => (h (text line)).map (k line) := by
  intro line
  rcases hx (text line) with hg | hh
  · refine Or.inl ?_
    simp only [hg, Option.map_none]
  · refine Or.inr ?_
    simp only [hh, Option.map_none]

/-- **The first of some grammars to accept is the same in every order, if at most one accepts.** -/
theorem findSome?_of_perm {gs hs : List (α → Option β)} (hperm : gs.Perm hs)
    (hx : hs.Pairwise Exclusive) (line : α) :
    gs.findSome? (fun g => g line) = hs.findSome? fun g => g line := by
  have hsymm : ∀ {g h : α → Option β}, Exclusive g h → Exclusive h g := Exclusive.symm
  induction hperm with
  | nil => rfl
  | cons g _ ih =>
      rw [List.findSome?_cons, List.findSome?_cons, ih (List.pairwise_cons.mp hx).2]
  | swap g h rest =>
      obtain ⟨hfirst, -⟩ := List.pairwise_cons.mp hx
      rcases hfirst h (by simp) line with hg | hh
      · simp [List.findSome?_cons, hg]
      · simp [List.findSome?_cons, hh]
  | trans _ hperm ihfirst ihsecond =>
      rw [ihfirst ((hperm.pairwise_iff hsymm).mpr hx), ihsecond hx]

end Orders

namespace LineParser

variable {α β : Type}

/-! ### What a line ends with -/

/-- What a parser takes off the front of a line ends with a character of a class. -/
def EndsIn (c : Char → Bool) (p : LineParser α) : Prop :=
  ∀ ⦃s a r⦄, p s = some (a, r) → ∃ u d, s = u ++ d :: r ∧ c d = true

namespace EndsIn

variable {c : Char → Bool} {p : LineParser α}

theorem bind {f : α → LineParser β} (hp : Trims p) (hf : ∀ a, EndsIn c (f a)) :
    EndsIn c (p >>= f) := by
  intro s b r h
  rw [bind_apply, Option.bind_eq_some_iff] at h
  obtain ⟨⟨a, t⟩, ha, hb⟩ := h
  obtain ⟨v, rfl⟩ := hp ha
  obtain ⟨u, d, rfl, hd⟩ := hf a hb
  exact ⟨v ++ u, d, by simp, hd⟩

theorem bind_pure (hp : EndsIn c p) (f : α → β) : EndsIn c (p >>= fun a => pure (f a)) := by
  intro s b r h
  rw [bind_apply, Option.bind_eq_some_iff] at h
  obtain ⟨⟨a, t⟩, ha, hb⟩ := h
  cases hb
  exact hp ha

theorem name : EndsIn isWordChar name := by
  intro s n r h
  obtain ⟨rfl, hn, -⟩ := name_eq_some_iff.mp h
  rcases List.eq_nil_or_concat n.toList with hnil | ⟨u, d, hu⟩
  · exact absurd hnil hn.ne_nil
  · exact ⟨u, d, by simp [hu], hn.chars d (by simp [hu])⟩

/-- A character at the end of a type. -/
def endsType (c : Char) : Bool :=
  isWordChar c || c == '>' || c == ']'

theorem typeText : EndsIn endsType typeText := by
  intro s t r h
  obtain ⟨rfl, ht⟩ := typeText_eq_some h
  obtain ⟨u, d, hu, hd⟩ := ht.getLast?_eq
  refine ⟨u, d, by simp [hu], ?_⟩
  rcases hd with hd | rfl | rfl
  · simp [endsType, hd]
  · rfl
  · rfl

theorem parameterList : EndsIn (· == ')') parameterList := by
  intro s ps r h
  obtain ⟨inner, rfl, -, -⟩ := parameterList_eq_some h
  exact ⟨'(' :: inner, ')', by simp, rfl⟩

theorem nameTypeAttribute : EndsIn endsType nameTypeAttribute :=
  bind .visibility fun _ => bind .spaces fun _ => bind .name fun _ => bind .colon fun _ =>
    bind_pure typeText _

theorem typeNameAttributeRest (v : Option Visibility) :
    EndsIn isWordChar (typeNameAttributeRest v) :=
  bind .typeBefore fun _ => bind_pure name _

theorem typeNameAttribute : EndsIn isWordChar typeNameAttribute :=
  bind .visibility fun _ => bind .spaces fun _ => typeNameAttributeRest _

theorem nameTypeMethod : EndsIn endsType nameTypeMethod := by
  refine bind .visibility fun _ => bind .spaces fun _ => bind .abstractMark fun _ =>
    bind .name fun _ => bind .spaces fun _ => bind ?_ fun _ => bind .colon fun _ =>
      bind_pure typeText _
  exact .bind (.satisfy _) fun _ => .bind (.run _) fun _ => .bind (.satisfy _) fun _ => .pure _

theorem typeNameMethodRest (v : Option Visibility) : EndsIn (· == ')') (typeNameMethodRest v) :=
  bind .abstractMark fun _ => bind (.optional .typeBefore) fun _ => bind .name fun _ =>
    bind .spaces fun _ => bind_pure parameterList _

theorem typeNameMethod : EndsIn (· == ')') typeNameMethod :=
  bind .visibility fun _ => bind .spaces fun _ => typeNameMethodRest _

end EndsIn

/-- The last character of a line, spaces left aside, ends what a grammar has read. -/
theorem EndsIn.getLast {c : Char → Bool} {p : LineParser α} (hp : EndsIn c p)
    (hc : ∀ d, c d = true → isSpace d = false) {line : List Char} {a : α}
    (h : accept (fullLine p) line = some a) :
    ∃ d, (line.reverse.dropWhile isSpace).head? = some d ∧ c d = true := by
  obtain ⟨r, hread, hr⟩ := accept_fullLine_eq_some_iff.mp h
  obtain ⟨u, d, hs, hd⟩ := hp hread
  refine ⟨d, ?_, hd⟩
  have hback : ∀ x ∈ r.reverse, isSpace x = true := fun x hx => hr x (List.mem_reverse.mp hx)
  have hstop : Stops isSpace (d :: (u.reverse ++ (line.takeWhile isSpace).reverse)) :=
    stops_cons.mpr (hc d hd)
  have hline : line = line.takeWhile isSpace ++ (u ++ d :: r) := by
    rw [← hs, run_append]
  have hreverse : line.reverse =
      r.reverse ++ d :: (u.reverse ++ (line.takeWhile isSpace).reverse) := by
    simpa using congrArg List.reverse hline
  rw [hreverse, dropWhile_append_of_stops hback hstop]
  rfl

/-- Grammars that end in different ways exclude each other. -/
theorem EndsIn.exclusive {c d : Char → Bool} {p : LineParser α} {q : LineParser β}
    (hp : EndsIn c p) (hq : EndsIn d q) (hc : ∀ x, c x = true → isSpace x = false)
    (hd : ∀ x, d x = true → isSpace x = false) (hcd : ∀ x, c x = true → d x = false) :
    Exclusive (accept (fullLine p)) (accept (fullLine q)) := by
  refine exclusive_of_forall fun line a b ha hb => ?_
  obtain ⟨x, hx, hcx⟩ := hp.getLast hc ha
  obtain ⟨y, hy, hdy⟩ := hq.getLast hd hb
  have hxy : x = y := Option.some.inj (hx.symm.trans hy)
  rw [hxy] at hcx
  simp [hcd y hcx] at hdy

theorem isSpace_of_endsType {c : Char} (h : EndsIn.endsType c = true) : isSpace c = false := by
  simp only [EndsIn.endsType, Bool.or_eq_true, beq_iff_eq] at h
  rcases h with (h | rfl) | rfl
  · exact isSpace_of_isWordChar h
  · rfl
  · rfl

theorem isSpace_of_eq_parenthesis {c : Char} (h : (c == ')') = true) : isSpace c = false := by
  rw [beq_iff_eq.mp h]
  rfl

theorem ne_parenthesis_of_endsType {c : Char} (h : EndsIn.endsType c = true) :
    (c == ')') = false := by
  simp only [EndsIn.endsType, Bool.or_eq_true, beq_iff_eq] at h
  rcases h with (h | rfl) | rfl
  · exact beq_false_of_isWordChar h (by decide)
  · rfl
  · rfl

/-! ### What follows the first word of a line -/

/-- A type in front of something begins with a word, and behind the word there is a suffix or the
spaces that end the type. -/
theorem typeBefore_eq_some {s r : List Char} {t : String} (h : typeBefore s = some (t, r)) :
    ∃ n x, name s = some (n, x) ∧
      ((∃ c z, x = c :: z ∧ (c = '<' ∨ c = '[')) ∨ spaces1 x = some ((), r)) := by
  simp only [typeBefore, typeText, bind_apply, Option.bind_eq_some_iff] at h
  obtain ⟨⟨_, s₁⟩, ⟨⟨w, x⟩, hw, ⟨ts, s₂⟩, hts, he⟩, ⟨_, s₃⟩, hspaces, he'⟩ := h
  cases he
  cases he'
  refine ⟨String.ofList w, x, ?_, ?_⟩
  · rw [name_apply, hw]
    rfl
  obtain ⟨hx, xs, -, hflat⟩ := suffixes_eq_some hts
  rw [hflat] at hx
  cases xs with
  | nil =>
      refine Or.inr ?_
      rw [show x = s₂ from hx]
      exact hspaces
  | cons y ys =>
      refine Or.inl ?_
      cases y with
      | arguments inner => exact ⟨'<', _, hx, Or.inl rfl⟩
      | array size => exact ⟨'[', _, hx, Or.inr rfl⟩

/-- In front of a name, what follows the first word of a type is neither a colon nor a
parenthesis. -/
theorem followsWord_of_typeBefore {s r y : List Char} {t n : String}
    (h : typeBefore s = some (t, r)) (hn : name r = some (n, y)) :
    ∃ w x c z, name s = some (w, x) ∧ x.dropWhile isSpace = c :: z ∧ followsWord c := by
  obtain ⟨w, x, hw, hx⟩ := typeBefore_eq_some h
  rcases hx with ⟨c, z, rfl, hc⟩ | hspaces
  · have hstop : Stops isSpace (c :: z) := by
      rcases hc with rfl | rfl
      · exact stops_cons.mpr rfl
      · exact stops_cons.mpr rfl
    exact ⟨w, c :: z, c, z, hw, dropWhile_of_stops hstop, Or.inr hc⟩
  · obtain ⟨⟨u, -, hu, rfl⟩, hstop⟩ := spaces1_eq_some hspaces
    obtain ⟨rfl, hword, -⟩ := name_eq_some_iff.mp hn
    obtain ⟨c, z, hcz, hc⟩ := hword.exists_cons
    refine ⟨w, _, c, z ++ y, hw, ?_, Or.inl hc⟩
    rw [dropWhile_append_of_stops hu hstop, hcz, List.cons_append]

/-- The mark of an abstract method is not there, or it is the first word and spaces follow it. -/
theorem abstractMark_eq_some {s r : List Char} {b : Bool} (h : abstractMark s = some (b, r)) :
    r = s ∨ ∃ n x, name s = some (n, x) ∧ spaces1 x = some ((), r) := by
  simp only [abstractMark, bind_apply, Option.bind_eq_some_iff] at h
  obtain ⟨⟨o, t⟩, ho, he⟩ := h
  cases he
  rcases optional_eq_some_iff.mp ho with ⟨_, -, hmark⟩ | ⟨-, -, rfl⟩
  · refine Or.inr ?_
    rw [bind_apply, Option.bind_eq_some_iff] at hmark
    obtain ⟨⟨_, x⟩, hkeyword, hspaces⟩ := hmark
    refine ⟨"abstract", x, ?_, hspaces⟩
    -- A space ends the keyword, so it is the whole first word.
    obtain ⟨⟨u, hne, hu, rfl⟩, -⟩ := spaces1_eq_some hspaces
    obtain ⟨c, v, rfl⟩ := List.exists_cons_of_ne_nil hne
    have hstop : Stops isWordChar (c :: v ++ t) := by
      have hc : isSpace c = true := hu c (by simp)
      simp only [isSpace, Bool.or_eq_true, beq_iff_eq] at hc
      rcases hc with rfl | rfl
      · exact stops_cons.mpr rfl
      · exact stops_cons.mpr rfl
    rw [keyword_eq_some hkeyword]
    exact name_append (by decide) hstop
  · exact Or.inl rfl

/-- Behind the mark of a method stands its name, so if the mark is the first word then a word
follows it. -/
theorem name_of_abstractMark {s t y : List Char} {b : Bool} {n : String}
    (hmark : abstractMark s = some (b, t)) (hn : name t = some (n, y)) :
    name s = some (n, y) ∨
      ∃ w x c z, name s = some (w, x) ∧ spaces1 x = some ((), t) ∧
        x.dropWhile isSpace = c :: z ∧ isWordChar c = true := by
  rcases abstractMark_eq_some hmark with rfl | ⟨w, x, hw, hspaces⟩
  · exact Or.inl hn
  · refine Or.inr ?_
    obtain ⟨⟨u, -, hu, hx⟩, hstop⟩ := spaces1_eq_some hspaces
    obtain ⟨rfl, hword, -⟩ := name_eq_some_iff.mp hn
    obtain ⟨c, z, hcz, hc⟩ := hword.exists_cons
    refine ⟨w, x, c, z ++ y, hw, hspaces, ?_, hc⟩
    rw [hx, dropWhile_append_of_stops hu hstop, hcz, List.cons_append]

/-- Where a colon is read there is one, spaces left aside. -/
theorem dropWhile_of_colon {s r : List Char} {u : Unit} (h : colon s = some (u, r)) :
    ∃ t, s.dropWhile isSpace = ':' :: t := by
  obtain ⟨w, v, hw, -, rfl, -⟩ := colon_eq_some h
  refine ⟨v ++ r, ?_⟩
  rw [List.append_assoc, List.cons_append, dropWhile_append_of_stops hw (stops_cons.mpr rfl)]

theorem parameterList_eq_none {s : List Char} (h : Stops (· == '(') s) : parameterList s = none := by
  rw [parameterList, bind_of_none (char_eq_none h)]

/-! ### The layouts of a member -/

/-- An attribute with the name in front has a colon behind the first word, one with the type in
front has none. -/
theorem exclusive_attributes :
    Exclusive (accept (fullLine nameTypeAttribute)) (accept (fullLine typeNameAttribute)) := by
  refine exclusive_of_forall fun line a b ha hb => ?_
  obtain ⟨r, hread, -⟩ := accept_fullLine_eq_some_iff.mp ha
  obtain ⟨r', hread', -⟩ := accept_fullLine_eq_some_iff.mp hb
  simp only [nameTypeAttribute, bind_apply, Option.bind_eq_some_iff] at hread
  obtain ⟨⟨v, s₁⟩, hv, ⟨_, s⟩, hs, ⟨n, x⟩, hn, ⟨_, x'⟩, hcolon, -⟩ := hread
  rw [typeNameAttribute, bind_of_some hv, bind_of_some hs] at hread'
  simp only [typeNameAttributeRest, bind_apply, Option.bind_eq_some_iff] at hread'
  obtain ⟨⟨t, r₁⟩, ht, ⟨n', r₂⟩, hn', -⟩ := hread'
  obtain ⟨w, y, c, z, hw, hy, hc⟩ := followsWord_of_typeBefore ht hn'
  rw [hw] at hn
  cases hn
  rw [colon_eq_none_of_followsWord hy hc] at hcolon
  cases hcolon

/-- A method with the name in front has a parenthesis behind it, or a word behind its mark. -/
theorem exclusive_nameType :
    Exclusive (accept (fullLine nameTypeAttribute)) (accept (fullLine nameTypeMethod)) := by
  refine exclusive_of_forall fun line a b ha hb => ?_
  obtain ⟨r, hread, -⟩ := accept_fullLine_eq_some_iff.mp ha
  obtain ⟨r', hread', -⟩ := accept_fullLine_eq_some_iff.mp hb
  simp only [nameTypeAttribute, bind_apply, Option.bind_eq_some_iff] at hread
  obtain ⟨⟨v, s₁⟩, hv, ⟨_, s⟩, hs, ⟨n, x⟩, hn, ⟨_, x'⟩, hcolon, -⟩ := hread
  rw [nameTypeMethod, bind_of_some hv, bind_of_some hs] at hread'
  simp only [bind_apply, Option.bind_eq_some_iff, spaces_apply] at hread'
  obtain ⟨⟨mark, t⟩, hmark, ⟨n', y⟩, hn', ⟨_, y'⟩, hspaces, ⟨ps, r₁⟩, hps, -⟩ := hread'
  cases hspaces
  obtain ⟨u, hu⟩ := dropWhile_of_colon hcolon
  have hbehind : Stops (· == '(') (x.dropWhile isSpace) ∧ Stops isWordChar (x.dropWhile isSpace) := by
    rw [hu]
    exact ⟨stops_cons.mpr rfl, stops_cons.mpr rfl⟩
  rcases name_of_abstractMark hmark hn' with hn' | ⟨w, x', c, z, hn', -, hx', hc⟩
  · rw [hn] at hn'
    cases hn'
    rw [parameterList_eq_none hbehind.1] at hps
    cases hps
  · rw [hn] at hn'
    cases hn'
    have hword : isWordChar c = false := hbehind.2 c (by rw [hx']; rfl)
    rw [hword] at hc
    cases hc

/-- What follows the first word of a type is no parenthesis, and if the first word is a mark, then
the name of a method would end the line. -/
theorem exclusive_typeNameAttribute_nameTypeMethod :
    Exclusive (accept (fullLine typeNameAttribute)) (accept (fullLine nameTypeMethod)) := by
  refine exclusive_of_forall fun line a b ha hb => ?_
  obtain ⟨r, hread, hr⟩ := accept_fullLine_eq_some_iff.mp ha
  obtain ⟨r', hread', -⟩ := accept_fullLine_eq_some_iff.mp hb
  simp only [typeNameAttribute, typeNameAttributeRest, bind_apply, Option.bind_eq_some_iff] at hread
  obtain ⟨⟨v, s₁⟩, hv, ⟨_, s⟩, hs, ⟨t, r₁⟩, ht, ⟨n, r₂⟩, hn, he⟩ := hread
  cases he
  rw [nameTypeMethod, bind_of_some hv, bind_of_some hs] at hread'
  simp only [bind_apply, Option.bind_eq_some_iff, spaces_apply] at hread'
  obtain ⟨⟨mark, t'⟩, hmark, ⟨n', y⟩, hn', ⟨_, y'⟩, hspaces, ⟨ps, r₃⟩, hps, -⟩ := hread'
  cases hspaces
  rcases name_of_abstractMark hmark hn' with hw | ⟨w, x, c, z, hw, hspaces, hx, hc⟩
  · obtain ⟨w, x, c, z, hw', hx, hc⟩ := followsWord_of_typeBefore ht hn
    rw [hw] at hw'
    cases hw'
    rw [parameterList_eq_none_of_followsWord hx hc] at hps
    cases hps
  · obtain ⟨w', x', hw', hx'⟩ := typeBefore_eq_some ht
    rw [hw] at hw'
    cases hw'
    rcases hx' with ⟨d, u, rfl, hd⟩ | hspaces'
    · rw [spaces1_eq_none (stops_cons.mpr (by rcases hd with rfl | rfl <;> rfl))] at hspaces
      cases hspaces
    · -- Both layouts take the second word for a name, and nothing but spaces follows it.
      rw [hspaces] at hspaces'
      cases hspaces'
      rw [hn] at hn'
      cases hn'
      have hnil : r₂.dropWhile isSpace = [] := by
        rw [← List.append_nil r₂, List.dropWhile_append_of_pos hr, List.dropWhile_nil]
      rw [hnil, parameterList_eq_none (stops_nil _)] at hps
      cases hps

/-- A parameter list at the end of a line excludes a type or a name there. -/
theorem exclusive_typeNameMethod :
    Exclusive (accept (fullLine nameTypeAttribute)) (accept (fullLine typeNameMethod)) ∧
      Exclusive (accept (fullLine typeNameAttribute)) (accept (fullLine typeNameMethod)) ∧
        Exclusive (accept (fullLine nameTypeMethod)) (accept (fullLine typeNameMethod)) :=
  ⟨EndsIn.nameTypeAttribute.exclusive .typeNameMethod (fun _ => isSpace_of_endsType)
      (fun _ => isSpace_of_eq_parenthesis) fun _ => ne_parenthesis_of_endsType,
    EndsIn.typeNameAttribute.exclusive .typeNameMethod (fun _ => isSpace_of_isWordChar)
      (fun _ => isSpace_of_eq_parenthesis) fun _ h => beq_false_of_isWordChar h (by decide),
    EndsIn.nameTypeMethod.exclusive .typeNameMethod (fun _ => isSpace_of_endsType)
      (fun _ => isSpace_of_eq_parenthesis) fun _ => ne_parenthesis_of_endsType⟩

/-! ### The readings of a line outside all bodies -/

theorem EndsIn.inlineAttribute : EndsIn isWordChar inlineAttribute :=
  bind .inlineTarget fun x => bind_pure (typeNameAttributeRest x.2) _

theorem EndsIn.inlineMethod : EndsIn (· == ')') inlineMethod :=
  bind .inlineTarget fun x => bind_pure (typeNameMethodRest x.2) _

theorem exclusive_inline :
    Exclusive (accept (fullLine inlineAttribute)) (accept (fullLine inlineMethod)) :=
  EndsIn.inlineAttribute.exclusive .inlineMethod (fun _ => isSpace_of_isWordChar)
    (fun _ => isSpace_of_eq_parenthesis) fun _ h => beq_false_of_isWordChar h (by decide)

end LineParser

/-- Neither a composition nor a plain association attaches a member. -/
theorem exclusive_inlineMember? :
    Exclusive inlineMember? composition? ∧ Exclusive inlineMember? plainAssociation? := by
  constructor
  · refine exclusive_of_forall fun line m r hm hr => ?_
    rw [inlineMember?_of_relation (fun u => (operators_colon u).1) hr] at hm
    cases hm
  · refine exclusive_of_forall fun line m r hm hr => ?_
    rw [inlineMember?_of_relation (fun u => (operators_colon u).2) hr] at hm
    cases hm

theorem exclusive_relations : Exclusive composition? plainAssociation? := by
  refine exclusive_of_forall fun line r q hr hq => ?_
  rw [plainAssociation?_of_composition? hr] at hq
  cases hq

/-- What excludes the members that a line attaches excludes either kind of them. -/
theorem exclusive_of_inlineMember? {β : Type} {h : List Char → Option β}
    (hx : Exclusive inlineMember? h) :
    Exclusive (accept (fullLine inlineAttribute)) h ∧ Exclusive inlineMethod? h := by
  constructor
  · intro line
    rcases hx line with hnone | hnone
    · exact Or.inl (Option.or_eq_none_iff.mp hnone).1
    · exact Or.inr hnone
  · intro line
    rcases hx line with hnone | hnone
    · exact Or.inl (Option.or_eq_none_iff.mp hnone).2
    · exact Or.inr hnone

/-! ### The grammars in any order -/

/-- The layouts of an attribute. -/
def attributeGrammars : List (List Char → Option MemberLine) :=
  [fun line => (accept (fullLine nameTypeAttribute) line).map .field,
    fun line => (accept (fullLine typeNameAttribute) line).map .field]

/-- The layouts of a method. -/
def methodGrammars : List (List Char → Option MemberLine) :=
  [fun line => (accept (fullLine nameTypeMethod) line).map .method,
    fun line => (accept (fullLine typeNameMethod) line).map .method]

/-- The layouts of a member that a line attaches to a type. -/
def inlineGrammars : List (List Char → Option InlineMember) :=
  [accept (fullLine inlineAttribute), accept (fullLine inlineMethod)]

/-- The things that a line outside all bodies may say. -/
def standaloneGrammars : List (Line → Option Standalone) :=
  [fun line => (accept (fullLine inlineAttribute) line.text).map (.inline · line.modifiers),
    fun line => (accept (fullLine inlineMethod) line.text).map (.inline · line.modifiers),
    fun line => (composition? line.text).map .composition,
    fun line => (plainAssociation? line.text).map .plain]

theorem pairwise_memberGrammars : (attributeGrammars ++ methodGrammars).Pairwise Exclusive := by
  obtain ⟨hfirst, hsecond, hthird⟩ := exclusive_typeNameMethod
  simp only [attributeGrammars, methodGrammars, List.cons_append, List.nil_append,
    List.pairwise_cons, List.mem_cons, List.not_mem_nil, or_false]
  refine ⟨?_, ?_, ?_, ?_, .nil⟩
  · rintro g (rfl | rfl | rfl)
    · exact exclusive_attributes.map id _ _
    · exact exclusive_nameType.map id _ _
    · exact hfirst.map id _ _
  · rintro g (rfl | rfl)
    · exact exclusive_typeNameAttribute_nameTypeMethod.map id _ _
    · exact hsecond.map id _ _
  · rintro g rfl
    exact hthird.map id _ _
  · rintro g ⟨⟩

/-- The layouts of a method exclude each other by themselves. -/
theorem pairwise_methodGrammars : methodGrammars.Pairwise Exclusive :=
  (List.pairwise_append.mp pairwise_memberGrammars).2.1

theorem pairwise_inlineGrammars : inlineGrammars.Pairwise Exclusive :=
  List.pairwise_pair.mpr exclusive_inline

theorem pairwise_standaloneGrammars : standaloneGrammars.Pairwise Exclusive := by
  obtain ⟨hcomposition, hplain⟩ := exclusive_inlineMember?
  obtain ⟨hfieldComposition, hmethodComposition⟩ := exclusive_of_inlineMember? hcomposition
  obtain ⟨hfieldPlain, hmethodPlain⟩ := exclusive_of_inlineMember? hplain
  simp only [standaloneGrammars, List.pairwise_cons, List.mem_cons, List.not_mem_nil, or_false]
  refine ⟨?_, ?_, ?_, ?_, .nil⟩
  · rintro g (rfl | rfl | rfl)
    · exact exclusive_inline.map Line.text _ _
    · exact hfieldComposition.map Line.text _ _
    · exact hfieldPlain.map Line.text _ _
  · rintro g (rfl | rfl)
    · exact hmethodComposition.map Line.text _ _
    · exact hmethodPlain.map Line.text _ _
  · rintro g rfl
    exact exclusive_relations.map Line.text _ _
  · rintro g ⟨⟩

/-! ### What a line says in the order of the reader -/

theorem findSome?_memberGrammars (line : List Char) :
    (attributeGrammars ++ methodGrammars).findSome? (fun g => g line) = memberLine? line := by
  simp only [attributeGrammars, methodGrammars, memberLine?, attributeLine?, methodLine?,
    List.cons_append, List.nil_append, List.findSome?_cons, List.findSome?_nil]
  cases accept (fullLine nameTypeAttribute) line <;>
    cases accept (fullLine typeNameAttribute) line <;>
      cases accept (fullLine nameTypeMethod) line <;>
        cases accept (fullLine typeNameMethod) line <;> rfl

theorem findSome?_methodGrammars (line : List Char) :
    methodGrammars.findSome? (fun g => g line) = (methodLine? line).map .method := by
  simp only [methodGrammars, methodLine?, List.findSome?_cons, List.findSome?_nil]
  cases accept (fullLine nameTypeMethod) line <;>
    cases accept (fullLine typeNameMethod) line <;> rfl

theorem findSome?_inlineGrammars (line : List Char) :
    inlineGrammars.findSome? (fun g => g line) = inlineMember? line := by
  simp only [inlineGrammars, inlineMember?, inlineMethod?, List.findSome?_cons,
    List.findSome?_nil]
  cases accept (fullLine inlineAttribute) line <;>
    cases accept (fullLine inlineMethod) line <;> rfl

theorem findSome?_standaloneGrammars (line : Line) :
    (standaloneGrammars.findSome? fun g => g line).getD (.unrecognized line.text) =
      Standalone.ofLine line := by
  simp only [standaloneGrammars, Standalone.ofLine, inlineMember?, inlineMethod?,
    List.findSome?_cons, List.findSome?_nil]
  cases accept (fullLine inlineAttribute) line.text <;>
    cases accept (fullLine inlineMethod) line.text <;>
      cases composition? line.text <;> cases plainAssociation? line.text <;> rfl

/-- **A line has one reading at most, and no order of the grammars gives it another one.** -/
theorem pairwise_exclusive_and_findSome?_of_perm :
    (attributeGrammars ++ methodGrammars).Pairwise Exclusive ∧
      standaloneGrammars.Pairwise Exclusive ∧
      (∀ gs : List (List Char → Option MemberLine), gs.Perm (attributeGrammars ++ methodGrammars) →
        ∀ line, gs.findSome? (fun g => g line) = memberLine? line) ∧
      (∀ gs : List (List Char → Option MemberLine), gs.Perm methodGrammars →
        ∀ line, gs.findSome? (fun g => g line) = (methodLine? line).map .method) ∧
      (∀ gs : List (List Char → Option InlineMember), gs.Perm inlineGrammars →
        ∀ line, gs.findSome? (fun g => g line) = inlineMember? line) ∧
      ∀ gs : List (Line → Option Standalone), gs.Perm standaloneGrammars → ∀ line,
        (gs.findSome? fun g => g line).getD (.unrecognized line.text) = Standalone.ofLine line := by
  refine ⟨pairwise_memberGrammars, pairwise_standaloneGrammars, ?_, ?_, ?_, ?_⟩
  · intro gs hgs line
    rw [findSome?_of_perm hgs pairwise_memberGrammars, findSome?_memberGrammars]
  · intro gs hgs line
    rw [findSome?_of_perm hgs pairwise_methodGrammars, findSome?_methodGrammars]
  · intro gs hgs line
    rw [findSome?_of_perm hgs pairwise_inlineGrammars, findSome?_inlineGrammars]
  · intro gs hgs line
    rw [findSome?_of_perm hgs pairwise_standaloneGrammars, findSome?_standaloneGrammars]

theorem findSome?_reverse_abstractLine :
    (attributeGrammars ++ methodGrammars).reverse.Perm (attributeGrammars ++ methodGrammars) ∧
      standaloneGrammars.reverse.Perm standaloneGrammars ∧
      (attributeGrammars ++ methodGrammars).reverse.findSome?
          (fun g => g "# abstract abstract()".toList) =
        some (.method { visibility := some .prot, isAbstract := true, name := "abstract",
                        returnType := none, parameters := [] }) ∧
      ((standaloneGrammars.reverse.findSome? fun g => g { text := "o o-- o : o".toList }).getD
          (.unrecognized "o o-- o : o".toList)) =
        .composition { left := "o", leftMultiplicity := none, separator := "o--",
                       rightMultiplicity := none, right := "o", label := some "o" } := by
  obtain ⟨-, -, hmembers, -, -, hstandalone⟩ := pairwise_exclusive_and_findSome?_of_perm
  have hmember := hmembers _ (List.reverse_perm _) "# abstract abstract()".toList
  have hline := hstandalone _ (List.reverse_perm _) { text := "o o-- o : o".toList }
  refine ⟨List.reverse_perm _, List.reverse_perm _, hmember.trans ?_, hline.trans ?_⟩
  · decide +kernel
  · decide +kernel

end ClassModel
