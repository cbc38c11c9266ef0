/-
Fields with initial values.

A field is described as it stands in a text: modifiers and a type, which are whatever the
grammar reads as such, and behind them names, each with dimensions and an initial value that
it may have.  What is said about such a text is that the grammar finds the names again, all
of them and in order, and that it does not take the text for another member.

A field is tried last but two among the members.  It is not taken for a nested type, since it
begins with no keyword of one, and not for a method, since no parenthesis stands behind its
first name.
-/
import ClassModel.Proofs.Source.Remainders
import ClassModel.Proofs.Source.Values

namespace ClassModel.Source

open Recogniser

variable {α : Type} {s t u g r rest : List Char} {n : Nat}

/-! ### Texts of fields -/

/-- What stands between two parts of a text: white space and comments, up to something else. -/
def Gap (g r : List Char) : Prop :=
  Trivia g ∧ Stops beginsTrivia r

/-- Array dimensions in a text, and what stands behind them. -/
inductive DimsText : Nat → List Char → List Char → Prop where
  | nil {r : List Char} : DimsText 0 r r
  | cons {n : Nat} {g h s r : List Char} (hg : Trivia g) (hh : Trivia h) (hr : DimsText n s r) :
      DimsText (n + 1) ('[' :: (g ++ ']' :: (h ++ s))) r

/-- An initial value that may be missing. -/
inductive ValueText (rest : List Char) : List Char → Prop where
  | none : ValueText rest rest
  | some {e : List Char} (he : InitialText rest e) : ValueText rest ('=' :: (e ++ rest))

/-- A name of a field with its dimensions and its initial value. -/
structure DeclaratorText (d : Declarator) (s rest : List Char) : Prop where
  identifier : IsIdentifier d.name.toList
  notReserved : d.name ∉ reservedWords
  behind : ∃ g t v, s = d.name.toList ++ (g ++ t) ∧ Trivia g ∧ DimsText d.dims t v ∧
    ValueText rest v

/-- The names of a field up to the semicolon. -/
inductive DeclaratorsText : List Declarator → List Char → List Char → Prop where
  | last {d : Declarator} {s g r : List Char} (hd : DeclaratorText d s (';' :: (g ++ r)))
      (hg : Gap g r) : DeclaratorsText [d] s r
  | more {d : Declarator} {ds : List Declarator} {s g t r : List Char}
      (hd : DeclaratorText d s (',' :: (g ++ t))) (hg : Trivia g) (hr : DeclaratorsText ds t r) :
      DeclaratorsText (d :: ds) s r

/-- A field in a text, and what stands behind it. -/
def FieldText (f : Field) (s r : List Char) : Prop :=
  ∃ t u, modifiers.cut s = some (f.modifiers, t) ∧ typeExpr.cut t = some (f.type, u) ∧
    DeclaratorsText f.declarators u r

/-! ### Single symbols and words -/

theorem Gap.cut_token (h : Gap g r) (c : Char) : (token [c]).cut (c :: (g ++ r)) = some ((), r) := by
  have hliteral : (literal [c]).cut (c :: (g ++ r)) = some ((), g ++ r) := cut_literal_append [c] _
  rw [token, cut_bind_unit, hliteral, Option.bind_some, cut_trivia h.1 h.2]

theorem token_fails {c : Char} (h : Stops (· == c) s) (w : List Char) :
    (token (c :: w)).cut s = none := by
  rw [token, cut_bind_unit, cut_literal_of_stops h, Option.bind_none]

/-- A sign is not read where it does not stand. -/
theorem token_fails_of_forall {c : Char} (h : ∀ t, s ≠ c :: t) : (token [c]).cut s = none := by
  refine token_fails ?_ []
  cases s with
  | nil => exact stops_nil _
  | cons d t =>
      refine stops_mark ?_
      rintro rfl
      exact h t rfl

theorem rawIdentifier_fails (h : Stops isIdentifierStart s) : rawIdentifier.cut s = none := by
  rw [rawIdentifier, cut_bind, cut_satisfy_of_stops h, Option.bind_none]

theorem keyword_none (h : Stops isIdentifierStart s) (word : String) :
    (keyword word).cut s = none := by
  rw [keyword, cut_bind_unit, cut_check, rawIdentifier_fails h]
  rfl

theorem keyword_fails {w word : String} (h : rawIdentifier.cut s = some (w, r)) (hne : w ≠ word) :
    (keyword word).cut s = none := by
  rw [keyword, cut_bind_unit, cut_check, h, Option.bind_some, if_neg hne]
  rfl

/-- Where neither a word nor an annotation begins, there are no modifiers. -/
theorem modifiers_none (hstart : Stops isIdentifierStart s) (hat : Stops (· == '@') s) :
    modifiers.cut s = some ([], s) := by
  have hsealed : Stops (· == 'n') s := by
    intro c hc
    refine beq_eq_false_iff_ne.mpr ?_
    rintro rfl
    exact absurd (hstart 'n' hc) (by decide)
  have hannotation : annotation.cut s = none := by
    rw [ annotation, cut_bind, cut_satisfy_of_stops hat, Option.bind_none]
  have hmodifier : modifier.cut s = none := by
    have hliteral : (literal "non-sealed".toList).cut s = none :=
      cut_literal_of_stops hsealed "on-sealed".toList
    rw [modifier, cut_bind, cut_orElse, cut_bind_unit, hliteral, cut_check,
      rawIdentifier_fails hstart]
    rfl
  rw [modifiers, cut_many_bind, cut_many_of_none]
  · rfl
  · rw [cut_orElse, cut_bind_unit, hannotation, map_eq_pure_bind, cut_bind, hmodifier]
    rfl

/-! ### What a type begins with -/

/-- The first word of a type is no keyword. -/
theorem exists_word_of_cut_typeExpr {type : TypeExpr} (h : typeExpr.cut s = some (type, r)) :
    ∃ w t, rawIdentifier.cut s = some (w, t) ∧ (w ∈ primitiveNames ∨ w ∉ reservedWords) := by
  rw [typeExpr_eq, cut_unroll_length, cut_unroll_succ, typeStep, cut_orElse,
    Option.or_eq_some_iff] at h
  rcases h with hp | ⟨-, hc⟩
  · rw [cut_bind, Option.bind_eq_some_iff] at hp
    obtain ⟨⟨name, t⟩, hname, -⟩ := hp
    rw [primitiveName, cut_bind, Option.bind_eq_some_iff] at hname
    obtain ⟨⟨name, t⟩, hcheck, -⟩ := hname
    obtain ⟨w, hw, hok⟩ := cut_check_eq_some_iff.mp hcheck
    refine ⟨w, t, hw, Or.inl ?_⟩
    split at hok
    · rename_i hmem
      simpa using hmem
    · cases hok
  · rw [cut_bind, Option.bind_eq_some_iff] at hc
    obtain ⟨⟨segments, t⟩, hsegments, -⟩ := hc
    rw [sepBy1, cut_bind, Option.bind_eq_some_iff] at hsegments
    obtain ⟨⟨segment, t⟩, hsegment, -⟩ := hsegments
    rw [typeSegment, cut_bind, Option.bind_eq_some_iff] at hsegment
    obtain ⟨⟨name, t⟩, hname, -⟩ := hsegment
    rw [identifier, cut_bind, Option.bind_eq_some_iff] at hname
    obtain ⟨⟨name, t⟩, hcheck, -⟩ := hname
    obtain ⟨w, hw, hok⟩ := cut_check_eq_some_iff.mp hcheck
    refine ⟨w, t, hw, Or.inr ?_⟩
    split at hok
    · cases hok
    · rename_i hmem
      simpa using hmem

theorem typeExpr_fails (h : Stops isIdentifierStart s) : typeExpr.cut s = none := by
  cases hcut : typeExpr.cut s with
  | none => rfl
  | some x =>
      obtain ⟨w, t, hw, -⟩ := exists_word_of_cut_typeExpr hcut
      rw [rawIdentifier_fails h] at hw
      cases hw

/-- A primitive type in front of something else. -/
theorem cut_typeExpr_primitive {name : String}
    (h : (primitiveName >>= fun name => dims >>= fun n => pure (name, n)).cut s =
      some ((name, n), r)) : typeExpr.cut s = some (.primitive name n, r) := by
  rw [cut_bind, Option.bind_eq_some_iff] at h
  obtain ⟨⟨_, t⟩, hname, h⟩ := h
  rw [cut_bind, Option.bind_eq_some_iff] at h
  obtain ⟨⟨_, _⟩, hdims, he⟩ := h
  cases he
  rw [typeExpr_eq, cut_unroll_length, cut_unroll_succ, typeStep, cut_orElse, cut_bind, hname,
    Option.bind_some, cut_bind, hdims]
  rfl

/-- Type parameters may be missing. -/
theorem cut_optional_typeParameters (h : Stops (· == '<') s) :
    (optional typeParameters).cut s = some (none, s) := by
  rw [cut_optional, typeParameters, cut_bind_unit, angleGroup_fails h]
  rfl

/-! ### Reading names -/

section Names

variable {d : Declarator} {ds : List Declarator}

/-- What stands behind a name and its dimensions. -/
def endsName (c : Char) : Bool :=
  c == '=' || c == ',' || c == ';'

theorem ValueText.head (h : ValueText rest s) (hrest : EndsValue rest) :
    ∃ c v, s = c :: v ∧ endsName c = true := by
  cases h with
  | none =>
      obtain ⟨c, v, rfl, hc⟩ := hrest
      exact ⟨c, v, rfl, (by decide : ∀ c ∈ [',', ';'], endsName c = true) c hc⟩
  | some => exact ⟨'=', _, rfl, rfl⟩

/-- Neither white space nor a parenthesis stands behind a name and the gap behind it. -/
theorem DimsText.stops (h : DimsText n s r) {q : Char → Bool}
    (hq : ∀ c ∈ ['[', '=', ',', ';'], q c = false) (hr : ∃ c v, r = c :: v ∧ endsName c = true) :
    Stops q s := by
  cases h with
  | nil =>
      obtain ⟨c, v, rfl, hc⟩ := hr
      refine stops_cons.mpr (hq c ?_)
      simp only [endsName, Bool.or_eq_true, beq_iff_eq] at hc
      rcases hc with (rfl | rfl) | rfl <;> decide
  | cons => exact stops_cons.mpr (hq '[' (by decide))

theorem DimsText.cut_dims (h : DimsText n s r) (hr : ∃ c v, r = c :: v ∧ endsName c = true) :
    dims.cut s = some (n, r) := by
  have hmany : ∃ us : List Unit, us.length = n ∧
      cut (many (token ['['] >>= fun _ => token [']'])) s = some (us, r) := by
    induction h with
    | nil =>
        obtain ⟨c, v, rfl, hc⟩ := hr
        refine ⟨[], rfl, cut_many_of_none ?_⟩
        have hstop : Stops (· == '[') (c :: v) := by
          refine stops_mark ?_
          rintro rfl
          cases hc
        rw [cut_bind_unit, token_fails hstop, Option.bind_none]
    | @cons n g k s r hg hk hs ih =>
        obtain ⟨us, hlen, ih⟩ := ih hr
        have hclosing : Gap k s := ⟨hk, hs.stops (by decide) hr⟩
        have hopening : Gap g (']' :: (k ++ s)) := ⟨hg, stops_cons.mpr (by decide)⟩
        have hpair : (token ['['] >>= fun _ => token [']']).cut ('[' :: (g ++ ']' :: (k ++ s))) =
            some ((), s) := by
          rw [cut_bind_unit, hopening.cut_token, Option.bind_some, hclosing.cut_token]
        refine ⟨() :: us, by rw [List.length_cons, hlen], ?_⟩
        have hconsumes := (consumes_token '[' []).bind fun _ => (consumes_token ']' []).trims
        rw [hconsumes.cut_many hpair, ih]
        rfl
  obtain ⟨us, hlen, hmany⟩ := hmany
  rw [dims, cut_many_bind, hmany, Option.bind_some, hlen]
  rfl

/-- A word that goes on with nothing is read as a name. -/
theorem cut_identifier {w : String} (hw : IsIdentifier w.toList) (hfree : w ∉ reservedWords)
    (hg : Gap g t) (ht : Stops isIdentifierContinue t) :
    identifier.cut (w.toList ++ (g ++ t)) = some (w, t) := by
  have hend : Stops isIdentifierContinue (g ++ t) := by
    rcases hg.1.eq_nil_or with rfl | ⟨c, v, rfl, hc⟩
    · exact ht
    · exact stops_isIdentifierContinue (stops_cons.mpr (Token.not_goesOn_of_beginsTrivia hc))
  rw [identifier, cut_bind, cut_check, cut_rawIdentifier hw hend, Option.bind_some,
    String.ofList_toList, if_neg (by simpa using hfree)]
  show (trivia >>= fun _ => pure w).cut (g ++ t) = _
  rw [cut_bind_unit, cut_trivia hg.1 hg.2]
  rfl

theorem DeclaratorText.cut_identifier (h : DeclaratorText d s rest) (hrest : EndsValue rest) :
    ∃ t v, Source.identifier.cut s = some (d.name, t) ∧ Stops (· == '(') t ∧ DimsText d.dims t v ∧
      ValueText rest v := by
  obtain ⟨hw, hfree, g, t, v, rfl, hg, hdims, hvalue⟩ := h
  have hv := hvalue.head hrest
  have hname := Source.cut_identifier hw hfree ⟨hg, hdims.stops (by decide) hv⟩
    (hdims.stops (by decide) hv)
  exact ⟨t, v, hname, hdims.stops (by decide) hv, hdims, hvalue⟩

/-- A name is read with its dimensions, and its initial value is skipped. -/
theorem DeclaratorText.cut_declarator (h : DeclaratorText d s rest) (hrest : EndsValue rest) :
    declarator.cut s = some (d, rest) := by
  obtain ⟨t, v, hname, -, hdims, hvalue⟩ := h.cut_identifier hrest
  rw [declarator, cut_bind, hname, Option.bind_some, cut_bind, hdims.cut_dims (hvalue.head hrest),
    Option.bind_some, cut_bind, cut_optional]
  cases hvalue with
  | none =>
      obtain ⟨c, v, rfl, hc⟩ := hrest
      have hstop : Stops (· == '=') (c :: v) := by
        refine stops_mark ?_
        rintro rfl
        exact absurd hc (by decide)
      rw [cut_bind_unit, token_fails hstop]
      rfl
  | some he =>
      rw [he.cut_value hrest]
      rfl

/-- A name begins with one of its characters. -/
theorem DeclaratorText.stops (h : DeclaratorText d s rest) : Stops beginsTrivia s := by
  obtain ⟨⟨c, v, he, hc, -⟩, -, g, t, v', rfl, -⟩ := h
  rw [he, List.cons_append]
  refine stops_cons.mpr ?_
  rw [← Bool.not_eq_true]
  intro hb
  rw [Token.not_isIdentifierStart_of_beginsTrivia hb] at hc
  cases hc

theorem endsValue_cons {c : Char} (hc : c ∈ [',', ';']) (r : List Char) : EndsValue (c :: r) :=
  ⟨c, r, rfl, hc⟩

theorem DeclaratorsText.stops (h : DeclaratorsText ds s r) : Stops beginsTrivia s := by
  cases h with
  | last hd => exact hd.stops
  | more hd => exact hd.stops

/-- The first of the names. -/
theorem DeclaratorsText.exists_first (h : DeclaratorsText ds s r) :
    ∃ d rest, DeclaratorText d s rest ∧ EndsValue rest := by
  cases h with
  | last hd => exact ⟨_, _, hd, endsValue_cons (by decide) _⟩
  | more hd => exact ⟨_, _, hd, endsValue_cons (by decide) _⟩

/-- The names are read up to the semicolon, all of them and in order. -/
theorem DeclaratorsText.cut_declarators (h : DeclaratorsText ds s r) :
    ∃ t, (sepBy1 declarator (token [','])).cut s = some (ds, t) ∧
      (token [';']).cut t = some ((), r) := by
  suffices hread : ∃ d ds' t u, ds = d :: ds' ∧ declarator.cut s = some (d, t) ∧
      cut (many (token [','] >>= fun _ => declarator)) t = some (ds', u) ∧
        (token [';']).cut u = some ((), r) by
    obtain ⟨d, ds', t, u, rfl, hfirst, hmany, hend⟩ := hread
    refine ⟨u, ?_, hend⟩
    rw [sepBy1, cut_bind, hfirst, Option.bind_some, cut_many_bind, hmany]
    rfl
  induction h with
  | @last d s g r hd hg =>
      refine ⟨d, [], _, _, rfl, hd.cut_declarator (endsValue_cons (by decide) _),
        cut_many_of_none ?_, hg.cut_token ';'⟩
      rw [cut_bind_unit, token_fails (stops_mark (by decide)), Option.bind_none]
  | @more d ds s g t r hd hg hr ih =>
      obtain ⟨d', ds', t', u, rfl, hfirst, hmany, hend⟩ := ih
      have hgap : Gap g t := ⟨hg, hr.stops⟩
      have hnext : (token [','] >>= fun _ => declarator).cut (',' :: (g ++ t)) = some (d', t') := by
        rw [cut_bind_unit, hgap.cut_token, Option.bind_some, hfirst]
      have hconsumes := (consumes_token ',' []).bind fun _ => trims_declarator
      refine ⟨d, d' :: ds', _, u, rfl, hd.cut_declarator (endsValue_cons (by decide) _), ?_, hend⟩
      rw [hconsumes.cut_many hnext, hmany]
      rfl

end Names

/-! ### Reading fields -/

section Fields

variable {f : Field}

/-- A field is read behind its modifiers. -/
theorem DeclaratorsText.cut_field {type : TypeExpr} {ds : List Declarator} (ms : List Modifier)
    (htype : typeExpr.cut s = some (type, t)) (h : DeclaratorsText ds t r) :
    (field ms).cut s = some (.field { modifiers := ms, type, declarators := ds }, r) := by
  obtain ⟨u, hdeclarators, hend⟩ := h.cut_declarators
  rw [field, cut_bind, htype, Option.bind_some, cut_bind, hdeclarators, Option.bind_some,
    cut_bind, hend]
  rfl

/-- A field is no method: no parenthesis stands behind its first name. -/
theorem DeclaratorsText.method_fails {type : TypeExpr} {ds : List Declarator} (ms : List Modifier)
    (htype : typeExpr.cut s = some (type, t)) (h : DeclaratorsText ds t r) :
    (method ms).cut s = none := by
  obtain ⟨w, v, hw, hword⟩ := exists_word_of_cut_typeExpr htype
  obtain ⟨d, rest, hd, hrest⟩ := h.exists_first
  obtain ⟨u, -, hname, hparenthesis, -⟩ := hd.cut_identifier hrest
  have hangle : Stops (· == '<') s := by
    cases s with
    | nil => exact stops_nil _
    | cons c s =>
        refine stops_mark ?_
        rintro rfl
        have hfails := rawIdentifier_fails (s := '<' :: s) (stops_cons.mpr (by decide))
        rw [hw] at hfails
        cases hfails
  have hvoid : (keyword "void").cut s = none := by
    refine keyword_fails hw ?_
    rintro rfl
    exact absurd hword (by decide)
  have hresult : resultOf.cut s = some (some type, t) := by
    rw [resultOf, cut_orElse, cut_bind_unit, hvoid, Option.bind_none, Option.none_or,
      map_eq_pure_bind, cut_bind, htype]
    rfl
  have hformals : formals.cut u = none := by
    rw [formals, cut_bind_unit, token_fails hparenthesis, Option.bind_none]
  show ((optional typeParameters) >>= fun _ => resultOf >>= _).cut s = none
  rw [cut_bind, cut_optional_typeParameters hangle, Option.bind_some, cut_bind, hresult,
    Option.bind_some, cut_bind, hname, Option.bind_some, cut_bind, hformals, Option.bind_none]

/-- A text behind whose modifiers a type stands begins no declaration. -/
theorem declaration_fails_of_type {ms : List Modifier} {type : TypeExpr}
    (hmodifiers : modifiers.cut s = some (ms, t)) (htype : typeExpr.cut t = some (type, u)) :
    declaration.cut s = none := by
  obtain ⟨w, v, hw, hword⟩ := exists_word_of_cut_typeExpr htype
  have hkeyword : ∀ word ∈ ["class", "interface", "enum"], (keyword word).cut t = none := by
    intro word hmem
    refine keyword_fails hw ?_
    rintro rfl
    exact (by decide : ∀ w ∈ ["class", "interface", "enum"],
      ¬(w ∈ primitiveNames ∨ w ∉ reservedWords)) w hmem hword
  rw [cut_declaration, declarationStep, cut_bind, hmodifiers, Option.bind_some, cut_orElse,
    cut_orElse, classDeclaration, interfaceDeclaration, enumDeclaration, cut_bind, cut_bind,
    cut_bind, hkeyword "class" (by decide), hkeyword "interface" (by decide), hkeyword "enum" (by decide)]
  rfl

/-- Where a semicolon stands, no type stands behind modifiers. -/
theorem stray_fails_of_type {ms : List Modifier} {type : TypeExpr}
    (hmodifiers : modifiers.cut s = some (ms, t)) (htype : typeExpr.cut t = some (type, u)) :
    (token [';']).cut s = none := by
  refine token_fails_of_forall ?_
  rintro v rfl
  have hstart : Stops isIdentifierStart (';' :: v) := stops_cons.mpr (by decide)
  rw [modifiers_none hstart (stops_mark (by decide))] at hmodifiers
  cases hmodifiers
  rw [typeExpr_fails hstart] at htype
  cases htype

/-- **A field is read as it stands**, with all its names in order. -/
theorem FieldText.cut_member (h : FieldText f s r) :
    (member declaration).cut s = some (some (.field f), r) := by
  obtain ⟨t, u, hmodifiers, htype, hdeclarators⟩ := h
  have hfield := hdeclarators.cut_field f.modifiers htype
  rw [member, cut_orElse, cut_orElse, cut_bind, stray_fails_of_type hmodifiers htype, cut_bind,
    declaration_fails_of_type hmodifiers htype, cut_bind, hmodifiers]
  show ((kinds f.modifiers >>= fun m => pure (some m)).cut t) = _
  rw [cut_bind, kinds, cut_orElse, hdeclarators.method_fails f.modifiers htype, Option.none_or,
    cut_orElse, hfield]
  rfl

end Fields

end ClassModel.Source
