/-
Reading members.

The alternatives of a member are told apart by a token in the middle: a method by the
parenthesis behind its name, a field by the name behind its type, and a constructor is what
has a parenthesis behind its first word.  So an alternative that is tried too early reads a
type and sometimes a name, and then fails on a token that is known.

A member of each kind is read in front of anything, since each ends with a semicolon or a
brace.
-/
import ClassModel.Proofs.Source.Types

namespace ClassModel.Source

open Recogniser

variable {us : List Token}

/-! ### Clauses -/

/-- The tokens of a clause, which is left out if it lists nothing. -/
def clauseTokens (word : String) : List ClassType → List Token
  | [] => []
  | t :: r => .word word :: separated [','] classTypeTokens (t :: r)

/-- Tokens that a list of class types does not go on with. -/
def EndsTypes (us : List Token) : Prop :=
  EndsType us ∧ Heads (fun t => t.mayBegin ',' = false) us

theorem reads_classTypes {ts : List ClassType} (hne : ts ≠ []) (hts : ∀ t ∈ ts, ProperClass t)
    (hus : EndsTypes us) :
    Reads classTypes (separated [','] classTypeTokens ts ++ us) ts us :=
  Reads.sepBy1 (F := EndsType) (fun _ => heads_cons.mpr ⟨rfl, rfl, Or.inl rfl⟩) hus.1
    (Fails.bind (fails_token hus.2)) hne fun t ht _ hws => reads_classType (hts t ht) hws

theorem reads_noClause {word : String} (hword : Heads (Token.IsNot word) us) :
    Reads (clause word) us [] us :=
  (Fails.optional (Fails.bind (fails_keyword hword))).bind (.pure _ _)

theorem reads_clause (word : String) {ts : List ClassType} (hts : ∀ t ∈ ts, ProperClass t)
    (hus : EndsTypes us) (hword : Heads (Token.IsNot word) us) :
    Reads (clause word) (clauseTokens word ts ++ us) ts us := by
  cases ts with
  | nil => exact reads_noClause hword
  | cons t r =>
      have hlist := reads_classTypes (List.cons_ne_nil t r) hts hus
      exact (Reads.optional ((reads_keyword word _).bind hlist)).bind (.pure _ _)

/-! ### Parameters -/

/-- The tokens of a parameter. -/
def Formal.tokens (f : Formal) : List Token :=
  match f.type with
  | some t => t.tokens ++ ((if f.varargs then [.symbol ['.', '.', '.']] else []) ++ [.word f.name])
  | none => [.word f.name]

/-- A parameter of names; one without a type stands for one value. -/
structure Formal.Proper (f : Formal) : Prop where
  name : IsName f.name
  type : ∀ t ∈ f.type, t.Proper
  single : f.type = none → f.varargs = false

/-- No modifier is a name. -/
theorem IsName.not_modifier {w : String} (h : IsName w) : Modifier.ofKeyword? w = none := by
  have hall : ∀ m ∈ Modifier.all, m.keyword ∈ reservedWords ∨ m.keyword = "sealed" ∨
      '-' ∈ m.keyword.toList := by
    decide
  refine List.find?_eq_none.mpr fun m hm => ?_
  rw [decide_eq_true_eq]
  rintro rfl
  rcases hall m hm with hr | hs | hd
  · exact h.notReserved hr
  · exact h.notSealed hs
  · obtain ⟨c, r, he, hc, hr⟩ := h.identifier
    rw [he] at hd
    have hhyphen : isIdentifierStart '-' = false ∧ isIdentifierContinue '-' = false := by decide
    rcases List.mem_cons.mp hd with rfl | hd
    · rw [hhyphen.1] at hc
      cases hc
    · have := hr _ hd
      rw [hhyphen.2] at this
      cases this

theorem IsTypeWord.not_modifier {w : String} (h : IsTypeWord w) :
    Modifier.ofKeyword? w = none := by
  have hall : ∀ v ∈ primitiveNames, Modifier.ofKeyword? v = none := by
    decide
  exact h.elim (hall w) IsName.not_modifier

theorem noModifier_word {w : String} (h : Modifier.ofKeyword? w = none) :
    (Token.word w).NoModifier := by
  refine ⟨rfl, by simp, fun v hv => ?_⟩
  cases hv
  exact h

theorem noModifier_tokens {t : TypeExpr} (ht : t.Proper) :
    Heads Token.NoModifier (t.tokens ++ us) := by
  obtain ⟨w, r, he, hw⟩ := ht.exists_cons
  rw [he, List.cons_append, heads_cons]
  exact noModifier_word hw.not_modifier

/-- Behind a type stands a word or an ellipsis. -/
theorem endsType_word (w : String) : EndsType (.word w :: us) := by
  have hno : isIdentifierStart '[' = false ∧ isIdentifierStart '<' = false ∧
      isIdentifierStart '.' = false := by decide
  exact heads_cons.mpr ⟨hno.1, hno.2.1, Or.inl hno.2.2⟩

theorem reads_name {w : String} (hw : IsName w) : Reads identifier (.word w :: us) w us :=
  reads_identifier hw.notReserved us

/-- Tokens that end a name and a type: a symbol that neither goes on with. -/
structure Ends (us : List Token) : Prop where
  wordless : Wordless us
  noBracket : Heads (fun t => t.mayBegin '[' = false) us
  noAngle : Heads (fun t => t.mayBegin '<' = false) us
  noDot : Heads (fun t => t.mayBegin '.' = false) us

theorem Ends.endsType (h : Ends us) : EndsType us :=
  fun t ht => ⟨h.noBracket t ht, h.noAngle t ht, Or.inl (h.noDot t ht)⟩

theorem ends_comma : Ends (.symbol [','] :: us) := by
  refine ⟨?_, ?_, ?_, ?_⟩ <;> exact heads_cons.mpr rfl

theorem ends_parenthesis : Ends (.symbol [')'] :: us) := by
  refine ⟨?_, ?_, ?_, ?_⟩ <;> exact heads_cons.mpr rfl

/-- A name alone reads as a type. -/
theorem reads_typeExpr_name {w : String} (hw : IsName w) (hus : EndsType us) :
    Reads typeExpr (.word w :: us) (.reference [.plain w] 0) us := by
  have hproper : (TypeExpr.reference [.plain w] 0).Proper := by
    rw [TypeExpr.Proper, properSegments_iff]
    refine ⟨List.cons_ne_nil _ _, fun s hs => ?_⟩
    rcases List.mem_singleton.mp hs with rfl
    rw [TypeSegment.Proper]
    exact hw
  have htokens : (TypeExpr.reference [.plain w] 0).tokens = [.word w] := by
    simp [TypeExpr.tokens, classTypeTokens, segmentsTokens, TypeSegment.tokens, dimsTokens]
  have hread := reads_typeExpr (TypeExpr.Proper.named _ hproper) hus
  rw [htokens] at hread
  exact hread

/-- A name without a type is no parameter with a type, since no name follows it. -/
theorem fails_typedFormal {w : String} (hw : IsName w) (hus : Ends us) :
    Fails typedFormal (.word w :: us) := by
  have hdots : Reads (Recogniser.optional (token ['.', '.', '.'])) us none us :=
    Fails.optional (fails_token hus.noDot)
  exact (reads_typeExpr_name hw hus.endsType).bind_fails
    (hdots.bind_fails (Fails.bind hus.wordless.identifier))

/-- The ellipsis of a parameter. -/
theorem reads_ellipsis (varargs : Bool) (w : String) (us : List Token) :
    ∃ o, Reads (Recogniser.optional (token ['.', '.', '.']))
      ((if varargs then [.symbol ['.', '.', '.']] else []) ++ .word w :: us) o (.word w :: us) ∧
        o.isSome = varargs := by
  cases varargs with
  | false =>
      have hno : isIdentifierStart '.' = false := by decide
      exact ⟨none, Fails.optional (fails_token (heads_cons.mpr hno)), rfl⟩
  | true => exact ⟨some (), (reads_token _).optional, rfl⟩

theorem reads_typedFormal {t : TypeExpr} {name : String} (varargs : Bool) (ht : t.Proper)
    (hname : IsName name) (hus : Ends us) :
    Reads typedFormal
      (t.tokens ++ ((if varargs then [.symbol ['.', '.', '.']] else []) ++ .word name :: us))
      ⟨some t, name, varargs⟩ us := by
  have hends : EndsType ((if varargs then [.symbol ['.', '.', '.']] else []) ++ .word name :: us) := by
    cases varargs with
    | false => exact endsType_word name
    | true => exact heads_cons.mpr ⟨rfl, rfl, Or.inr rfl⟩
  obtain ⟨o, hdots, ho⟩ := reads_ellipsis varargs name us
  have haddDims : t.addDims 0 = t := by cases t <;> rfl
  have hvalue : (⟨some (t.addDims 0), name, o.isSome⟩ : Formal) = ⟨some t, name, varargs⟩ := by
    rw [haddDims, ho]
  refine (reads_typeExpr (TypeExpr.Proper.named _ ht) hends).bind (hdots.bind ((reads_name hname).bind
    ((reads_dims 0 hus.noBracket).bind ?_)))
  rw [hvalue]
  exact Reads.pure _ us

/-- A parameter in front of a comma or the closing parenthesis. -/
theorem reads_formal {f : Formal} (hf : f.Proper) (hus : Ends us) :
    Reads formal (f.tokens ++ us) f us := by
  obtain ⟨type, name, varargs⟩ := f
  have hname : IsName name := hf.name
  cases type with
  | none =>
      obtain rfl : varargs = false := hf.single rfl
      have hmodifiers : Reads modifiers (.word name :: us) [] (.word name :: us) :=
        reads_modifiers [] (heads_cons.mpr (noModifier_word hname.not_modifier))
      exact hmodifiers.bind (Fails.orElse_reads (fails_typedFormal hname hus)
        ((reads_name hname).bind (.pure _ _)))
  | some t =>
      have ht : t.Proper := hf.type t rfl
      have htokens : Formal.tokens ⟨some t, name, varargs⟩ ++ us =
          t.tokens ++ ((if varargs then [.symbol ['.', '.', '.']] else []) ++ .word name :: us) := by
        simp [Formal.tokens]
      rw [htokens]
      exact (reads_modifiers [] (noModifier_tokens ht)).bind
        (Reads.orElse (reads_typedFormal varargs ht hname hus))

/-- The tokens of a parameter list. -/
def formalsTokens (fs : List Formal) : List Token :=
  .symbol ['('] :: separated [','] Formal.tokens fs ++ [.symbol [')']]

theorem reads_formals {fs : List Formal} (hfs : ∀ f ∈ fs, f.Proper) :
    Reads formals (formalsTokens fs ++ us) fs us := by
  have hwordless : Wordless (.symbol [')'] :: us) := heads_cons.mpr rfl
  have hnone : Fails formal (.symbol [')'] :: us) := by
    refine (reads_modifiers [] hwordless.noModifier).bind_fails (Fails.orElse ?_ ?_)
    · exact Fails.bind (fails_typeExpr hwordless)
    · exact Fails.bind hwordless.identifier
  have hlist : Reads (sepBy formal (token [',']))
      (separated [','] Formal.tokens fs ++ .symbol [')'] :: us) fs (.symbol [')'] :: us) :=
    Reads.sepBy (F := Ends) (fun _ => ends_comma) ends_parenthesis
      (Fails.bind (fails_token (heads_cons.mpr rfl))) hnone fun f hf _ hws =>
        reads_formal (hfs f hf) hws
  rw [formalsTokens, List.cons_append, List.cons_append, List.append_assoc, List.singleton_append]
  exact (reads_token _).bind (hlist.bind ((reads_token _).bind (.pure _ _)))

/-! ### Fields, methods and constructors -/

/-- The tokens of a declared name. -/
def Declarator.tokens (d : Declarator) : List Token :=
  .word d.name :: dimsTokens d.dims

/-- The tokens of a field behind its modifiers. -/
def Field.rest (f : Field) : List Token :=
  f.type.tokens ++ (separated [','] Declarator.tokens f.declarators ++ [.symbol [';']])

/-- A field of names, at least one. -/
structure Field.Proper (f : Field) : Prop where
  type : f.type.Proper
  ne_nil : f.declarators ≠ []
  declarators : ∀ d ∈ f.declarators, IsName d.name

/-- The tokens of a result. -/
def resultTokens : Option TypeExpr → List Token
  | some t => t.tokens
  | none => [.word "void"]

/-- The tokens of a method behind its modifiers. -/
def Procedure.rest (p : Procedure) : List Token :=
  resultTokens p.result ++ .word p.name :: (formalsTokens p.parameters ++ [.ending])

/-- A method of names. -/
structure Procedure.Proper (p : Procedure) : Prop where
  result : ∀ t ∈ p.result, t.Proper
  name : IsName p.name
  parameters : ∀ f ∈ p.parameters, f.Proper

/-- The tokens of a constructor. -/
def constructorTokens (name : String) : List Token :=
  .word name :: (formalsTokens [] ++ [.block])

/-- What the result of a method may begin with. -/
theorem exists_result_cons {o : Option TypeExpr} (ho : ∀ t ∈ o, t.Proper) :
    ∃ w r, resultTokens o = .word w :: r ∧ (w = "void" ∨ IsTypeWord w) := by
  cases o with
  | none => exact ⟨"void", [], rfl, Or.inl rfl⟩
  | some t =>
      obtain ⟨w, r, he, hw⟩ := (ho t rfl).exists_cons
      exact ⟨w, r, he, Or.inr hw⟩

theorem reads_noTypeParameters {w : String} :
    Reads (Recogniser.optional typeParameters) (.word w :: us) none (.word w :: us) := by
  have hno : isIdentifierStart '<' = false := by decide
  exact Fails.optional (fails_typeParameters (heads_cons.mpr hno))

/-- The result of a method. -/
def resultOf : Recogniser (Option TypeExpr) :=
  (keyword "void" >>= fun _ => pure none) <|> some <$> typeExpr

theorem reads_result {o : Option TypeExpr} (ho : ∀ t ∈ o, t.Proper) (hus : EndsType us) :
    Reads resultOf (resultTokens o ++ us) o us := by
  cases o with
  | none => exact Reads.orElse ((reads_keyword "void" us).bind (.pure _ _))
  | some t =>
      have ht : t.Proper := ho t rfl
      obtain ⟨w, r, he, hw⟩ := ht.exists_cons
      have hvoid : Fails (keyword "void") (t.tokens ++ us) := by
        rw [he]
        refine fails_keyword (heads_cons.mpr ⟨rfl, fun h => ?_⟩)
        exact hw.ne (by decide) (by decide) (Option.some.inj h)
      exact Fails.orElse_reads hvoid.bind (reads_typeExpr (TypeExpr.Proper.named _ ht) hus).map

/-- The end of a method goes on with nothing. -/
theorem ends_ending (us : List Token) : Ends (.ending :: us) ∧ EndsTypes (.ending :: us) := by
  have hends : Ends (.ending :: us) := by
    refine ⟨?_, ?_, ?_, ?_⟩ <;> exact heads_cons.mpr rfl
  exact ⟨hends, hends.endsType, heads_cons.mpr rfl⟩

/-- Behind its modifiers a method is read in front of anything. -/
theorem reads_method (ms : List Modifier) {p : Procedure} (hms : p.modifiers = ms) (hp : p.Proper) :
    Reads (method ms) (p.rest ++ us) (.method p) us := by
  obtain ⟨modifiers, result, name, parameters⟩ := p
  obtain rfl : modifiers = ms := hms
  obtain ⟨hends, hendsTypes⟩ := ends_ending us
  have hresult : Reads resultOf
      (resultTokens result ++ (.word name :: (formalsTokens parameters ++ .ending :: us))) result
      (.word name :: (formalsTokens parameters ++ .ending :: us)) :=
    reads_result hp.result (endsType_word name)
  have hnone : Reads (Recogniser.optional typeParameters)
      (resultTokens result ++ (.word name :: (formalsTokens parameters ++ .ending :: us))) none
      (resultTokens result ++ (.word name :: (formalsTokens parameters ++ .ending :: us))) := by
    obtain ⟨w, r, he, -⟩ := exists_result_cons hp.result
    rw [he]
    exact reads_noTypeParameters
  have hthrows : Reads (clause "throws") (.ending :: us) [] (.ending :: us) :=
    reads_noClause (heads_cons.mpr ⟨rfl, by simp [Token.word?]⟩)
  have htokens : Procedure.rest ⟨modifiers, result, name, parameters⟩ ++ us =
      resultTokens result ++ (.word name :: (formalsTokens parameters ++ .ending :: us)) := by
    simp [Procedure.rest]
  rw [htokens]
  exact hnone.bind (hresult.bind ((reads_name hp.name).bind ((reads_formals hp.parameters).bind
    ((reads_dims 0 hends.noBracket).bind (hthrows.bind ((reads_ending us).bind (.pure _ _)))))))

/-- A field is no method, since no parenthesis follows its first name. -/
theorem fails_method_field (ms : List Modifier) {f : Field} (hf : f.Proper) :
    Fails (method ms) (f.rest ++ us) := by
  obtain ⟨modifiers, type, declarators⟩ := f
  cases declarators with
  | nil => exact absurd rfl hf.ne_nil
  | cons d ds =>
      have htype : type.Proper := hf.type
      have hname : IsName d.name := hf.declarators d (by simp)
      obtain ⟨rest, htokens, hrest⟩ : ∃ rest,
          Field.rest ⟨modifiers, type, d :: ds⟩ ++ us = type.tokens ++ .word d.name :: rest ∧
            Heads (fun t => t.mayBegin '(' = false) rest := by
        refine ⟨dimsTokens d.dims ++ ((ds.flatMap fun b => .symbol [','] :: b.tokens) ++
          .symbol [';'] :: us), by simp [Field.rest, separated, Declarator.tokens], ?_⟩
        cases d.dims with
        | zero =>
            cases ds with
            | nil => exact heads_cons.mpr rfl
            | cons e es => exact heads_cons.mpr rfl
        | succ n => exact heads_cons.mpr rfl
      have hnone : Reads (Recogniser.optional typeParameters) (type.tokens ++ .word d.name :: rest)
          none (type.tokens ++ .word d.name :: rest) := by
        obtain ⟨w, r, he, -⟩ := htype.exists_cons
        rw [he]
        exact reads_noTypeParameters
      have hresult : Reads resultOf (type.tokens ++ .word d.name :: rest) (some type)
          (.word d.name :: rest) :=
        reads_result (o := some type) (by rintro t ⟨⟩; exact htype) (endsType_word d.name)
      rw [htokens]
      exact hnone.bind_fails (hresult.bind_fails ((reads_name hname).bind_fails
        (Fails.bind (Fails.bind (fails_token hrest)))))

/-- Tokens that end a declared name. -/
structure EndsDeclarator (us : List Token) : Prop where
  noBracket : Heads (fun t => t.mayBegin '[' = false) us
  noValue : Heads (fun t => t.mayBegin '=' = false) us

theorem reads_declarator {d : Declarator} (hd : IsName d.name) (hus : EndsDeclarator us) :
    Reads declarator (d.tokens ++ us) d us := by
  have hnone : Fails (token ['='] >>= fun _ => initialValue) us :=
    Fails.bind (fails_token hus.noValue)
  exact (reads_name hd).bind ((reads_dims d.dims hus.noBracket).bind
    (hnone.optional.bind (.pure _ _)))

/-- Behind its modifiers a field is read in front of anything. -/
theorem reads_field (ms : List Modifier) {f : Field} (hms : f.modifiers = ms) (hf : f.Proper) :
    Reads (field ms) (f.rest ++ us) (.field f) us := by
  obtain ⟨modifiers, type, declarators⟩ := f
  obtain rfl : modifiers = ms := hms
  have hlist : Reads (sepBy1 declarator (token [',']))
      (separated [','] Declarator.tokens declarators ++ .symbol [';'] :: us) declarators
      (.symbol [';'] :: us) := by
    refine Reads.sepBy1 (F := EndsDeclarator) (fun _ => ?_) ?_ (Fails.bind (fails_token ?_)) hf.ne_nil
      fun d hd _ hws => reads_declarator (hf.declarators d hd) hws
    · exact ⟨heads_cons.mpr rfl, heads_cons.mpr rfl⟩
    · exact ⟨heads_cons.mpr rfl, heads_cons.mpr rfl⟩
    · exact heads_cons.mpr rfl
  have hends : EndsType (separated [','] Declarator.tokens declarators ++ .symbol [';'] :: us) := by
    cases declarators with
    | nil => exact absurd rfl hf.ne_nil
    | cons d ds => exact endsType_word d.name
  have htokens : Field.rest ⟨modifiers, type, declarators⟩ ++ us =
      type.tokens ++ (separated [','] Declarator.tokens declarators ++ .symbol [';'] :: us) := by
    simp [Field.rest]
  rw [htokens]
  exact (reads_typeExpr (TypeExpr.Proper.named _ hf.type) hends).bind (hlist.bind ((reads_token _).bind (.pure _ _)))

/-- What stands behind the name of a constructor ends a type, and is no name. -/
theorem ends_formals (us : List Token) : EndsType (formalsTokens [] ++ .block :: us) ∧
    Wordless (formalsTokens [] ++ .block :: us) :=
  ⟨heads_cons.mpr ⟨rfl, rfl, Or.inl rfl⟩, heads_cons.mpr rfl⟩

/-- A constructor is neither a method nor a field, since no name follows its first word. -/
theorem fails_constructor (us : List Token) (ms : List Modifier) {name : String}
    (hname : IsName name) :
    Fails (method ms) (constructorTokens name ++ us) ∧
      Fails (field ms) (constructorTokens name ++ us) := by
  obtain ⟨hends, hwordless⟩ := ends_formals us
  have htokens : constructorTokens name ++ us = .word name :: (formalsTokens [] ++ .block :: us) := by
    simp [constructorTokens]
  have htype : Reads typeExpr (.word name :: (formalsTokens [] ++ .block :: us))
      (.reference [.plain name] 0) (formalsTokens [] ++ .block :: us) :=
    reads_typeExpr_name hname hends
  have hresult : Reads resultOf (.word name :: (formalsTokens [] ++ .block :: us))
      (some (.reference [.plain name] 0)) (formalsTokens [] ++ .block :: us) := by
    refine Fails.orElse_reads (Fails.bind (fails_keyword (heads_cons.mpr ⟨rfl, fun h => ?_⟩)))
      htype.map
    have hne := IsTypeWord.ne (Or.inr hname) (v := "void") (by decide) (by decide)
    exact hne (Option.some.inj h)
  rw [htokens]
  constructor
  · exact reads_noTypeParameters.bind_fails (hresult.bind_fails (Fails.bind hwordless.identifier))
  · exact htype.bind_fails (Fails.bind (Fails.bind (Fails.bind hwordless.identifier)))

theorem reads_constructor {name : String} (hname : IsName name) :
    Reads constructor (constructorTokens name ++ us) (.constructor name) us := by
  have htokens : constructorTokens name ++ us = .word name :: (formalsTokens [] ++ .block :: us) := by
    simp [constructorTokens]
  have hends : EndsTypes (.block :: us) :=
    ⟨heads_cons.mpr ⟨rfl, rfl, Or.inl rfl⟩, heads_cons.mpr rfl⟩
  have hthrows : Reads (clause "throws") (.block :: us) [] (.block :: us) :=
    reads_noClause (heads_cons.mpr ⟨rfl, by simp [Token.word?]⟩)
  rw [htokens]
  exact reads_noTypeParameters.bind ((reads_name hname).bind ((reads_formals (by simp)).bind
    (hthrows.bind ((reads_block us).bind (.pure _ _)))))

/-- A body or a symbol is no method, no field and no constructor. -/
theorem fails_kinds (ms : List Modifier) (h : Wordless us)
    (hangle : Heads (fun t => t.mayBegin '<' = false) us) :
    Fails (method ms) us ∧ Fails (field ms) us ∧ Fails constructor us := by
  have hnone : Reads (Recogniser.optional typeParameters) us none us :=
    Fails.optional (fails_typeParameters hangle)
  have hresult : Fails resultOf us := Fails.orElse (Fails.bind (h.keyword _)) (fails_typeExpr h).map
  exact ⟨hnone.bind_fails hresult.bind, Fails.bind (fails_typeExpr h),
    hnone.bind_fails (Fails.bind h.identifier)⟩

end ClassModel.Source
