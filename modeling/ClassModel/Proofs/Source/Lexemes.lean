/-
Reading words and symbols.

A recogniser of a token reads the token and what is laid out behind it.  For a word that is
more than taking its characters: the word must end where the layout says, and it must pass
the check that is made on it.

A recogniser fails on a token that does not begin as it must.  So most failures of the
grammar are seen from the first token alone.
-/
import ClassModel.Source.Grammar
import ClassModel.Proofs.Source.Reading
import ClassModel.Proofs.Source.Recursion

namespace ClassModel.Source

open Recogniser

variable {α β : Type} {a : α} {t : Token} {ts us : List Token} {s r : List Char}

/-! ### White space and comments -/

theorem cut_bind_unit {p : Recogniser α} {k : Recogniser β} :
    (p >>= fun _ => k).cut s = (p.cut s).bind fun x => k.cut x.2 :=
  cut_bind p _ s

theorem cut_lineComment {body : List Char} (hb : '\n' ∉ body) (r : List Char) :
    lineComment.cut ('/' :: '/' :: (body ++ '\n' :: r)) = some ((), '\n' :: r) := by
  have hliteral : (literal ['/', '/']).cut ('/' :: '/' :: (body ++ '\n' :: r)) =
      some ((), body ++ '\n' :: r) := cut_literal_append ['/', '/'] _
  have hbody : ∀ c ∈ body, (c != '\n') = true := fun c hc =>
    bne_iff_ne.mpr fun he => hb (he ▸ hc)
  have hstop : Stops (· != '\n') ('\n' :: r) := stops_cons.mpr rfl
  rw [lineComment, cut_bind_unit, hliteral, Option.bind_some, cut_bind, cut_run, Option.bind_some,
    dropWhile_append_of_stops hbody hstop]
  rfl

/-- A character of a block comment. -/
def commentItem : Recogniser Char := do
  notFollowedBy (literal ['*', '/'])
  satisfy fun _ => true

theorem cut_commentItem (c : Char) (r : List Char) :
    commentItem.cut (c :: r) =
      if ['*', '/'].isPrefixOf (c :: r) then none else some (c, r) := by
  rw [commentItem, cut_bind_unit, cut_notFollowedBy, cut_literal]
  by_cases h : ['*', '/'].isPrefixOf (c :: r) = true
  · simp [h]
  · simp [h, cut_satisfy_cons]

theorem cut_many_commentItem {body : List Char} (hb : ¬['*', '/'] <:+: body) (r : List Char) :
    cut (many commentItem) (body ++ '*' :: '/' :: r) = some (body, '*' :: '/' :: r) := by
  induction body with
  | nil =>
      refine cut_many_of_none ?_
      rw [List.nil_append, cut_commentItem]
      rfl
  | cons c body ih =>
      have hrest : ¬['*', '/'] <:+: body := fun h => hb (h.trans (List.suffix_cons c body).isInfix)
      have hnot : ¬(['*', '/'].isPrefixOf (c :: (body ++ '*' :: '/' :: r)) = true) := by
        rw [List.isPrefixOf_iff_prefix]
        intro h
        cases body with
        | nil => simp at h
        | cons d body =>
            refine hb (List.IsPrefix.isInfix ?_)
            simpa using h
      have hitem : commentItem.cut (c :: body ++ '*' :: '/' :: r) =
          some (c, body ++ '*' :: '/' :: r) := by
        rw [List.cons_append, cut_commentItem, if_neg hnot]
      rw [cut_many_of_some hitem (by simp), ih hrest]
      rfl

theorem cut_blockComment {body : List Char} (hb : ¬['*', '/'] <:+: body) (r : List Char) :
    blockComment.cut ('/' :: '*' :: (body ++ '*' :: '/' :: r)) = some ((), r) := by
  have hopen : (literal ['/', '*']).cut ('/' :: '*' :: (body ++ '*' :: '/' :: r)) =
      some ((), body ++ '*' :: '/' :: r) := cut_literal_append ['/', '*'] _
  have hclose : (literal ['*', '/']).cut ('*' :: '/' :: r) = some ((), r) :=
    cut_literal_append ['*', '/'] r
  show (literal ['/', '*'] >>= fun _ => many commentItem >>= fun _ => literal ['*', '/']).cut _ = _
  rw [cut_bind_unit, hopen, Option.bind_some, cut_many_bind, cut_many_commentItem hb,
    Option.bind_some, hclose]

theorem lineComment_fails (h : Stops (· == '/') s) : lineComment.cut s = none := by
  rw [lineComment, cut_bind_unit, cut_literal_of_stops h, Option.bind_none]

theorem blockComment_fails (h : Stops (· == '/') s) : blockComment.cut s = none := by
  rw [blockComment, cut_bind_unit, cut_literal_of_stops h, Option.bind_none]

theorem cut_triviaItem (s : List Char) :
    triviaItem.cut s = (((satisfy isWhite).cut s).map fun x => ((), x.2)).or
      ((lineComment.cut s).or (blockComment.cut s)) := by
  rw [triviaItem, cut_orElse, cut_orElse, cut_bind]
  cases (satisfy isWhite).cut s <;> rfl

theorem cut_triviaItem_white {c : Char} (hc : isWhite c = true) (r : List Char) :
    triviaItem.cut (c :: r) = some ((), r) := by
  rw [cut_triviaItem, cut_satisfy_cons, if_pos hc]
  rfl

theorem cut_triviaItem_slash (r : List Char) :
    triviaItem.cut ('/' :: r) = (lineComment.cut ('/' :: r)).or (blockComment.cut ('/' :: r)) := by
  have hwhite : isWhite '/' = false := by decide
  rw [cut_triviaItem, cut_satisfy_cons, hwhite]
  rfl

theorem triviaItem_fails (hs : Stops beginsTrivia s) : triviaItem.cut s = none := by
  have hwhite : Stops isWhite s := fun c hc => by
    have h := hs c hc
    rw [beginsTrivia, Bool.or_eq_false_iff] at h
    exact h.1
  have hslash : Stops (· == '/') s := fun c hc => by
    have h := hs c hc
    rw [beginsTrivia, Bool.or_eq_false_iff] at h
    exact h.2
  rw [cut_triviaItem, cut_satisfy_of_stops hwhite, lineComment_fails hslash,
    blockComment_fails hslash]
  rfl

theorem cut_trivia_of_none (h : triviaItem.cut s = none) : trivia.cut s = some ((), s) :=
  cut_many_unit_of_none h

theorem consumes_lineComment : Consumes lineComment :=
  (Consumes.literal _ _).bind fun _ => (Trims.run _).bind fun _ => .pure _

theorem consumes_blockComment : Consumes blockComment :=
  (Consumes.literal _ _).bind fun _ => (Trims.many _).bind fun _ => (Consumes.literal _ _).trims

theorem cut_trivia_of_some {u : Unit} (h : triviaItem.cut s = some (u, r)) :
    trivia.cut s = trivia.cut r := by
  have hitem : Consumes triviaItem :=
    ((Consumes.satisfy _).bind fun _ => .pure _).orElse
      (consumes_lineComment.orElse consumes_blockComment)
  exact hitem.cut_many_unit h

theorem cut_trivia_white {c : Char} (hc : isWhite c = true) (r : List Char) :
    trivia.cut (c :: r) = trivia.cut r :=
  cut_trivia_of_some (cut_triviaItem_white hc r)

/-- A line comment leaves the line break, which is white space. -/
theorem cut_trivia_line {body : List Char} (hb : '\n' ∉ body) (r : List Char) :
    trivia.cut ('/' :: '/' :: (body ++ '\n' :: r)) = trivia.cut r := by
  have hline : triviaItem.cut ('/' :: '/' :: (body ++ '\n' :: r)) = some ((), '\n' :: r) := by
    rw [cut_triviaItem_slash, cut_lineComment hb, Option.some_or]
  rw [cut_trivia_of_some hline, cut_trivia_white (by decide)]

theorem cut_lineComment_star (r : List Char) : lineComment.cut ('/' :: '*' :: r) = none := by
  rw [lineComment, cut_bind_unit, cut_literal]
  rfl

theorem cut_trivia_comment {body : List Char} (hb : ¬['*', '/'] <:+: body) (r : List Char) :
    trivia.cut ('/' :: '*' :: (body ++ '*' :: '/' :: r)) = trivia.cut r := by
  have hblock : triviaItem.cut ('/' :: '*' :: (body ++ '*' :: '/' :: r)) = some ((), r) := by
    rw [cut_triviaItem_slash, cut_lineComment_star, Option.none_or, cut_blockComment hb]
  exact cut_trivia_of_some hblock

/-- White space and comments are read up to where something else begins. -/
theorem cut_trivia {g : List Char} (hg : Trivia g) (hs : Stops beginsTrivia s) :
    trivia.cut (g ++ s) = some ((), s) := by
  induction hg with
  | nil => exact cut_trivia_of_none (triviaItem_fails hs)
  | white hc _ ih => rw [List.cons_append, cut_trivia_white hc, ih]
  | line hb _ ih =>
      rw [List.cons_append, List.cons_append, List.append_assoc, List.cons_append,
        cut_trivia_line hb, ih]
  | block hb _ ih =>
      rw [List.cons_append, List.cons_append, List.append_assoc, List.cons_append, List.cons_append,
        cut_trivia_comment hb, ih]

/-! ### Tokens that are read -/

theorem cut_rawIdentifier {w : List Char} (hw : IsIdentifier w)
    (hr : Stops isIdentifierContinue r) :
    rawIdentifier.cut (w ++ r) = some (String.ofList w, r) := by
  obtain ⟨c, v, rfl, hc, hv⟩ := hw
  rw [rawIdentifier, cut_bind, List.cons_append, cut_satisfy_cons, if_pos hc, Option.bind_some,
    cut_bind, cut_run, Option.bind_some, takeWhile_append_of_stops hv hr,
    dropWhile_append_of_stops hv hr]
  rfl

theorem stops_isIdentifierContinue (h : Stops goesOn r) : Stops isIdentifierContinue r := by
  intro c hc
  have hnot := h c hc
  rw [goesOn, Bool.or_eq_false_iff] at hnot
  exact hnot.1

/-- A recogniser of a token, with what is laid out behind the token. -/
theorem Reads.lexeme {p : Recogniser α}
    (hp : ∀ x r, t.Spells x → (t.isWord = true → Stops goesOn r) → p.cut (x ++ r) = some (a, r)) :
    Reads (p >>= fun a => trivia >>= fun _ => Pure.pure a) (t :: ts) a ts := by
  intro s hs
  obtain ⟨x, g, r, rfl, hx, hg, hr, hword, -⟩ := hs.exists_cons
  refine ⟨r, hr, ?_, ?_⟩
  · rw [cut_bind, hp x (g ++ r) hx hword, Option.bind_some, cut_bind_unit,
      cut_trivia hg hr.stops_beginsTrivia]
    rfl
  · obtain ⟨c, y, rfl, -⟩ := hx.exists_cons
    simp only [List.length_append, List.length_cons]
    omega

/-- The same for a recogniser that says nothing. -/
theorem Reads.mark {p : Recogniser Unit}
    (hp : ∀ x r, t.Spells x → (t.isWord = true → Stops goesOn r) → p.cut (x ++ r) = some ((), r)) :
    Reads (p >>= fun _ => trivia) (t :: ts) () ts := by
  intro s hs
  obtain ⟨r, hr, hcut, hlen⟩ := Reads.lexeme hp s hs
  refine ⟨r, hr, ?_, hlen⟩
  rw [cut_bind] at hcut
  rw [cut_bind_unit, ← hcut]
  congr 1
  funext x
  rw [cut_bind_unit]
  cases trivia.cut x.2 <;> rfl

theorem reads_token {x : List Char} (ts : List Token) :
    Reads (token x) (.symbol x :: ts) () ts := by
  refine Reads.mark fun y r hy _ => ?_
  cases hy
  exact cut_literal_append x r

/-- A word that passes a check. -/
theorem cut_check_word {f : String → Except (Option SyntaxFault) α} {w : String} {x : List Char}
    (hf : f w = .ok a) (hx : (Token.word w).Spells x)
    (hr : (Token.word w).isWord = true → Stops goesOn r) :
    (check rawIdentifier f).cut (x ++ r) = some (a, r) := by
  cases hx with
  | word hw =>
      rw [cut_check, cut_rawIdentifier hw (stops_isIdentifierContinue (hr rfl)), Option.bind_some,
        String.ofList_toList, hf]
      rfl

theorem reads_keyword (w : String) (ts : List Token) :
    Reads (keyword w) (.word w :: ts) () ts :=
  Reads.mark fun _ _ hx hr => cut_check_word (if_pos rfl) hx hr

theorem reads_identifier {w : String} (hw : w ∉ reservedWords) (ts : List Token) :
    Reads identifier (.word w :: ts) w ts :=
  Reads.lexeme fun _ _ hx hr => cut_check_word (if_neg (by simpa using hw)) hx hr

theorem reads_primitiveName {w : String} (hw : w ∈ primitiveNames) (ts : List Token) :
    Reads primitiveName (.word w :: ts) w ts :=
  Reads.lexeme fun _ _ hx hr => cut_check_word (if_pos (by simpa using hw)) hx hr

/-! ### Tokens that are not read -/

/-- The first token, if there is one, has a property. -/
def Heads (P : Token → Prop) (ts : List Token) : Prop :=
  ∀ t ∈ ts.head?, P t

@[simp]
theorem heads_nil (P : Token → Prop) : Heads P [] := by
  intro t ht
  cases ht

@[simp]
theorem heads_cons {P : Token → Prop} : Heads P (t :: ts) ↔ P t := by
  simp [Heads]

/-- The identifier that a token begins with.  An import may begin with anything. -/
def Token.word? : Token → Option String
  | word w => some w
  | nonSealed => some "non"
  | _ => none

/-- A token that does not begin with a word that passes a check. -/
def Token.Rejected (f : String → Except (Option SyntaxFault) α) (t : Token) : Prop :=
  t.isTight = false ∧ ∀ w ∈ t.word?, (f w).toOption = none

theorem fails_satisfy {q : Char → Bool} (h : Heads (fun t => ∀ c, t.mayBegin c = true → q c = false) ts) :
    Fails (satisfy q) ts :=
  fun _ hs => cut_satisfy_of_stops (hs.stops fun t ht _ c _ hc => h t ht c hc)

theorem fails_char {c : Char} (h : Heads (fun t => t.mayBegin c = false) ts) :
    Fails (satisfy (· == c)) ts := by
  refine fails_satisfy fun t ht d hd => ?_
  rw [beq_eq_false_iff_ne]
  rintro rfl
  rw [h t ht] at hd
  cases hd

theorem fails_token {c : Char} {r : List Char} (h : Heads (fun t => t.mayBegin c = false) ts) :
    Fails (token (c :: r)) ts :=
  (Fails.bind (fails_char h)).bind

/-- The identifier that is read where a token stands. -/
theorem cut_rawIdentifier_of_spells {x r : List Char} (hx : t.Spells x) (ht : t.isTight = false)
    (hr : t.isWord = true → Stops goesOn r) :
    (rawIdentifier.cut (x ++ r)).map Prod.fst = t.word? := by
  have hnone : t.isWord = false → (rawIdentifier.cut (x ++ r)).map Prod.fst = none := by
    intro hword
    have hstop : Stops isIdentifierStart (x ++ r) := hx.stops (fun c hc => (hx.not_word hword hc).2) r
    rw [rawIdentifier, cut_bind, cut_satisfy_of_stops hstop]
    rfl
  cases hx with
  | word hw =>
      rw [cut_rawIdentifier hw (stops_isIdentifierContinue (hr rfl)), String.ofList_toList]
      rfl
  | nonSealed =>
      have hnon : IsIdentifier "non".toList := ⟨'n', "on".toList, rfl, by decide, by decide⟩
      have hstop : Stops isIdentifierContinue ("-sealed".toList ++ r) := stops_cons.mpr (by decide)
      have hsplit : "non-sealed".toList ++ r = "non".toList ++ ("-sealed".toList ++ r) := rfl
      rw [hsplit, cut_rawIdentifier hnon hstop]
      rfl
  | path => cases ht
  | symbol | block | semicolon | body => exact hnone rfl

/-- A recogniser of words fails where no word passes its check. -/
theorem fails_check {f : String → Except (Option SyntaxFault) α} (h : Heads (Token.Rejected f) ts) :
    Fails (check rawIdentifier f) ts := by
  intro s hs
  rw [cut_check]
  cases ts with
  | nil =>
      cases hs
      rfl
  | cons t ts =>
      obtain ⟨htight, hreject⟩ := heads_cons.mp h
      obtain ⟨x, g, r, rfl, hx, -, -, hbreak, -⟩ := hs.exists_cons
      have hword := cut_rawIdentifier_of_spells hx htight hbreak
      cases hcut : rawIdentifier.cut (x ++ (g ++ r)) with
      | none => rfl
      | some found =>
          rw [hcut] at hword
          rw [Option.bind_some, hreject found.1 hword.symm]
          rfl

/-- A token that is not a given word. -/
def Token.IsNot (w : String) (t : Token) : Prop :=
  t.isTight = false ∧ t.word? ≠ some w

theorem fails_keyword {w : String} (h : Heads (Token.IsNot w) ts) : Fails (keyword w) ts := by
  refine (fails_check fun t ht => ?_).bind
  obtain ⟨htight, hne⟩ := h t ht
  refine ⟨htight, fun v hv => ?_⟩
  have hvw : v ≠ w := by
    rintro rfl
    exact hne hv
  simp only [if_neg hvw]
  rfl

/-- A token that is no name. -/
def Token.NoName (t : Token) : Prop :=
  t.isTight = false ∧ ∀ w ∈ t.word?, w ∈ reservedWords

theorem fails_identifier (h : Heads Token.NoName ts) : Fails identifier ts := by
  refine (fails_check fun t ht => ?_).bind
  obtain ⟨htight, hreserved⟩ := h t ht
  refine ⟨htight, fun w hw => ?_⟩
  have hmem : reservedWords.contains w = true := by simpa using hreserved w hw
  simp only [if_pos hmem]
  rfl

/-- A token that names no primitive type. -/
def Token.NoPrimitive (t : Token) : Prop :=
  t.isTight = false ∧ ∀ w ∈ t.word?, w ∉ primitiveNames

theorem fails_primitiveName (h : Heads Token.NoPrimitive ts) : Fails primitiveName ts := by
  refine (fails_check fun t ht => ?_).bind
  obtain ⟨htight, hnot⟩ := h t ht
  refine ⟨htight, fun w hw => ?_⟩
  have hmem : ¬primitiveNames.contains w = true := by simpa using hnot w hw
  simp only [if_neg hmem]
  rfl

/-! ### Modifiers -/

/-- The token of a modifier. -/
def Modifier.token : Modifier → Token
  | nonSealed => .nonSealed
  | m => .word m.keyword

/-- A token that is no modifier and no annotation. -/
def Token.NoModifier (t : Token) : Prop :=
  t.isTight = false ∧ t ≠ .nonSealed ∧ ∀ w ∈ t.word?, Modifier.ofKeyword? w = none

/-- No word reads like the modifier that is no identifier. -/
theorem cut_nonSealed_word {w : String} {x r : List Char} (hx : (Token.word w).Spells x)
    (hr : Stops goesOn r) : (literal "non-sealed".toList).cut (x ++ r) = none := by
  rw [cut_literal, if_neg]
  rw [List.isPrefixOf_iff_prefix]
  rintro ⟨u, hu⟩
  have hnon : IsIdentifier "non".toList := ⟨'n', "on".toList, rfl, by decide, by decide⟩
  have hstop : Stops isIdentifierContinue ("-sealed".toList ++ u) := stops_cons.mpr (by decide)
  have hsplit : "non-sealed".toList ++ u = "non".toList ++ ("-sealed".toList ++ u) := rfl
  cases hx with
  | word hw =>
      -- The word would be `non`, and a hyphen would stand behind it.
      have hread := cut_rawIdentifier hw (stops_isIdentifierContinue hr)
      rw [← hu, hsplit, cut_rawIdentifier hnon hstop] at hread
      have hrest : "-sealed".toList ++ u = r := congrArg Prod.snd (Option.some.inj hread)
      rw [← hrest] at hr
      exact absurd (stops_cons.mp hr) (by decide)

theorem reads_modifier (m : Modifier) (ts : List Token) :
    Reads modifier (m.token :: ts) m ts := by
  refine Reads.lexeme fun x r hx hr => ?_
  rw [cut_orElse]
  by_cases hm : m = .nonSealed
  · subst hm
    cases hx
    rw [cut_bind_unit, cut_literal_append]
    rfl
  · have htoken : m.token = .word m.keyword := by
      cases m <;> first | rfl | exact absurd rfl hm
    rw [htoken] at hx hr
    rw [cut_bind_unit, cut_nonSealed_word hx (hr rfl), Option.bind_none, Option.none_or,
      cut_check_word (a := m) ?_ hx hr]
    rw [Modifier.ofKeyword?_keyword]

/-- No token that stands by itself begins an annotation. -/
theorem annotation_fails (h : Heads (fun t => t.isTight = false) ts) : Fails annotation ts := by
  intro s hs
  have hstop : Stops (· == '@') s := by
    refine hs.stops fun t ht x c hx hc => beq_eq_false_iff_ne.mpr ?_
    rintro rfl
    have htight := h t ht
    cases hx with
    | word =>
        have hat : isIdentifierStart '@' = false := by decide
        exact Bool.false_ne_true (hat.symm.trans hc)
    | nonSealed | block | semicolon | body => exact absurd hc (by decide)
    | symbol hmem =>
        have hall : ∀ s ∈ symbols, (s.head? == some '@') = false := by decide
        exact absurd hc (by simp [Token.mayBegin, hall x hmem])
    | path => cases htight
  rw [ annotation, cut_bind, cut_satisfy_of_stops hstop, Option.bind_none]

theorem fails_modifier (h : Heads Token.NoModifier ts) : Fails modifier ts := by
  refine Fails.bind (Fails.orElse ?_ (fails_check fun t ht => ?_))
  · intro s hs
    rw [cut_bind_unit]
    cases ts with
    | nil =>
        cases hs
        rfl
    | cons t ts =>
        obtain ⟨htight, hne, -⟩ := heads_cons.mp h
        obtain ⟨x, g, r, rfl, hx, -, -, hbreak, -⟩ := hs.exists_cons
        have hnone : (literal "non-sealed".toList).cut (x ++ (g ++ r)) = none := by
          cases t with
          | word w => exact cut_nonSealed_word hx (hbreak rfl)
          | nonSealed => exact absurd rfl hne
          | path => cases htight
          | symbol | block | ending =>
              have hstop : Stops (· == 'n') (x ++ (g ++ r)) := by
                refine hx.stops (fun c hc => beq_eq_false_iff_ne.mpr ?_) _
                rintro rfl
                exact absurd (hx.not_word rfl hc).2 (by decide)
              exact cut_literal_of_stops hstop "on-sealed".toList
        rw [hnone, Option.bind_none]
  · obtain ⟨htight, -, hnot⟩ := h t ht
    refine ⟨htight, fun w hw => ?_⟩
    simp only [hnot w hw]
    rfl

/-- The modifiers of a declaration, in front of something else. -/
theorem reads_modifiers (ms : List Modifier) (h : Heads Token.NoModifier ts) :
    Reads modifiers (ms.map Modifier.token ++ ts) ms ts := by
  have hitem : ∀ m : Modifier, ∀ us, Reads
      (( annotation >>= fun _ => pure none) <|> some <$> modifier) (m.token :: us) (some m) us := by
    intro m us
    refine Fails.orElse_reads (Fails.bind (annotation_fails ?_)) (reads_modifier m us).map
    rw [heads_cons]
    cases m <;> rfl
  have hend : Fails (( annotation >>= fun _ => pure none) <|> some <$> modifier) ts :=
    Fails.orElse (Fails.bind (annotation_fails fun t ht => (h t ht).1)) (fails_modifier h).map
  have hmany : Reads (many
      (( annotation >>= fun _ => pure none) <|> some <$> modifier))
      ((ms.flatMap fun m => [m.token]) ++ ts) (ms.map some) ts :=
    Reads.many hend (fun m _ us => hitem m us) fun m _ => List.cons_ne_nil _ _
  have hdropped : (ms.map some).filterMap id = ms := by
    rw [List.filterMap_map]
    exact List.filterMap_some
  rw [← List.map_eq_flatMap] at hmany
  refine hmany.bind ?_
  rw [hdropped]
  exact Reads.pure ms ts

/-! ### Tokens that are no words -/

/-- Tokens that begin with no word. -/
def Wordless (ts : List Token) : Prop :=
  Heads (fun t => t.isWord = false) ts

theorem Token.word?_eq_none {t : Token} (h : t.isWord = false) :
    t.isTight = false ∧ t.word? = none := by
  cases t <;> first | cases h; done | exact ⟨rfl, rfl⟩

namespace Wordless

theorem keyword (h : Wordless ts) (w : String) : Fails (keyword w) ts := by
  refine fails_keyword fun t ht => ?_
  obtain ⟨htight, hnone⟩ := Token.word?_eq_none (h t ht)
  exact ⟨htight, by simp [hnone]⟩

theorem identifier (h : Wordless ts) : Fails identifier ts := by
  refine fails_identifier fun t ht => ?_
  obtain ⟨htight, hnone⟩ := Token.word?_eq_none (h t ht)
  exact ⟨htight, by simp [hnone]⟩

theorem primitiveName (h : Wordless ts) : Fails primitiveName ts := by
  refine fails_primitiveName fun t ht => ?_
  obtain ⟨htight, hnone⟩ := Token.word?_eq_none (h t ht)
  exact ⟨htight, by simp [hnone]⟩

theorem noModifier (h : Wordless ts) : Heads Token.NoModifier ts := by
  intro t ht
  have hword := h t ht
  obtain ⟨htight, hnone⟩ := Token.word?_eq_none hword
  refine ⟨htight, ?_, by simp [hnone]⟩
  rintro rfl
  cases hword

end Wordless

/-! ### Lists with separators -/

section Lists

variable {p : Recogniser α} {sep : List Char} {tokens : α → List Token} {as : List α}
  {F : List Token → Prop}

/-- The tokens of some parts with a symbol between any two of them. -/
def separated (sep : List Char) (tokens : α → List Token) : List α → List Token
  | [] => []
  | a :: as => tokens a ++ as.flatMap fun b => .symbol sep :: tokens b

theorem length_le_separated (h : a ∈ as) :
    (tokens a).length ≤ (separated sep tokens as).length := by
  have hflat : ∀ bs : List α, a ∈ bs →
      (tokens a).length ≤ (bs.flatMap fun b => .symbol sep :: tokens b).length := by
    intro bs hb
    induction bs with
    | nil => cases hb
    | cons b bs ih =>
        rw [List.flatMap_cons, List.length_append, List.length_cons]
        rcases List.mem_cons.mp hb with rfl | hb
        · omega
        · have := ih hb
          omega
  cases as with
  | nil => cases h
  | cons b bs =>
      rw [separated, List.length_append]
      rcases List.mem_cons.mp h with rfl | h
      · omega
      · have := hflat bs h
        omega

/-- Parts that are read in front of a separator and in front of what follows the list. -/
theorem Reads.sepBy1 (hsep : ∀ ws, F (.symbol sep :: ws)) (hend : F us)
    (hstop : Fails (token sep >>= fun _ => p) us) (hne : as ≠ [])
    (hread : ∀ a ∈ as, ∀ ws, F ws → Reads p (tokens a ++ ws) a ws) :
    Reads (sepBy1 p (token sep)) (separated sep tokens as ++ us) as us := by
  have hmany : ∀ bs : List α, (∀ b ∈ bs, ∀ ws, F ws → Reads p (tokens b ++ ws) b ws) →
      F ((bs.flatMap fun b => .symbol sep :: tokens b) ++ us) ∧
        Reads (Recogniser.many (token sep >>= fun _ => p))
          ((bs.flatMap fun b => .symbol sep :: tokens b) ++ us) bs us := by
    intro bs hbs
    induction bs with
    | nil => exact ⟨hend, hstop.many⟩
    | cons b bs ih =>
        obtain ⟨hfollow, hrest⟩ := ih fun c hc => hbs c (by simp [hc])
        rw [List.flatMap_cons, List.append_assoc]
        refine ⟨hsep _, ?_⟩
        have hb : Reads (token sep >>= fun _ => p) (.symbol sep :: (tokens b ++ _)) b _ :=
          (reads_token _).bind (hbs b (by simp) _ hfollow)
        refine hb.many_cons ?_ hrest
        simp only [List.length_cons, List.length_append]
        omega
  cases as with
  | nil => exact absurd rfl hne
  | cons a as =>
      obtain ⟨hfollow, hrest⟩ := hmany as fun b hb => hread b (by simp [hb])
      rw [separated, List.append_assoc]
      exact (hread a (by simp) _ hfollow).bind (hrest.bind (.pure _ _))

/-- A list of parts that may be empty. -/
theorem Reads.sepBy (hsep : ∀ ws, F (.symbol sep :: ws)) (hend : F us)
    (hstop : Fails (token sep >>= fun _ => p) us) (hnone : Fails p us)
    (hread : ∀ a ∈ as, ∀ ws, F ws → Reads p (tokens a ++ ws) a ws) :
    Reads (sepBy p (token sep)) (separated sep tokens as ++ us) as us := by
  cases as with
  | nil => exact (Fails.optional hnone.bind).bind (.pure _ _)
  | cons a as =>
      have hlist := Reads.sepBy1 hsep hend hstop (List.cons_ne_nil a as) hread
      exact hlist.optional.bind (.pure _ _)

end Lists

end ClassModel.Source
