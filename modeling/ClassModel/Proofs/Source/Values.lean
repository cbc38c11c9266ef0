/-
Skipping initial values.

An initial value is skipped part by part, and the parts are told apart by their first
characters as those of a group are.  The angle bracket is the exception.  It begins a group
if there is one in the text, and that is a matter of everything that stands behind it, so
what is said about a value is said in front of the rest of the text.

A value ends at the comma or the semicolon behind it: no part begins with one.
-/
import ClassModel.Proofs.Source.Blocks

namespace ClassModel.Source

open Recogniser

variable {s t r : List Char} {c : Char}

/-! ### Groups in angle brackets -/

/-- Characters that mean nothing. -/
theorem AngleEnclosed.plains {x : List Char} (hx : ∀ c ∈ x, c ∉ ['<', '>', ';', '\x7b', '\x7d']) :
    AngleEnclosed x := by
  induction x with
  | nil => exact .nil
  | cons c x ih =>
      rw [List.forall_mem_cons] at hx
      exact .plain hx.1 (ih hx.2)

/-- A part of a group in angle brackets. -/
def angleItem (nested : Recogniser Unit) : Recogniser Unit :=
  nested <|> do
    let _ ← satisfy fun c => c != '<' && c != '>' && c != ';' && c != '\x7b' && c != '\x7d'

/-- A group in angle brackets is a round of the grammar with groups inside. -/
theorem cut_angleGroup (s : List Char) :
    angleGroup.cut s = (delimited '<' '>' (angleItem angleGroup)).cut s :=
  cut_recursive (guarded_delimited fun n _ _ h => h.orElse (.refl n _)) s

theorem consumes_angleGroup : Consumes angleGroup :=
  .recursive fun _ _ => consumes_delimited _ _ _

theorem consumes_angleItem : Consumes (angleItem angleGroup) :=
  consumes_angleGroup.orElse ((Consumes.satisfy _).bind fun _ => .pure _)

theorem angleGroup_fails (h : Stops (· == '<') s) : angleGroup.cut s = none := by
  rw [cut_angleGroup, delimited_fails h]

theorem cut_angleItem_plain (hc : c ∉ ['<', '>', ';', '\x7b', '\x7d']) (r : List Char) :
    (angleItem angleGroup).cut (c :: r) = some ((), r) := by
  have hless : c ≠ '<' := by
    rintro rfl
    simp at hc
  have hall : (c != '<' && c != '>' && c != ';' && c != '\x7b' && c != '\x7d') = true := by
    simpa [and_assoc] using hc
  rw [angleItem, cut_orElse, angleGroup_fails (stops_mark hless), Option.none_or, cut_bind,
    cut_satisfy_cons, if_pos hall]
  rfl

/-- The parts of a group are passed over up to its closing bracket. -/
theorem cut_many_angleItem {y : List Char} (hy : AngleEnclosed y) (r : List Char) :
    ∃ us : List Unit, cut (many (angleItem angleGroup)) (y ++ '>' :: r) = some (us, '>' :: r) := by
  induction hy generalizing r with
  | nil =>
      refine ⟨[], cut_many_of_none ?_⟩
      rw [List.nil_append, angleItem, cut_orElse, angleGroup_fails (stops_mark (by decide)),
        Option.none_or, cut_bind, cut_satisfy_cons, if_neg (by decide)]
      rfl
  | plain hc _ ih => exact consumes_angleItem.exists_cut_many (cut_angleItem_plain hc _) (ih r)
  | @group x y _ _ ihx ih =>
      obtain ⟨us, ihx⟩ := ihx (y ++ '>' :: r)
      have hnested : (angleItem angleGroup).cut ('<' :: (x ++ '>' :: (y ++ '>' :: r))) =
          some ((), y ++ '>' :: r) := by
        rw [angleItem, cut_orElse, cut_angleGroup, cut_delimited_eq_some_iff.mpr ⟨_, us, rfl, ihx⟩,
          Option.some_or]
      rw [List.cons_append, List.append_assoc, List.cons_append]
      exact consumes_angleItem.exists_cut_many hnested (ih r)

/-- A group in angle brackets is cut off. -/
theorem AngleText.cut_angleGroup {x : List Char} (hx : AngleText x) (r : List Char) :
    angleGroup.cut (x ++ r) = some ((), r) := by
  obtain ⟨y, hy, rfl⟩ := hx
  obtain ⟨us, hmany⟩ := cut_many_angleItem hy r
  rw [List.cons_append, List.append_assoc, List.singleton_append, Source.cut_angleGroup]
  exact cut_delimited_eq_some_iff.mpr ⟨_, us, rfl, hmany⟩

/-- A part of a group, be it a group inside, goes in front of what is enclosed. -/
theorem angleEnclosed_angleItem {nested : Recogniser Unit}
    (hnested : ∀ s r u, nested.cut s = some (u, r) →
      ∃ x, AngleEnclosed x ∧ s = '<' :: (x ++ '>' :: r))
    {t : List Char} {u : Unit} (h : (angleItem nested).cut s = some (u, t))
    (ht : ∃ y, AngleEnclosed y ∧ t = y ++ '>' :: r) : ∃ y, AngleEnclosed y ∧ s = y ++ '>' :: r := by
  obtain ⟨y, hy, rfl⟩ := ht
  rw [angleItem, cut_orElse, Option.or_eq_some_iff] at h
  rcases h with h | ⟨-, h⟩
  · obtain ⟨x, hx, rfl⟩ := hnested _ _ _ h
    exact ⟨_, .group hx hy, by simp⟩
  · rw [cut_bind, Option.bind_eq_some_iff] at h
    obtain ⟨⟨c, t⟩, hc, he⟩ := h
    cases he
    obtain ⟨rfl, hall⟩ := cut_satisfy_eq_some_iff.mp hc
    exact ⟨c :: y, .plain (by simpa [and_assoc] using hall) hy, rfl⟩

/-- Each round cuts off nothing but groups. -/
theorem exists_of_cut_unroll_angle (n : Nat) :
    ∀ s r u, (unroll (fun nested => delimited '<' '>' (angleItem nested)) n).cut s = some (u, r) →
      ∃ x, AngleEnclosed x ∧ s = '<' :: (x ++ '>' :: r) :=
  exists_of_cut_unroll_delimited .nil
    (fun _ hnested _ _ _ _ hcut ht => angleEnclosed_angleItem hnested hcut ht) n

/-- Where no group in angle brackets begins, none is cut off. -/
theorem angleGroup_fails_of_forall (h : ∀ x, AngleText x → ¬x <+: s) : angleGroup.cut s = none := by
  cases hcut : angleGroup.cut s with
  | none => rfl
  | some x =>
      obtain ⟨y, hy, he⟩ := exists_of_cut_unroll_angle _ s x.2 x.1 hcut
      exact absurd ⟨x.2, by simp [he]⟩ (h _ ⟨y, hy, rfl⟩)

/-! ### The parts of a value -/

/-- A character of an initial value that has no meaning of its own. -/
def valueCharacter : Recogniser Unit := do
  let _ ← satisfy fun c =>
    c != ',' && c != ';' && c != '\x7b' && c != '\x7d' && c != '(' && c != ')' &&
      c != '[' && c != ']' && c != '"' && c != '\''

theorem cut_initialItem (s : List Char) :
    initialItem.cut s =
      ((balanced '\x7b' '\x7d').cut s).or (((balanced '(' ')').cut s).or
        (((balanced '[' ']').cut s).or ((angleGroup.cut s).or (((quotedLiteral '"').cut s).or
          (((quotedLiteral '\'').cut s).or ((lineComment.cut s).or ((blockComment.cut s).or
            (valueCharacter.cut s)))))))) := by
  rw [initialItem, cut_orElse, cut_orElse, cut_orElse, cut_orElse, cut_orElse, cut_orElse,
    cut_orElse, cut_orElse]
  rfl

theorem cut_valueCharacter (c : Char) (r : List Char) :
    valueCharacter.cut (c :: r) =
      if c ∈ [',', ';', '\x7b', '\x7d', '(', ')', '[', ']', '"', '\''] then none
      else some ((), r) := by
  rw [valueCharacter, cut_bind, cut_satisfy_cons]
  by_cases hc : c ∈ [',', ';', '\x7b', '\x7d', '(', ')', '[', ']', '"', '\'']
  · rw [if_pos hc, if_neg]
    · rfl
    · simp only [List.mem_cons, List.not_mem_nil, or_false] at hc
      rcases hc with rfl | rfl | rfl | rfl | rfl | rfl | rfl | rfl | rfl | rfl <;> decide
  · rw [if_neg hc, if_pos]
    · rfl
    · simpa [and_assoc] using hc

/-- Where no group in delimiters begins. -/
theorem cut_initialItem_cons (h : c ∉ ['\x7b', '(', '[']) (r : List Char) :
    initialItem.cut (c :: r) =
      (angleGroup.cut (c :: r)).or (((quotedLiteral '"').cut (c :: r)).or
        (((quotedLiteral '\'').cut (c :: r)).or ((lineComment.cut (c :: r)).or
          ((blockComment.cut (c :: r)).or (valueCharacter.cut (c :: r)))))) := by
  simp only [List.mem_cons, List.not_mem_nil, or_false, not_or] at h
  rw [cut_initialItem, balanced_fails (stops_mark h.1), balanced_fails (stops_mark h.2.1),
    balanced_fails (stops_mark h.2.2)]
  rfl

/-- Where nothing begins that has two ends, the next character is one of the value or it is
the end of the value. -/
theorem cut_initialItem_single (h : c ∉ ['\x7b', '(', '[', '"', '\''])
    (hangle : angleGroup.cut (c :: r) = none) (hline : lineComment.cut (c :: r) = none)
    (hblock : blockComment.cut (c :: r) = none) :
    initialItem.cut (c :: r) = valueCharacter.cut (c :: r) := by
  simp only [List.mem_cons, List.not_mem_nil, or_false, not_or] at h
  rw [cut_initialItem_cons (by simp [h]), hangle, quotedLiteral_fails h.2.2.2.1,
    quotedLiteral_fails h.2.2.2.2, hline, hblock]
  rfl

/-- Neither a comment nor a group in angle brackets begins with another character. -/
theorem cut_initialItem_other (h : c ∉ ['\x7b', '(', '[', '"', '\'', '/', '<']) (r : List Char) :
    initialItem.cut (c :: r) = valueCharacter.cut (c :: r) := by
  simp only [List.mem_cons, List.not_mem_nil, or_false, not_or] at h
  have hslash : Stops (· == '/') (c :: r) := stops_mark h.2.2.2.2.2.1
  exact cut_initialItem_single (by simp [h]) (angleGroup_fails (stops_mark h.2.2.2.2.2.2))
    (lineComment_fails hslash) (blockComment_fails hslash)

theorem cut_initialItem_plain (hc : c ∉ valueMarks) (r : List Char) :
    initialItem.cut (c :: r) = some ((), r) := by
  simp only [valueMarks, List.mem_cons, List.not_mem_nil, or_false, not_or] at hc
  rw [cut_initialItem_other (by simp [hc]), cut_valueCharacter, if_neg (by simp [hc])]

/-- No part begins with a comma or a semicolon. -/
theorem initialItem_fails (hc : c ∈ [',', ';']) (r : List Char) : initialItem.cut (c :: r) = none := by
  simp only [List.mem_cons, List.not_mem_nil, or_false] at hc
  rcases hc with rfl | rfl <;> rw [cut_initialItem_other (by decide), cut_valueCharacter] <;> rfl

theorem cut_initialItem_slash (h : ¬BeginsComment ('/' :: r)) :
    initialItem.cut ('/' :: r) = some ((), r) := by
  obtain ⟨hline, hblock⟩ := comments_fail_of_not_beginsComment h
  rw [cut_initialItem_single (by decide) (angleGroup_fails (stops_mark (by decide))) hline hblock,
    cut_valueCharacter]
  rfl

theorem cut_initialItem_less (h : ∀ x, AngleText x → ¬x <+: '<' :: r) :
    initialItem.cut ('<' :: r) = some ((), r) := by
  have hslash : Stops (· == '/') ('<' :: r) := stops_mark (by decide)
  rw [cut_initialItem_single (by decide) (angleGroup_fails_of_forall h) (lineComment_fails hslash)
    (blockComment_fails hslash), cut_valueCharacter]
  rfl

theorem cut_initialItem_literal {quote : Char} (hquote : quote ∈ ['"', '\'']) {body : List Char}
    (hb : LiteralBody quote body) (r : List Char) :
    initialItem.cut (quote :: (body ++ quote :: r)) = some ((), r) := by
  simp only [List.mem_cons, List.not_mem_nil, or_false] at hquote
  rcases hquote with rfl | rfl
  · rw [cut_initialItem_cons (by decide), angleGroup_fails (stops_mark (by decide)),
      cut_quotedLiteral (by decide) hb]
    rfl
  · rw [cut_initialItem_cons (by decide), angleGroup_fails (stops_mark (by decide)),
      quotedLiteral_fails (by decide), cut_quotedLiteral (by decide) hb]
    rfl

/-- What begins with a slash is a comment, unless the slash means nothing. -/
theorem cut_initialItem_comment (r : List Char) :
    initialItem.cut ('/' :: r) = (lineComment.cut ('/' :: r)).or ((blockComment.cut ('/' :: r)).or
      (valueCharacter.cut ('/' :: r))) := by
  rw [cut_initialItem_cons (by decide), angleGroup_fails (stops_mark (by decide)),
    quotedLiteral_fails (by decide), quotedLiteral_fails (by decide)]
  rfl

theorem cut_initialItem_group {p : Char × Char} (hp : p ∈ delimiters) {x : List Char}
    (hx : BlockText p.1 p.2 x) (r : List Char) : initialItem.cut (x ++ r) = some ((), r) := by
  have hcut := hx.cut_balanced hp r
  obtain ⟨y, -, rfl⟩ := hx
  have hother : ∀ {o c}, p.1 ≠ o → (balanced o c).cut (p.1 :: (y ++ [p.2]) ++ r) = none := fun h =>
    balanced_fails (stops_mark h)
  simp only [delimiters, List.mem_cons, List.not_mem_nil, or_false] at hp
  rcases hp with rfl | rfl | rfl
  · rw [cut_initialItem, hother (by decide), hcut]
    rfl
  · rw [cut_initialItem, hother (by decide), hother (by decide), hcut]
    rfl
  · rw [cut_initialItem, hcut]
    rfl

theorem cut_initialItem_angle {x : List Char} (hx : AngleText x) (r : List Char) :
    initialItem.cut (x ++ r) = some ((), r) := by
  have hcut := hx.cut_angleGroup r
  obtain ⟨y, -, rfl⟩ := hx
  rw [List.cons_append] at hcut ⊢
  rw [cut_initialItem_cons (by decide), hcut, Option.some_or]

theorem consumes_initialItem : Consumes initialItem :=
  (consumes_balanced _ _).orElse ((consumes_balanced _ _).orElse ((consumes_balanced _ _).orElse
    (consumes_angleGroup.orElse ((consumes_delimited _ _ _).orElse ((consumes_delimited _ _ _).orElse
      (consumes_lineComment.orElse (consumes_blockComment.orElse
        ((Consumes.satisfy _).bind fun _ => .pure _))))))))

/-! ### Whole values -/

section Values

variable {rest e : List Char}

/-- What stands behind a value: a comma or a semicolon. -/
def EndsValue (rest : List Char) : Prop :=
  ∃ c r, rest = c :: r ∧ c ∈ [',', ';']

/-- Characters that mean nothing, in front of the rest of a value. -/
theorem InitialText.plains {x : List Char} (hx : ∀ c ∈ x, c ∉ valueMarks) (h : InitialText rest e) :
    InitialText rest (x ++ e) := by
  induction x with
  | nil => exact h
  | cons c x ih =>
      rw [List.forall_mem_cons] at hx
      exact .plain hx.1 (ih hx.2)

/-- A value is skipped up to the comma or the semicolon behind it. -/
theorem InitialText.cut_initialValue (h : InitialText rest e) (hrest : EndsValue rest) :
    initialValue.cut (e ++ rest) = some ((), rest) := by
  have hpart : ∀ {s r : List Char}, initialItem.cut s = some ((), r) →
      initialValue.cut s = initialValue.cut r := consumes_initialItem.cut_many_unit
  induction h with
  | nil =>
      obtain ⟨d, t, rfl, hd⟩ := hrest
      exact cut_many_unit_of_none (initialItem_fails hd t)
  | plain hc _ ih => rw [List.cons_append, hpart (cut_initialItem_plain hc _), ih]
  | slash hno _ ih => rw [List.cons_append, hpart (cut_initialItem_slash hno), ih]
  | less hno _ ih => rw [List.cons_append, hpart (cut_initialItem_less hno), ih]
  | literal hquote hb _ ih =>
      rw [List.cons_append, List.append_assoc, List.cons_append,
        hpart (cut_initialItem_literal hquote hb _), ih]
  | @line body r hb _ ih =>
      -- The comment leaves the line break, which means nothing.
      have hline : initialItem.cut ('/' :: '/' :: (body ++ '\n' :: (r ++ rest))) =
          some ((), '\n' :: (r ++ rest)) := by
        rw [cut_initialItem_comment, cut_lineComment hb, Option.some_or]
      rw [List.cons_append, List.cons_append, List.append_assoc, List.cons_append,
        hpart hline, hpart (cut_initialItem_plain (by decide) _), ih]
  | @comment body r hb _ ih =>
      have hblock : initialItem.cut ('/' :: '*' :: (body ++ '*' :: '/' :: (r ++ rest))) =
          some ((), r ++ rest) := by
        rw [cut_initialItem_comment, cut_lineComment_star, Option.none_or, cut_blockComment hb,
          Option.some_or]
      rw [List.cons_append, List.cons_append, List.append_assoc, List.cons_append, List.cons_append,
        hpart hblock, ih]
  | group hp hx _ ih =>
      rw [List.append_assoc, hpart (cut_initialItem_group hp hx _), ih]
  | angle hx _ ih =>
      rw [List.append_assoc, hpart (cut_initialItem_angle hx _), ih]

/-- A line break at the beginning of a value is a character that means nothing. -/
theorem InitialText.of_break (h : InitialText rest ('\n' :: e)) : InitialText rest e := by
  generalize hs : '\n' :: e = s at h
  cases h with
  | nil => cases hs
  | plain _ hr =>
      cases hs
      exact hr
  | literal hquote =>
      cases hs
      exact absurd hquote (by decide)
  | group hp hx =>
      obtain ⟨y, -, rfl⟩ := hx
      obtain ⟨hbreak, -⟩ := List.cons.inj hs
      exact absurd hbreak ((by decide : ∀ p ∈ delimiters, '\n' ≠ p.1) _ hp)
  | angle hx =>
      obtain ⟨y, -, rfl⟩ := hx
      cases hs
  | slash | less | line | comment => cases hs

/-- A character of a value means nothing where neither a comment nor a group begins. -/
theorem initialText_of_cut_valueCharacter {u : Unit} (h : valueCharacter.cut s = some (u, e ++ rest))
    (hangle : angleGroup.cut s = none) (hline : lineComment.cut s = none)
    (hblock : blockComment.cut s = none) (he : InitialText rest e) :
    ∃ c, s = c :: (e ++ rest) ∧ InitialText rest (c :: e) := by
  cases s with
  | nil => cases h
  | cons c s =>
      rw [cut_valueCharacter] at h
      split at h
      · cases h
      · rename_i hc
        cases h
        refine ⟨c, rfl, ?_⟩
        by_cases hless : c = '<'
        · subst hless
          refine .less (fun x hx hprefix => ?_) he
          obtain ⟨r, hr⟩ := hprefix
          rw [← hr, hx.cut_angleGroup r] at hangle
          cases hangle
        · by_cases hslash : c = '/'
          · subst hslash
            exact .slash (not_beginsComment_of_comments_fail hline hblock) he
          · simp only [List.mem_cons, List.not_mem_nil, or_false, not_or] at hc
            exact .plain (by simp [valueMarks, hc, hless, hslash]) he

/-- A part of a value goes in front of what is a value. -/
theorem initialText_of_cut_initialItem (hrest : EndsValue rest) {u : Unit}
    (h : initialItem.cut s = some (u, t)) (ht : ∃ e, InitialText rest e ∧ t = e ++ rest) :
    ∃ e, InitialText rest e ∧ s = e ++ rest := by
  obtain ⟨e, he, rfl⟩ := ht
  have hgroup : ∀ p ∈ delimiters, (balanced p.1 p.2).cut s = some (u, e ++ rest) →
      ∃ e, InitialText rest e ∧ s = e ++ rest := by
    intro p hp hcut
    obtain ⟨x, hx, rfl⟩ := blockText_of_cut_balanced hp hcut
    exact ⟨_, .group hp hx he, (List.append_assoc _ _ _).symm⟩
  simp only [cut_initialItem, Option.or_eq_some_iff] at h
  obtain h | ⟨-, h | ⟨-, h | ⟨-, h | ⟨hangle, h | ⟨-, h | ⟨-, h | ⟨hline, h | ⟨hblock, h⟩⟩⟩⟩⟩⟩⟩⟩ := h
  · exact hgroup ('\x7b', '\x7d') (by decide) h
  · exact hgroup ('(', ')') (by decide) h
  · exact hgroup ('[', ']') (by decide) h
  · obtain ⟨y, hy, rfl⟩ := exists_of_cut_unroll_angle _ s _ u h
    exact ⟨_, .angle ⟨y, hy, rfl⟩ he, by simp⟩
  · obtain ⟨body, hb, rfl⟩ := exists_of_cut_quotedLiteral h
    exact ⟨_, .literal (by simp) hb he, by simp⟩
  · obtain ⟨body, hb, rfl⟩ := exists_of_cut_quotedLiteral h
    exact ⟨_, .literal (by simp) hb he, by simp⟩
  · obtain ⟨body, hb, rfl, hstop⟩ := exists_of_cut_lineComment h
    -- The line ends inside the value, since what stands behind it is no line break.
    cases e with
    | nil =>
        obtain ⟨c, r, rfl, hc⟩ := hrest
        rw [List.nil_append, stops_cons] at hstop
        exact absurd hstop ((by decide : ∀ c ∈ [',', ';'], (c != '\n') ≠ false) c hc)
    | cons c e =>
        obtain rfl : c = '\n' := by simpa using stops_cons.mp hstop
        exact ⟨_, .line hb he.of_break, by simp⟩
  · obtain ⟨body, hb, rfl⟩ := exists_of_cut_blockComment h
    exact ⟨_, .comment hb he, by simp⟩
  · obtain ⟨c, rfl, hc⟩ := initialText_of_cut_valueCharacter h hangle hline hblock he
    exact ⟨_, hc, rfl⟩

/-- A value is skipped exactly if it is one. -/
theorem cut_initialValue_iff (hrest : EndsValue rest) :
    initialValue.cut (e ++ rest) = some ((), rest) ↔ InitialText rest e := by
  constructor
  · intro h
    rw [initialValue, cut_many_bind, Option.bind_eq_some_iff] at h
    obtain ⟨⟨us, t⟩, hmany, hend⟩ := h
    obtain rfl : t = rest := congrArg Prod.snd (Option.some.inj hend)
    obtain ⟨e', he', hs⟩ := cut_many_induct (motive := fun s => ∃ e, InitialText t e ∧ s = e ++ t)
      hmany (fun _ => ⟨[], .nil, rfl⟩) fun _ _ _ => initialText_of_cut_initialItem hrest
    rwa [List.append_cancel_right hs]
  · exact fun h => h.cut_initialValue hrest

/-- White space and comments in front of a value are part of it. -/
theorem InitialText.cut_trivia (h : InitialText rest e) (hrest : EndsValue rest) :
    ∃ e', InitialText rest e' ∧ trivia.cut (e ++ rest) = some ((), e' ++ rest) := by
  have hstay : ∀ {c : Char} {s : List Char}, beginsTrivia c = false →
      trivia.cut (c :: s) = some ((), c :: s) := fun hc =>
    cut_trivia_of_none (triviaItem_fails (stops_cons.mpr hc))
  have hfirst : ∀ p ∈ delimiters, beginsTrivia p.1 = false := by decide
  induction h with
  | nil =>
      obtain ⟨d, t, rfl, hd⟩ := hrest
      exact ⟨[], .nil, hstay ((by decide : ∀ c ∈ [',', ';'], beginsTrivia c = false) d hd)⟩
  | @plain c r hc hr ih =>
      obtain ⟨e', he', ih⟩ := ih
      by_cases hwhite : isWhite c = true
      · exact ⟨e', he', by rw [List.cons_append, cut_trivia_white hwhite, ih]⟩
      · refine ⟨c :: r, .plain hc hr, hstay ?_⟩
        rw [beginsTrivia, Bool.or_eq_false_iff]
        have hslash : c ≠ '/' := by
          rintro rfl
          exact hc (by decide)
        exact ⟨by simpa using hwhite, beq_eq_false_iff_ne.mpr hslash⟩
  | slash hno hr _ =>
      obtain ⟨hline, hblock⟩ := comments_fail_of_not_beginsComment hno
      refine ⟨_, .slash hno hr, cut_trivia_of_none ?_⟩
      rw [List.cons_append, cut_triviaItem_slash, hline, hblock, Option.none_or]
  | less hno hr _ => exact ⟨_, .less hno hr, hstay (by decide)⟩
  | literal hquote hb hr _ =>
      exact ⟨_, .literal hquote hb hr, hstay
        ((by decide : ∀ c ∈ ['"', '\''], beginsTrivia c = false) _ hquote)⟩
  | @line body r hb _ ih =>
      obtain ⟨e', he', ih⟩ := ih
      refine ⟨e', he', ?_⟩
      rw [List.cons_append, List.cons_append, List.append_assoc, List.cons_append,
        cut_trivia_line hb, ih]
  | @comment body r hb _ ih =>
      obtain ⟨e', he', ih⟩ := ih
      refine ⟨e', he', ?_⟩
      rw [List.cons_append, List.cons_append, List.append_assoc, List.cons_append, List.cons_append,
        cut_trivia_comment hb, ih]
  | group hp hx hr _ =>
      refine ⟨_, .group hp hx hr, ?_⟩
      obtain ⟨y, -, rfl⟩ := hx
      exact hstay (hfirst _ hp)
  | angle hx hr _ =>
      refine ⟨_, .angle hx hr, ?_⟩
      obtain ⟨y, -, rfl⟩ := hx
      exact hstay (by decide)

/-- **An initial value is skipped exactly** up to the comma or the semicolon behind it. -/
theorem InitialText.cut_value (h : InitialText rest e) (hrest : EndsValue rest) :
    (token ['='] >>= fun _ => initialValue).cut ('=' :: (e ++ rest)) = some ((), rest) := by
  obtain ⟨e', he', htrivia⟩ := h.cut_trivia hrest
  have hliteral : (Recogniser.literal ['=']).cut ('=' :: (e ++ rest)) = some ((), e ++ rest) :=
    cut_literal_append ['='] _
  rw [cut_bind_unit, token, cut_bind_unit, hliteral, Option.bind_some, htrivia, Option.bind_some,
    he'.cut_initialValue hrest]

end Values

end ClassModel.Source
