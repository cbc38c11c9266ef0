/-
Skipping groups.

A group is skipped exactly if the text begins with one, and then nothing but the group is
skipped.  Which part of a group comes next is seen from its first character, or from two of
them where a slash stands, so no part is ever read in two ways.  What is left to show is that
each part is cut off as it is described, and that a repetition of parts stops at the closing
delimiter and nowhere else.

The grammar of groups refers to itself behind the opening delimiter, so a group is a round of
the grammar with groups inside; and no round accepts anything but a group.
-/
import ClassModel.Proofs.Source.Enclosed
import ClassModel.Proofs.Source.Lexemes
import ClassModel.Proofs.Source.Recursion

namespace ClassModel.Source

open Recogniser

variable {s r : List Char} {opening closing : Char}

/-! ### Single characters -/

theorem cut_satisfy_eq_some_iff {q : Char → Bool} {c : Char} :
    (satisfy q).cut s = some (c, r) ↔ s = c :: r ∧ q c = true := by
  cases s with
  | nil => simp [cut_satisfy_of_stops]
  | cons d t =>
      rw [cut_satisfy_cons]
      split <;> grind

theorem cut_mark (c : Char) (r : List Char) : (satisfy (· == c)).cut (c :: r) = some (c, r) := by
  rw [cut_satisfy_cons, if_pos (beq_self_eq_true c)]

theorem cut_mark_eq_some {c d : Char} (h : (satisfy (· == c)).cut s = some (d, r)) : s = c :: r := by
  obtain ⟨rfl, hd⟩ := cut_satisfy_eq_some_iff.mp h
  rw [beq_iff_eq.mp hd]

theorem stops_mark {c d : Char} (h : d ≠ c) : Stops (· == c) (d :: r) :=
  stops_cons.mpr (beq_eq_false_iff_ne.mpr h)

/-! ### What stands between two characters -/

/-- Items between two characters. -/
def delimited (opening closing : Char) (item : Recogniser Unit) : Recogniser Unit := do
  let _ ← satisfy (· == opening)
  let _ ← many item
  let _ ← satisfy (· == closing)

theorem cut_delimited_eq_some_iff {item : Recogniser Unit} {u : Unit} :
    (delimited opening closing item).cut s = some (u, r) ↔
      ∃ t us, s = opening :: t ∧ cut (many item) t = some (us, closing :: r) := by
  constructor
  · intro h
    rw [delimited, cut_bind, Option.bind_eq_some_iff] at h
    obtain ⟨⟨c, t⟩, hc, h⟩ := h
    rw [cut_many_bind, Option.bind_eq_some_iff] at h
    obtain ⟨⟨us, t'⟩, hmany, h⟩ := h
    rw [cut_bind, Option.bind_eq_some_iff] at h
    obtain ⟨⟨d, t''⟩, hd, he⟩ := h
    obtain rfl : t'' = r := congrArg Prod.snd (Option.some.inj he)
    obtain rfl := cut_mark_eq_some hd
    exact ⟨t, us, cut_mark_eq_some hc, hmany⟩
  · rintro ⟨t, us, rfl, hmany⟩
    rw [delimited, cut_bind, cut_mark, Option.bind_some, cut_many_bind, hmany, Option.bind_some,
      cut_bind, cut_mark]
    rfl

theorem consumes_delimited (opening closing : Char) (item : Recogniser Unit) :
    Consumes (delimited opening closing item) :=
  (Consumes.satisfy _).bind fun _ => (Trims.many _).bind fun _ =>
    (Consumes.satisfy _).trims.bind fun _ => .pure _

theorem delimited_fails (h : Stops (· == opening) s) (item : Recogniser Unit) :
    (delimited opening closing item).cut s = none := by
  rw [delimited, cut_bind, cut_satisfy_of_stops h, Option.bind_none]

/-- The opening character stands in front of the items. -/
theorem guarded_delimited {item : Recogniser Unit → Recogniser Unit}
    (h : ∀ n p q, AgreesBelow n p q → AgreesBelow n (item p) (item q)) :
    Guarded fun nested => delimited opening closing (item nested) :=
  fun n p q hpq => .bind_consumes (Consumes.satisfy _) fun _ => (h n p q hpq).many.bind_left _

/-- Rounds cut off nothing but what is enclosed if that goes on behind each part. -/
theorem exists_of_cut_unroll_delimited {E : List Char → Prop}
    {item : Recogniser Unit → Recogniser Unit} (hnil : E [])
    (hitem : ∀ nested, (∀ s r u, nested.cut s = some (u, r) →
      ∃ x, E x ∧ s = opening :: (x ++ closing :: r)) → ∀ s t r u, (item nested).cut s = some (u, t) →
        (∃ y, E y ∧ t = y ++ closing :: r) → ∃ y, E y ∧ s = y ++ closing :: r) (n : Nat) :
    ∀ s r u, (unroll (fun nested => delimited opening closing (item nested)) n).cut s = some (u, r) →
      ∃ x, E x ∧ s = opening :: (x ++ closing :: r) := by
  induction n with
  | zero =>
      intro s r u h
      cases h
  | succ n ih =>
      intro s r u h
      obtain ⟨t, us, rfl, hmany⟩ := cut_delimited_eq_some_iff.mp h
      obtain ⟨x, hx, rfl⟩ := cut_many_induct (motive := fun t => ∃ y, E y ∧ t = y ++ closing :: r)
        hmany (fun _ => ⟨[], hnil, rfl⟩) fun s t _ hcut ht => hitem _ ih s t r _ hcut ht
      exact ⟨x, hx, rfl⟩

/-! ### Groups -/

/-- A round of a group. -/
def groupStep (opening closing : Char) (nested : Recogniser Unit) : Recogniser Unit :=
  delimited opening closing (groupItem opening closing nested)

/-- A group is a round of the grammar with groups inside. -/
theorem cut_balanced (s : List Char) :
    (balanced opening closing).cut s =
      (groupStep opening closing (balanced opening closing)).cut s :=
  cut_recursive (guarded_delimited fun n _ _ h => h.orElse (.refl n _)) s

theorem consumes_balanced (opening closing : Char) : Consumes (balanced opening closing) :=
  .recursive fun _ _ => consumes_delimited _ _ _

/-- No group begins with another character. -/
theorem balanced_fails (h : Stops (· == opening) s) : (balanced opening closing).cut s = none := by
  rw [cut_balanced, groupStep, delimited_fails h]

/-! ### Literals -/

section Literals

variable {quote : Char} {body : List Char}

theorem cut_literalItem_plain {c : Char} (hquote : c ≠ quote) (hslash : c ≠ '\\') (r : List Char) :
    (literalItem quote).cut (c :: r) = some ((), r) := by
  rw [literalItem, cut_orElse, cut_bind, cut_satisfy_cons, if_pos (by simp [hquote, hslash])]
  rfl

theorem cut_literalItem_escape (c : Char) (r : List Char) :
    (literalItem quote).cut ('\\' :: c :: r) = some ((), r) := by
  rw [literalItem, cut_orElse, cut_bind, cut_satisfy_cons, if_neg (by simp), Option.bind_none,
    Option.none_or, cut_bind, cut_mark, Option.bind_some, cut_bind, cut_satisfy_cons, if_pos rfl]
  rfl

theorem cut_literalItem_quote (hquote : quote ≠ '\\') (r : List Char) :
    (literalItem quote).cut (quote :: r) = none := by
  rw [literalItem, cut_orElse, cut_bind, cut_satisfy_cons, if_neg (by simp), Option.bind_none,
    Option.none_or, cut_bind, cut_satisfy_of_stops (stops_mark hquote), Option.bind_none]

/-- A character of a literal, behind a backslash or not. -/
theorem cut_literalItem_eq_some {u : Unit} (h : (literalItem quote).cut s = some (u, r)) :
    (∃ c, s = c :: r ∧ c ≠ quote ∧ c ≠ '\\') ∨ ∃ c, s = '\\' :: c :: r := by
  rw [literalItem, cut_orElse, Option.or_eq_some_iff] at h
  rcases h with h | ⟨-, h⟩
  · rw [cut_bind, Option.bind_eq_some_iff] at h
    obtain ⟨⟨c, t⟩, hc, he⟩ := h
    cases he
    obtain ⟨rfl, hq⟩ := cut_satisfy_eq_some_iff.mp hc
    exact Or.inl ⟨c, rfl, by simpa using hq⟩
  · rw [cut_bind, Option.bind_eq_some_iff] at h
    obtain ⟨⟨b, t⟩, hb, h⟩ := h
    rw [cut_bind, Option.bind_eq_some_iff] at h
    obtain ⟨⟨c, t'⟩, hc, he⟩ := h
    cases he
    obtain rfl := cut_mark_eq_some hb
    obtain ⟨rfl, -⟩ := cut_satisfy_eq_some_iff.mp hc
    exact Or.inr ⟨c, rfl⟩

theorem consumes_literalItem : Consumes (literalItem quote) :=
  ((Consumes.satisfy _).bind fun _ => .pure _).orElse
    ((Consumes.satisfy _).bind fun _ => (Consumes.satisfy _).trims.bind fun _ => .pure _)

/-- A closed literal is cut off. -/
theorem cut_quotedLiteral (hquote : quote ≠ '\\') (hb : LiteralBody quote body) (r : List Char) :
    (quotedLiteral quote).cut (quote :: (body ++ quote :: r)) = some ((), r) := by
  have hmany : ∃ us : List Unit, cut (many (literalItem quote)) (body ++ quote :: r) =
      some (us, quote :: r) := by
    induction hb with
    | nil => exact ⟨[], cut_many_of_none (cut_literalItem_quote hquote r)⟩
    | plain hq hs _ ih => exact consumes_literalItem.exists_cut_many (cut_literalItem_plain hq hs _) ih
    | escape _ ih => exact consumes_literalItem.exists_cut_many (cut_literalItem_escape _ _) ih
  obtain ⟨us, hmany⟩ := hmany
  exact cut_delimited_eq_some_iff.mpr ⟨_, us, rfl, hmany⟩

/-- Only closed literals are cut off. -/
theorem exists_of_cut_quotedLiteral {u : Unit} (h : (quotedLiteral quote).cut s = some (u, r)) :
    ∃ body, LiteralBody quote body ∧ s = quote :: (body ++ quote :: r) := by
  obtain ⟨t, us, rfl, hmany⟩ := cut_delimited_eq_some_iff.mp h
  have hbody : ∃ body, LiteralBody quote body ∧ t = body ++ quote :: r := by
    refine cut_many_induct (motive := fun t => ∃ body, LiteralBody quote body ∧
      t = body ++ quote :: r) hmany (fun _ => ⟨[], .nil, rfl⟩) ?_
    rintro t t' u hitem ⟨body, hb, rfl⟩
    rcases cut_literalItem_eq_some hitem with ⟨c, rfl, hq, hs⟩ | ⟨c, rfl⟩
    · exact ⟨c :: body, .plain hq hs hb, rfl⟩
    · exact ⟨'\\' :: c :: body, .escape hb, rfl⟩
  obtain ⟨body, hb, rfl⟩ := hbody
  exact ⟨body, hb, rfl⟩

end Literals

/-! ### Comments and slashes -/

theorem cut_literal_eq_some {w : List Char} {u : Unit} (h : (literal w).cut s = some (u, r)) :
    s = w ++ r := by
  rw [cut_literal] at h
  split at h
  · rename_i hp
    cases h
    obtain ⟨t, rfl⟩ := List.isPrefixOf_iff_prefix.mp hp
    rw [List.drop_left]
  · cases h

/-- Only line comments are cut off, up to the end of their line. -/
theorem exists_of_cut_lineComment {u : Unit} (h : lineComment.cut s = some (u, r)) :
    ∃ body, '\n' ∉ body ∧ s = '/' :: '/' :: (body ++ r) ∧ Stops (· != '\n') r := by
  rw [lineComment, cut_bind, Option.bind_eq_some_iff] at h
  obtain ⟨⟨v, t⟩, hopen, h⟩ := h
  obtain rfl := cut_literal_eq_some hopen
  rw [cut_bind, cut_run, Option.bind_some] at h
  obtain rfl : t.dropWhile (· != '\n') = r := congrArg Prod.snd (Option.some.inj h)
  refine ⟨t.takeWhile (· != '\n'), fun hmem => ?_, ?_, stops_dropWhile _ _⟩
  · simpa using of_mem_takeWhile hmem
  · rw [List.takeWhile_append_dropWhile]
    rfl

/-- Only closed comments are cut off, up to the first closing mark. -/
theorem exists_of_cut_blockComment {u : Unit} (h : blockComment.cut s = some (u, r)) :
    ∃ body, ¬['*', '/'] <:+: body ∧ s = '/' :: '*' :: (body ++ '*' :: '/' :: r) := by
  change (literal ['/', '*'] >>= fun _ => many commentItem >>= fun _ => literal ['*', '/']).cut s =
    _ at h
  rw [cut_bind, Option.bind_eq_some_iff] at h
  obtain ⟨⟨v, t⟩, hopen, h⟩ := h
  obtain rfl := cut_literal_eq_some hopen
  rw [cut_many_bind, Option.bind_eq_some_iff] at h
  obtain ⟨⟨us, t'⟩, hmany, hclose⟩ := h
  obtain rfl := cut_literal_eq_some hclose
  have hbody : ∃ body, ¬['*', '/'] <:+: body ∧ t = body ++ '*' :: '/' :: r := by
    refine cut_many_induct (motive := fun t => ∃ body, ¬['*', '/'] <:+: body ∧
      t = body ++ '*' :: '/' :: r) hmany (fun _ => ⟨[], by simp, rfl⟩) ?_
    rintro t t' c hitem ⟨body, hb, rfl⟩
    cases t with
    | nil => cases hitem
    | cons d t =>
        rw [cut_commentItem] at hitem
        split at hitem
        · cases hitem
        · rename_i hnot
          cases hitem
          -- A closing mark in the longer body would begin it, and the item would be none.
          refine ⟨c :: body, fun hin => ?_, rfl⟩
          rcases List.infix_cons_iff.mp hin with hp | hin
          · exact hnot (List.isPrefixOf_iff_prefix.mpr (hp.trans (List.prefix_append _ _)))
          · exact hb hin
  obtain ⟨body, hb, rfl⟩ := hbody
  exact ⟨body, hb, rfl⟩

theorem slash_fails {c : Char} (h : c ≠ '/') (r : List Char) : slash.cut (c :: r) = none := by
  have hstop : Stops (· == '/') (c :: r) := stops_mark h
  rw [slash, cut_bind_unit, cut_notFollowedBy, cut_literal_of_stops hstop, if_pos rfl,
    Option.bind_some, cut_bind_unit, cut_notFollowedBy, cut_literal_of_stops hstop, if_pos rfl,
    Option.bind_some, cut_bind, cut_satisfy_of_stops hstop, Option.bind_none]

theorem cut_literal_slash {c : Char} (h : ∀ d ∈ r.head?, d ≠ c) :
    (literal ['/', c]).cut ('/' :: r) = none := by
  rw [cut_literal, if_neg]
  intro hp
  obtain ⟨t, ht⟩ := List.isPrefixOf_iff_prefix.mp hp
  cases ht
  exact h c rfl rfl

/-- A slash in front of anything but a slash or a star begins no comment. -/
theorem comments_fail (h : ∀ c ∈ r.head?, c ∉ ['/', '*']) :
    lineComment.cut ('/' :: r) = none ∧ blockComment.cut ('/' :: r) = none := by
  constructor
  · rw [lineComment, cut_bind_unit, cut_literal_slash fun c hc he => h c hc (by simp [he]),
      Option.bind_none]
  · rw [blockComment, cut_bind_unit, cut_literal_slash fun c hc he => h c hc (by simp [he]),
      Option.bind_none]

/-- Where no comment begins, none is cut off. -/
theorem comments_fail_of_not_beginsComment (h : ¬BeginsComment s) :
    lineComment.cut s = none ∧ blockComment.cut s = none := by
  constructor
  · cases hcut : lineComment.cut s with
    | none => rfl
    | some x =>
        obtain ⟨body, -, rfl, -⟩ := exists_of_cut_lineComment hcut
        exact absurd .line h
  · cases hcut : blockComment.cut s with
    | none => rfl
    | some x =>
        obtain ⟨body, hb, rfl⟩ := exists_of_cut_blockComment hcut
        exact absurd (.block hb) h

theorem not_beginsComment_of_comments_fail (hline : lineComment.cut s = none)
    (hblock : blockComment.cut s = none) : ¬BeginsComment s := by
  intro h
  cases h with
  | line =>
      rw [lineComment, cut_bind_unit, cut_literal] at hline
      cases hline
  | block hb =>
      rw [cut_blockComment hb] at hblock
      cases hblock

/-- A slash that begins no comment is cut off. -/
theorem cut_slash (h : ∀ c ∈ r.head?, c ∉ ['/', '*']) : slash.cut ('/' :: r) = some ((), r) := by
  have hline : (literal ['/', '/']).cut ('/' :: r) = none :=
    cut_literal_slash fun c hc he => h c hc (by simp [he])
  have hblock : (literal ['/', '*']).cut ('/' :: r) = none :=
    cut_literal_slash fun c hc he => h c hc (by simp [he])
  rw [slash, cut_bind_unit, cut_notFollowedBy, hline, if_pos rfl, Option.bind_some, cut_bind_unit,
    cut_notFollowedBy, hblock, if_pos rfl, Option.bind_some, cut_bind, cut_mark]
  rfl

/-- Only slashes that begin no comment are cut off. -/
theorem eq_of_cut_slash {u : Unit} (h : slash.cut s = some (u, r)) :
    s = '/' :: r ∧ ∀ c ∈ r.head?, c ∉ ['/', '*'] := by
  rw [slash, cut_bind_unit, cut_notFollowedBy] at h
  by_cases hline : (literal ['/', '/']).cut s = none
  · rw [if_pos hline, Option.bind_some, cut_bind_unit, cut_notFollowedBy] at h
    by_cases hblock : (literal ['/', '*']).cut s = none
    · rw [if_pos hblock, Option.bind_some, cut_bind, Option.bind_eq_some_iff] at h
      obtain ⟨⟨c, t⟩, hc, he⟩ := h
      cases he
      obtain rfl := cut_mark_eq_some hc
      refine ⟨rfl, fun d hd hmem => ?_⟩
      obtain ⟨t, rfl⟩ := List.head?_eq_some_iff.mp hd
      have hopens : ∀ e, (literal ['/', e]).cut ('/' :: e :: t) = some ((), t) := fun e =>
        cut_literal_append ['/', e] t
      simp only [List.mem_cons, List.not_mem_nil, or_false] at hmem
      rcases hmem with rfl | rfl
      · rw [hopens] at hline
        cases hline
      · rw [hopens] at hblock
        cases hblock
    · rw [if_neg hblock] at h
      cases h
  · rw [if_neg hline] at h
    cases h

/-! ### The parts of a group -/

/-- Characters that mean nothing. -/
theorem Enclosed.plains {x : List Char} (hx : ∀ c ∈ x, c ∉ [opening, closing, '"', '\'', '/']) :
    Enclosed opening closing x := by
  induction x with
  | nil => exact .nil
  | cons c x ih =>
      rw [List.forall_mem_cons] at hx
      exact .plain hx.1 (ih hx.2)

/-- The characters of comments and literals are no delimiters. -/
theorem ne_of_isMark {c d : Char} (hc : isMark c = true) (hd : isMark d = false) : c ≠ d := by
  rintro rfl
  rw [hc] at hd
  cases hd

section Items

variable {nested : Recogniser Unit} {c : Char}

theorem cut_groupItem (nested : Recogniser Unit) (s : List Char) :
    (groupItem opening closing nested).cut s =
      (nested.cut s).or (((quotedLiteral '"').cut s).or (((quotedLiteral '\'').cut s).or
        ((lineComment.cut s).or ((blockComment.cut s).or
          ((slash.cut s).or ((plainCharacter opening closing).cut s)))))) := by
  rw [groupItem, cut_orElse, cut_orElse, cut_orElse, cut_orElse, cut_orElse, cut_orElse]

theorem consumes_groupItem (h : Consumes nested) : Consumes (groupItem opening closing nested) := by
  have hslash : Consumes slash :=
    .bind_right (Trims.notFollowedBy _) fun _ => .bind_right (Trims.notFollowedBy _) fun _ =>
      (Consumes.satisfy _).bind fun _ => .pure _
  have hplain : Consumes (plainCharacter opening closing) :=
    (Consumes.satisfy _).bind fun _ => .pure _
  exact h.orElse ((consumes_delimited _ _ _).orElse ((consumes_delimited _ _ _).orElse
    (consumes_lineComment.orElse (consumes_blockComment.orElse (hslash.orElse hplain)))))

theorem quotedLiteral_fails {quote : Char} (h : c ≠ quote) (r : List Char) :
    (quotedLiteral quote).cut (c :: r) = none :=
  delimited_fails (stops_mark h) _

/-- A character that begins no group, literal or comment means nothing. -/
theorem cut_groupItem_cons (hnested : nested.cut (c :: r) = none) (hdouble : c ≠ '"')
    (hsingle : c ≠ '\'') (hslash : c ≠ '/') :
    (groupItem opening closing nested).cut (c :: r) =
      (plainCharacter opening closing).cut (c :: r) := by
  have hstop : Stops (· == '/') (c :: r) := stops_mark hslash
  rw [cut_groupItem, hnested, quotedLiteral_fails hdouble, quotedLiteral_fails hsingle,
    lineComment_fails hstop, blockComment_fails hstop, slash_fails hslash]
  rfl

/-- A slash may begin a comment. -/
theorem cut_groupItem_slash (hnested : nested.cut ('/' :: r) = none) :
    (groupItem opening closing nested).cut ('/' :: r) =
      (lineComment.cut ('/' :: r)).or ((blockComment.cut ('/' :: r)).or
        ((slash.cut ('/' :: r)).or ((plainCharacter opening closing).cut ('/' :: r)))) := by
  rw [cut_groupItem, hnested, quotedLiteral_fails (by decide), quotedLiteral_fails (by decide)]
  rfl

theorem cut_plainCharacter (hc : c ∉ [opening, closing, '"', '\'', '/']) (r : List Char) :
    (plainCharacter opening closing).cut (c :: r) = some ((), r) := by
  have hall : (c != opening && c != closing && c != '"' && c != '\'' && c != '/') = true := by
    simpa [and_assoc] using hc
  rw [plainCharacter, cut_bind, cut_satisfy_cons, if_pos hall]
  rfl

theorem eq_of_cut_plainCharacter {u : Unit} (h : (plainCharacter opening closing).cut s = some (u, r)) :
    ∃ c, s = c :: r ∧ c ∉ [opening, closing, '"', '\'', '/'] := by
  rw [plainCharacter, cut_bind, Option.bind_eq_some_iff] at h
  obtain ⟨⟨c, t⟩, hc, he⟩ := h
  cases he
  obtain ⟨rfl, hall⟩ := cut_satisfy_eq_some_iff.mp hc
  exact ⟨c, rfl, by simpa [and_assoc] using hall⟩

/-- A character that means nothing is cut off as it is. -/
theorem cut_groupItem_plain (hc : c ∉ [opening, closing, '"', '\'', '/'])
    (hnested : ∀ r, nested.cut (c :: r) = none) (r : List Char) :
    (groupItem opening closing nested).cut (c :: r) = some ((), r) := by
  have hne : c ≠ '"' ∧ c ≠ '\'' ∧ c ≠ '/' := by
    refine ⟨?_, ?_, ?_⟩ <;> (rintro rfl; simp at hc)
  rw [cut_groupItem_cons (hnested r) hne.1 hne.2.1 hne.2.2, cut_plainCharacter hc]

/-- A slash that begins no comment means nothing either. -/
theorem cut_groupItem_plainSlash (hnext : ∀ c ∈ r.head?, c ∉ ['/', '*'])
    (hnested : nested.cut ('/' :: r) = none) :
    (groupItem opening closing nested).cut ('/' :: r) = some ((), r) := by
  obtain ⟨hline, hblock⟩ := comments_fail hnext
  rw [cut_groupItem_slash hnested, hline, hblock, cut_slash hnext]
  rfl

theorem cut_groupItem_literal {quote : Char} {body : List Char} (hquote : quote ∈ ['"', '\''])
    (hb : LiteralBody quote body) (hnested : ∀ r, nested.cut (quote :: r) = none) (r : List Char) :
    (groupItem opening closing nested).cut (quote :: (body ++ quote :: r)) = some ((), r) := by
  simp only [List.mem_cons, List.not_mem_nil, or_false] at hquote
  rcases hquote with rfl | rfl
  · rw [cut_groupItem, hnested, cut_quotedLiteral (by decide) hb]
    rfl
  · rw [cut_groupItem, hnested, quotedLiteral_fails (by decide), cut_quotedLiteral (by decide) hb]
    rfl

/-- A line comment leaves its line break. -/
theorem cut_groupItem_line {body : List Char} (hb : '\n' ∉ body)
    (hnested : ∀ r, nested.cut ('/' :: r) = none) (r : List Char) :
    (groupItem opening closing nested).cut ('/' :: '/' :: (body ++ '\n' :: r)) =
      some ((), '\n' :: r) := by
  rw [cut_groupItem_slash (hnested _), cut_lineComment hb, Option.some_or]

theorem cut_groupItem_comment {body : List Char} (hb : ¬['*', '/'] <:+: body)
    (hnested : ∀ r, nested.cut ('/' :: r) = none) (r : List Char) :
    (groupItem opening closing nested).cut ('/' :: '*' :: (body ++ '*' :: '/' :: r)) =
      some ((), r) := by
  rw [cut_groupItem_slash (hnested _), cut_lineComment_star, Option.none_or, cut_blockComment hb,
    Option.some_or]

/-- A group inside comes before everything else. -/
theorem cut_groupItem_nested {u : Unit} (hnested : nested.cut s = some (u, r)) :
    (groupItem opening closing nested).cut s = some (u, r) := by
  rw [cut_groupItem, hnested, Option.some_or]

/-- The closing delimiter is no part of a group. -/
theorem groupItem_fails (hclosing : isMark closing = false)
    (hnested : nested.cut (closing :: r) = none) :
    (groupItem opening closing nested).cut (closing :: r) = none := by
  have hmark : ∀ {c}, isMark c = true → closing ≠ c := fun hc => (ne_of_isMark hc hclosing).symm
  rw [cut_groupItem_cons hnested (hmark rfl) (hmark rfl) (hmark rfl), plainCharacter, cut_bind,
    cut_satisfy_cons, if_neg (by simp)]
  rfl

end Items

/-! ### What is enclosed is passed over -/

section Reading

/-- The parts of a group are passed over up to its closing delimiter. -/
theorem cut_many_groupItem (hd : (opening, closing) ∈ delimiters) {y : List Char}
    (hy : Enclosed opening closing y) (r : List Char) :
    ∃ us : List Unit, cut (many (groupItem opening closing (balanced opening closing)))
      (y ++ closing :: r) = some (us, closing :: r) := by
  obtain ⟨hne, hopening, hclosing⟩ := apart_of_mem_delimiters _ hd
  have hitems : Consumes (groupItem opening closing (balanced opening closing)) :=
    consumes_groupItem (consumes_balanced opening closing)
  have hfails : ∀ c, c ≠ opening → ∀ r, (balanced opening closing).cut (c :: r) = none :=
    fun c hc r => balanced_fails (stops_mark hc)
  have hmark : ∀ c, isMark c = true → ∀ r, (balanced opening closing).cut (c :: r) = none :=
    fun c hc => hfails c (ne_of_isMark hc hopening)
  induction hy generalizing r with
  | nil => exact ⟨[], cut_many_of_none (groupItem_fails hclosing (hfails closing hne.symm r))⟩
  | @plain c y hc _ ih =>
      have hco : c ≠ opening := by
        rintro rfl
        simp at hc
      exact hitems.exists_cut_many (cut_groupItem_plain hc (hfails c hco) _) (ih r)
  | @slash y hnext _ ih =>
      refine hitems.exists_cut_many (cut_groupItem_plainSlash ?_ (hmark '/' rfl _)) (ih r)
      -- Behind the last slash stands the closing delimiter, which begins no comment either.
      cases y with
      | nil =>
          rintro c ⟨⟩ hmem
          simp only [List.mem_cons, List.not_mem_nil, or_false] at hmem
          rcases hmem with rfl | rfl <;> cases hclosing
      | cons d y => exact hnext
  | @literal quote body y hquote hb _ ih =>
      have hquoteMark : isMark quote = true := by
        simp only [List.mem_cons, List.not_mem_nil, or_false] at hquote
        rcases hquote with rfl | rfl <;> rfl
      rw [List.cons_append, List.append_assoc, List.cons_append]
      exact hitems.exists_cut_many (cut_groupItem_literal hquote hb (hmark quote hquoteMark) _) (ih r)
  | @line body y hb _ ih =>
      have hbreak : '\n' ∉ [opening, closing, '"', '\'', '/'] := by
        simp [ne_of_isMark (c := '\n') rfl hopening, ne_of_isMark (c := '\n') rfl hclosing]
      rw [List.cons_append, List.cons_append, List.append_assoc, List.cons_append]
      exact hitems.exists_cut_many (cut_groupItem_line hb (hmark '/' rfl) _)
        (hitems.exists_cut_many (cut_groupItem_plain hbreak (hmark '\n' rfl) _) (ih r))
  | @comment body y hb _ ih =>
      rw [List.cons_append, List.cons_append, List.append_assoc, List.cons_append, List.cons_append]
      exact hitems.exists_cut_many (cut_groupItem_comment hb (hmark '/' rfl) _) (ih r)
  | @group x y _ _ ihx ih =>
      obtain ⟨us, ihx⟩ := ihx (y ++ closing :: r)
      have hnested : (balanced opening closing).cut
          (opening :: (x ++ closing :: (y ++ closing :: r))) = some ((), y ++ closing :: r) := by
        rw [cut_balanced]
        exact cut_delimited_eq_some_iff.mpr ⟨_, us, rfl, ihx⟩
      rw [List.cons_append, List.append_assoc, List.cons_append]
      exact hitems.exists_cut_many (cut_groupItem_nested hnested) (ih r)

theorem cut_balanced_of_enclosed (hd : (opening, closing) ∈ delimiters) {y : List Char}
    (hy : Enclosed opening closing y) (r : List Char) :
    (balanced opening closing).cut (opening :: (y ++ closing :: r)) = some ((), r) := by
  obtain ⟨us, hmany⟩ := cut_many_groupItem hd hy r
  rw [cut_balanced]
  exact cut_delimited_eq_some_iff.mpr ⟨_, us, rfl, hmany⟩

end Reading

/-! ### Nothing else is passed over -/

section Sound

variable {nested : Recogniser Unit}

/-- What is enclosed goes on behind each part of a group. -/
theorem enclosed_groupItem (hclosing : isMark closing = false)
    (hbreak : '\n' ∉ [opening, closing])
    (hnested : ∀ s r u, nested.cut s = some (u, r) →
      ∃ x, Enclosed opening closing x ∧ s = opening :: (x ++ closing :: r))
    {t : List Char} {u : Unit} (h : (groupItem opening closing nested).cut s = some (u, t))
    (ht : ∃ y, Enclosed opening closing y ∧ t = y ++ closing :: r) :
    ∃ y, Enclosed opening closing y ∧ s = y ++ closing :: r := by
  obtain ⟨y, hy, rfl⟩ := ht
  have hmark : ∀ {c}, isMark c = true → c ≠ closing := fun hc => ne_of_isMark hc hclosing
  simp only [cut_groupItem, Option.or_eq_some_iff] at h
  rcases h with h | ⟨-, h | ⟨-, h | ⟨-, h | ⟨-, h | ⟨-, h | ⟨-, h⟩⟩⟩⟩⟩⟩
  · obtain ⟨x, hx, rfl⟩ := hnested _ _ _ h
    exact ⟨_, .group hx hy, by simp⟩
  · obtain ⟨body, hb, rfl⟩ := exists_of_cut_quotedLiteral h
    exact ⟨_, .literal (by simp) hb hy, by simp⟩
  · obtain ⟨body, hb, rfl⟩ := exists_of_cut_quotedLiteral h
    exact ⟨_, .literal (by simp) hb hy, by simp⟩
  · obtain ⟨body, hb, rfl, hstop⟩ := exists_of_cut_lineComment h
    -- The line ends inside the group, since its closing delimiter is no line break.
    cases y with
    | nil => exact absurd (by simpa using stops_cons.mp hstop) (hmark (c := '\n') rfl).symm
    | cons c y =>
        obtain rfl : c = '\n' := by simpa using stops_cons.mp hstop
        refine ⟨'/' :: '/' :: (body ++ '\n' :: y), .line hb ?_, by simp⟩
        cases hy with
        | plain _ hr => exact hr
        | literal hquote => exact absurd hquote (by decide)
        | group => exact absurd hbreak (by simp)
  · obtain ⟨body, hb, rfl⟩ := exists_of_cut_blockComment h
    exact ⟨_, .comment hb hy, by simp⟩
  · obtain ⟨rfl, hnext⟩ := eq_of_cut_slash h
    refine ⟨_, .slash (fun c hc => hnext c ?_) hy, by simp⟩
    rw [List.head?_append, Option.mem_def.mp hc, Option.some_or]
    rfl
  · obtain ⟨c, rfl, hc⟩ := eq_of_cut_plainCharacter h
    exact ⟨_, .plain hc hy, by simp⟩

/-- Each round cuts off nothing but groups. -/
theorem exists_of_cut_unroll_groupStep (hd : (opening, closing) ∈ delimiters) (n : Nat) :
    ∀ s r u, (unroll (groupStep opening closing) n).cut s = some (u, r) →
      ∃ x, Enclosed opening closing x ∧ s = opening :: (x ++ closing :: r) := by
  obtain ⟨-, hopening, hclosing⟩ := apart_of_mem_delimiters _ hd
  have hbreak : '\n' ∉ [opening, closing] := by
    simp [ne_of_isMark (c := '\n') rfl hopening, ne_of_isMark (c := '\n') rfl hclosing]
  exact exists_of_cut_unroll_delimited .nil
    (fun _ hnested _ _ _ _ hcut ht => enclosed_groupItem hclosing hbreak hnested hcut ht) n

end Sound

/-! ### Groups are recognised exactly -/

section Exact

variable {x y : List Char}

theorem BlockText.cut_balanced (hd : (opening, closing) ∈ delimiters)
    (hx : BlockText opening closing x) (r : List Char) :
    (balanced opening closing).cut (x ++ r) = some ((), r) := by
  obtain ⟨y, hy, rfl⟩ := hx
  rw [List.cons_append, List.append_assoc]
  exact cut_balanced_of_enclosed hd hy r

theorem blockText_of_cut_balanced (hd : (opening, closing) ∈ delimiters) {u : Unit}
    (h : (balanced opening closing).cut s = some (u, r)) :
    ∃ x, BlockText opening closing x ∧ s = x ++ r := by
  obtain ⟨x, hx, rfl⟩ := exists_of_cut_unroll_groupStep hd _ s r u h
  exact ⟨_, ⟨x, hx, rfl⟩, by simp⟩

/-- A text begins with one group at most. -/
theorem BlockText.eq_of_prefix (hd : (opening, closing) ∈ delimiters)
    (hx : BlockText opening closing x) (hy : BlockText opening closing y) (hxs : x <+: s)
    (hys : y <+: s) : x = y := by
  obtain ⟨r, rfl⟩ := hxs
  obtain ⟨t, ht⟩ := hys
  have hcut := hy.cut_balanced hd t
  rw [ht, hx.cut_balanced hd r] at hcut
  cases hcut
  exact (List.append_cancel_right ht).symm

/-- **Groups are recognised exactly.**  A group is skipped if and only if the text begins with
one, the text begins with one group at most, and nothing but the group is skipped. -/
theorem balanced_exact {opening closing : Char} (hd : (opening, closing) ∈ delimiters)
    (s : List Char) :
    ((balanced opening closing (Input.ofChars s)).outcome.isSome = true ↔
        ∃ x, BlockText opening closing x ∧ x <+: s) ∧
      (∀ x y, BlockText opening closing x → BlockText opening closing y → x <+: s → y <+: s → x = y) ∧
      ∀ x r, BlockText opening closing x → s = x ++ r →
        (balanced opening closing (Input.ofChars s)).outcome = some ((), Input.ofChars r) := by
  refine ⟨⟨fun h => ?_, ?_⟩, fun x y hx hy => hx.eq_of_prefix hd hy, ?_⟩
  · obtain ⟨⟨u, i⟩, ho⟩ := Option.isSome_iff_exists.mp h
    rw [← Input.ofChars_chars i, outcome_eq_some_iff] at ho
    obtain ⟨x, hx, rfl⟩ := blockText_of_cut_balanced hd ho
    exact ⟨x, hx, List.prefix_append _ _⟩
  · rintro ⟨x, hx, r, rfl⟩
    rw [outcome_eq_some_iff.mpr (hx.cut_balanced hd r)]
    rfl
  · rintro x r hx rfl
    exact outcome_eq_some_iff.mpr (hx.cut_balanced hd r)

/-- What a body encloses: a literal, a group inside, and comments that hold its braces. -/
theorem enclosed_bodyText :
    Enclosed '\x7b' '\x7d' "\"\\\"\x7d\" \x7ba / b\x7d /* \x7d */ // \x7d\n".toList := by
  have hliteral : LiteralBody '"' "\\\"\x7d".toList := .escape (.plain (by decide) (by decide) .nil)
  have hgroup : Enclosed '\x7b' '\x7d' "a / b".toList :=
    .plain (by decide) (.plain (by decide) (.slash (by decide) (.plains (x := " b".toList) (by decide))))
  have hcomment : ¬['*', '/'] <:+: " \x7d ".toList := by decide
  have hline : '\n' ∉ " \x7d".toList := by decide
  exact .literal (by decide) hliteral (.plain (by decide) (.group hgroup (.plain (by decide)
    (.comment hcomment (.plain (by decide) (.line hline .nil))))))

theorem balanced_exact_bodyText :
    ('\x7b', '\x7d') ∈ delimiters ∧
      (balanced '\x7b' '\x7d' (Input.ofChars
        "\x7b\"\\\"\x7d\" \x7ba / b\x7d /* \x7d */ // \x7d\n\x7d int n;".toList)).outcome =
        some ((), Input.ofChars " int n;".toList) :=
  ⟨by decide, (balanced_exact (by decide) _).2.2 _ _ ⟨_, enclosed_bodyText, rfl⟩ rfl⟩

end Exact

end ClassModel.Source
