/-
Where the body of a declaration opens.

A header is read up to its name or its clauses, and whatever follows is passed over up to the
first opening brace.  Nothing that was read before holds such a brace: names are words, and
between them stand spaces and commas.  So the body opens behind the first brace of the line,
wherever that is, and a header line without one opens no body.
-/
import ClassModel.Proofs.Diagram.Headers

namespace ClassModel

open LineParser

/-! ### What a parser takes -/

namespace LineParser

/-- What a parser takes off the front of a line satisfies a condition. -/
def Takes {α : Type} (c : Char → Bool) (p : LineParser α) : Prop :=
  ∀ ⦃s a r⦄, p s = some (a, r) → ∃ u, s = u ++ r ∧ ∀ d ∈ u, c d = true

namespace Takes

variable {α β : Type} {c : Char → Bool} {p : LineParser α}

theorem pure (a : α) : Takes c (pure a) := by
  intro s b r h
  cases h
  exact ⟨[], rfl, fun d hd => absurd hd List.not_mem_nil⟩

theorem bind {f : α → LineParser β} (hp : Takes c p) (hf : ∀ a, Takes c (f a)) :
    Takes c (p >>= f) := by
  intro s b r h
  rw [bind_apply, Option.bind_eq_some_iff] at h
  obtain ⟨⟨a, t⟩, ha, hb⟩ := h
  obtain ⟨u, rfl, hu⟩ := hp ha
  obtain ⟨v, rfl, hv⟩ := hf a hb
  refine ⟨u ++ v, (List.append_assoc u v r).symm, fun d hd => ?_⟩
  rcases List.mem_append.mp hd with hd | hd
  · exact hu d hd
  · exact hv d hd

theorem orElse {q : LineParser α} (hp : Takes c p) (hq : Takes c q) : Takes c (p <|> q) := by
  intro s a r h
  rw [orElse_apply, Option.or_eq_some_iff] at h
  rcases h with h | ⟨-, h⟩
  · exact hp h
  · exact hq h

theorem optional (hp : Takes c p) : Takes c (optional p) := by
  intro s o r h
  rcases optional_eq_some_iff.mp h with ⟨a, -, ha⟩ | ⟨-, -, rfl⟩
  · exact hp ha
  · exact ⟨[], rfl, fun d hd => absurd hd List.not_mem_nil⟩

theorem many (hp : Takes c p) : Takes c (many p) := by
  intro s as r h
  refine many_induct (motive := fun s _ r => ∃ u, s = u ++ r ∧ ∀ d ∈ u, c d = true)
    (fun _ _ => ⟨[], rfl, fun d hd => absurd hd List.not_mem_nil⟩) ?_ h
  intro s a r as t hs ht
  obtain ⟨u, rfl, hu⟩ := hp hs
  obtain ⟨v, rfl, hv⟩ := ht
  refine ⟨u ++ v, (List.append_assoc u v t).symm, fun d hd => ?_⟩
  rcases List.mem_append.mp hd with hd | hd
  · exact hu d hd
  · exact hv d hd

theorem satisfy {q : Char → Bool} (hq : ∀ d, q d = true → c d = true) : Takes c (satisfy q) := by
  intro s a r h
  obtain ⟨rfl, ha⟩ := satisfy_eq_some_iff.mp h
  refine ⟨[a], rfl, fun d hd => ?_⟩
  rw [List.mem_singleton.mp hd]
  exact hq a ha

theorem run {q : Char → Bool} (hq : ∀ d, q d = true → c d = true) : Takes c (run q) := by
  intro s a r h
  cases h
  exact ⟨s.takeWhile q, (run_append q s).symm, fun d hd => hq d (of_mem_takeWhile hd)⟩

theorem run1 {q : Char → Bool} (hq : ∀ d, q d = true → c d = true) : Takes c (run1 q) := by
  intro s a r h
  obtain ⟨-, -, rfl⟩ := run1_eq_some_iff.mp h
  exact ⟨s.takeWhile q, (run_append q s).symm, fun d hd => hq d (of_mem_takeWhile hd)⟩

theorem keyword {w : String} (hw : ∀ d ∈ w.toList, c d = true) : Takes c (keyword w) := by
  intro s a r h
  exact ⟨w.toList, keyword_eq_some h, hw⟩

end Takes

theorem takes_spaces : Takes (· != '\x7b') spaces ∧ Takes (· != '\x7b') spaces1 := by
  have hspace : ∀ d, isSpace d = true → (d != '\x7b') = true := by
    intro d hd
    rw [bne_iff_ne]
    rintro rfl
    exact absurd hd (by decide)
  exact ⟨.bind (.run hspace) fun _ => .pure _, .bind (.run1 hspace) fun _ => .pure _⟩

theorem takes_name : Takes (· != '\x7b') name :=
  .bind (.run1 fun _ hd => bne_iff_ne.mpr (ne_of_isWordChar hd (by decide))) fun _ => .pure _

/-- No clause of a class header takes an opening brace. -/
theorem takes_clauses :
    Takes (· != '\x7b') extendsClause ∧ Takes (· != '\x7b') implementsClause := by
  have hcomma : Takes (· != '\x7b') (char ',') := by
    refine .satisfy fun d hd => ?_
    rw [beq_iff_eq.mp hd]
    rfl
  have hnext : Takes (· != '\x7b') nextName :=
    .bind takes_spaces.1 fun _ => .bind hcomma fun _ => .bind takes_spaces.1 fun _ => takes_name
  constructor
  · exact .optional (.bind (.keyword (by decide)) fun _ => .bind takes_spaces.2 fun _ =>
      .bind takes_name fun _ => .bind takes_spaces.1 fun _ => .pure _)
  · exact .bind (.optional (.bind (.keyword (by decide)) fun _ => .bind takes_spaces.2 fun _ =>
      .bind takes_name fun _ => .bind (.many hnext) fun _ => .bind takes_spaces.1 fun _ => .pure _))
        fun _ => .pure _

/-- Nor does a header in front of its opening brace. -/
theorem takes_declaration : Takes (· != '\x7b')
    (classHeader <|> plainHeader "interface" .ofInterface <|> plainHeader "enum" .ofEnum) := by
  have hclass : Takes (· != '\x7b') classHeader :=
    .bind (.optional (.bind (.keyword (by decide)) fun _ => takes_spaces.2)) fun _ =>
      .bind (.keyword (by decide)) fun _ => .bind takes_spaces.2 fun _ => .bind takes_name fun _ =>
        .bind takes_spaces.1 fun _ => .bind takes_clauses.1 fun _ => .bind takes_clauses.2 fun _ =>
          .pure _
  have hplain : ∀ (w : String) (kind : HeaderKind), (∀ d ∈ w.toList, (d != '\x7b') = true) →
      Takes (· != '\x7b') (plainHeader w kind) := fun w kind hw =>
    .bind (.keyword hw) fun _ => .bind takes_spaces.2 fun _ => .bind takes_name fun _ => .pure _
  exact .orElse hclass (.orElse (hplain _ _ (by decide)) (hplain _ _ (by decide)))

end LineParser

/-! ### The first brace -/

/-- What stands behind the first opening brace of a text. -/
def afterBrace? (s : List Char) : Option (List Char) :=
  match s.dropWhile (· != '\x7b') with
  | [] => none
  | _ :: r => some r

/-- A text without braces in front changes nothing. -/
theorem afterBrace?_append {s : List Char} (hs : ∀ c ∈ s, (c != '\x7b') = true) (t : List Char) :
    afterBrace? (s ++ t) = afterBrace? t := by
  rw [afterBrace?, List.dropWhile_append_of_pos hs, afterBrace?]

theorem afterBrace?_of_not_mem {s : List Char} (hs : '\x7b' ∉ s) : afterBrace? s = none := by
  have hne : ∀ c ∈ s, (c != '\x7b') = true := by
    intro c hc
    rw [bne_iff_ne]
    rintro rfl
    exact hs hc
  have hnone := afterBrace?_append hne []
  rwa [List.append_nil] at hnone

theorem afterBrace?_append_cons {s : List Char} (hs : '\x7b' ∉ s) (t : List Char) :
    afterBrace? (s ++ '\x7b' :: t) = some t := by
  refine afterBrace?_append (fun c hc => ?_) _
  rw [bne_iff_ne]
  rintro rfl
  exact hs hc

theorem afterBrace?_suffix {s t : List Char} (h : afterBrace? s = some t) : t <:+ s := by
  unfold afterBrace? at h
  split at h
  · cases h
  · rename_i c r hdrop
    cases h
    refine (List.suffix_cons c t).trans ?_
    rw [← hdrop]
    exact List.dropWhile_suffix _

theorem takeWhile_true (s : List Char) : s.takeWhile (fun _ => true) = s := by
  induction s with
  | nil => rfl
  | cons c r ih => rw [List.takeWhile_cons_of_pos rfl, ih]

theorem opening_apply (s : List Char) : opening s = some (afterBrace? s, []) := by
  rw [opening, bind_of_some (run_apply _ _), afterBrace?]
  have hstops := stops_dropWhile (· != '\x7b') s
  cases hdrop : s.dropWhile (· != '\x7b') with
  | nil => rfl
  | cons c r =>
      rw [hdrop] at hstops
      obtain rfl : c = '\x7b' := by simpa using stops_cons.mp hstops
      have hnil : r.dropWhile (fun _ => true) = [] := by
        have hrun := run_append (fun _ => true) r
        rw [takeWhile_true] at hrun
        exact List.append_right_eq_self.mp hrun
      have hrest : run (fun _ => true) r = some (r, []) := by rw [run_apply, takeWhile_true, hnil]
      refine optional_eq_some ?_
      rw [bind_of_some (char_cons _ _), hrest]

/-- **The body of a header opens behind the first brace of its line.** -/
theorem body_of_header? {line : List Char} {h : Header} (hh : header? line = some h) :
    h.body = afterBrace? line := by
  rw [header?, accept, Option.map_eq_some_iff] at hh
  obtain ⟨⟨h', r⟩, hread, rfl⟩ := hh
  simp only [header, bind_apply, Option.bind_eq_some_iff, spaces_apply, opening_apply] at hread
  obtain ⟨⟨_, s⟩, hspaces, ⟨⟨n, kind⟩, t⟩, hdeclaration, ⟨_, _⟩, hopening, _, _, he⟩ := hread
  cases hspaces
  cases hopening
  cases he
  obtain ⟨u, hu, hbrace⟩ := takes_declaration hdeclaration
  obtain ⟨w, hw, hspace⟩ := takes_spaces.1 (spaces_apply line)
  have hline : line = w ++ (u ++ t) := hw.trans (congrArg (w ++ ·) hu)
  rw [hline, afterBrace?_append hspace, afterBrace?_append hbrace]

end ClassModel
