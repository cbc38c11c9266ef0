/-
What a recogniser cuts off a text.

For the trees of source files only outcomes matter, and an outcome depends on nothing but the
characters that are left.  `cut` forgets the failures, and what is left of a recogniser is an
ordered-choice grammar with one equation for each way to put grammars together.
-/
import ClassModel.Source.Recogniser
import ClassModel.Proofs.Runs

namespace ClassModel

namespace Recogniser

variable {α β : Type}

/-- The value that is read of a text, and the rest of the text. -/
def cut (p : Recogniser α) (s : List Char) : Option (α × List Char) :=
  (p (Input.ofChars s)).outcome.map fun x => (x.1, x.2.chars)

theorem outcome_eq_some_iff {p : Recogniser α} {s r : List Char} {a : α} :
    (p (Input.ofChars s)).outcome = some (a, Input.ofChars r) ↔ p.cut s = some (a, r) := by
  unfold cut
  constructor
  · intro h
    rw [h]
    rfl
  · intro h
    obtain ⟨⟨b, i⟩, ho, he⟩ := Option.map_eq_some_iff.mp h
    cases he
    rw [ho, Input.ofChars_chars]

theorem outcome_eq_none_iff {p : Recogniser α} {s : List Char} :
    (p (Input.ofChars s)).outcome = none ↔ p.cut s = none := by
  unfold cut
  rw [Option.map_eq_none_iff]

/-! ### Equations -/

@[simp]
theorem cut_pure (a : α) (s : List Char) : (pure a : Recogniser α).cut s = some (a, s) := rfl

theorem cut_bind (p : Recogniser α) (f : α → Recogniser β) (s : List Char) :
    (p >>= f).cut s = (p.cut s).bind fun x => (f x.1).cut x.2 := by
  unfold cut
  rw [bind_apply]
  rcases p (Input.ofChars s) with ⟨e, _ | ⟨a, j⟩⟩
  · rfl
  · show (f a j).outcome.map _ = ((f a (Input.ofChars j.chars)).outcome.map _)
    rw [Input.ofChars_chars]

theorem cut_orElse (p q : Recogniser α) (s : List Char) :
    (p <|> q).cut s = (p.cut s).or (q.cut s) := by
  show (orElse p (fun _ => q)).cut s = _
  unfold cut orElse
  rcases p (Input.ofChars s) with ⟨e, _ | ⟨a, j⟩⟩ <;> rfl

theorem cut_optional (p : Recogniser α) (s : List Char) :
    (optional p).cut s = some (((p.cut s).map fun x => (some x.1, x.2)).getD (none, s)) := by
  unfold cut optional
  rcases p (Input.ofChars s) with ⟨e, _ | ⟨a, j⟩⟩ <;> rfl

theorem cut_many_of_none {p : Recogniser α} {s : List Char} (h : p.cut s = none) :
    cut (many p) s = some ([], s) := by
  have ho := outcome_eq_none_iff.mpr h
  unfold cut
  rw [many]
  rcases hp : p (Input.ofChars s) with ⟨e, _ | ⟨a, j⟩⟩
  · rfl
  · rw [hp] at ho
    cases ho

/-- A repetition goes on behind a part, and fails if the part consumes nothing. -/
theorem cut_many_step {p : Recogniser α} {s r : List Char} {a : α} (h : p.cut s = some (a, r)) :
    cut (many p) s =
      if r.length < s.length then (cut (many p) r).map fun x => (a :: x.1, x.2) else none := by
  have ho := outcome_eq_some_iff.mpr h
  unfold cut
  rw [many]
  rcases hp : p (Input.ofChars s) with ⟨e, _ | ⟨b, j⟩⟩
  · rw [hp] at ho
    cases ho
  · rw [hp] at ho
    cases ho
    show (if r.length < s.length then
      (⟨Failure.merge e (many p (Input.ofChars r)).failure,
        (many p (Input.ofChars r)).outcome.map fun x => (a :: x.1, x.2)⟩ : Reply (List α))
      else ⟨e, none⟩).outcome.map _ = _
    split
    · cases (many p (Input.ofChars r)).outcome <;> rfl
    · rfl

theorem cut_many_of_some {p : Recogniser α} {s r : List Char} {a : α} (h : p.cut s = some (a, r))
    (hlt : r.length < s.length) :
    cut (many p) s = (cut (many p) r).map fun x => (a :: x.1, x.2) := by
  rw [cut_many_step h, if_pos hlt]

theorem cut_many_eq_nil_iff {p : Recogniser α} {s t : List Char} :
    cut (many p) s = some ([], t) ↔ p.cut s = none ∧ s = t := by
  cases hp : p.cut s with
  | none => simp [cut_many_of_none hp]
  | some x =>
      rw [cut_many_step hp]
      split <;> simp

theorem cut_many_eq_cons_iff {p : Recogniser α} {s t : List Char} {a : α} {as : List α} :
    cut (many p) s = some (a :: as, t) ↔
      ∃ r, p.cut s = some (a, r) ∧ r.length < s.length ∧ cut (many p) r = some (as, t) := by
  constructor
  · intro h
    cases hp : p.cut s with
    | none =>
        rw [cut_many_of_none hp] at h
        cases h
    | some x =>
        rw [cut_many_step hp] at h
        split at h
        · rename_i hlt
          obtain ⟨_, hmany, he⟩ := Option.map_eq_some_iff.mp h
          cases he
          exact ⟨x.2, rfl, hlt, hmany⟩
        · cases h
  · rintro ⟨r, hp, hlt, hmany⟩
    rw [cut_many_of_some hp hlt, hmany]
    rfl

/-- What holds where a repetition ends and goes back over each round holds where it began. -/
theorem cut_many_induct {p : Recogniser α} {motive : List Char → Prop} {s t : List Char}
    {as : List α} (h : cut (many p) s = some (as, t)) (hend : p.cut t = none → motive t)
    (hround : ∀ s r a, p.cut s = some (a, r) → motive r → motive s) : motive s := by
  induction as generalizing s with
  | nil =>
      obtain ⟨hp, rfl⟩ := cut_many_eq_nil_iff.mp h
      exact hend hp
  | cons a as ih =>
      obtain ⟨r, hp, -, hmany⟩ := cut_many_eq_cons_iff.mp h
      exact hround s r a hp (ih hmany)

/-- Repetition in front of something else. -/
theorem cut_many_bind (p : Recogniser α) (f : List α → Recogniser β) (s : List Char) :
    (many p >>= f : Recogniser β).cut s = (cut (many p) s).bind fun x => (f x.1).cut x.2 :=
  cut_bind (many p) f s

/-- A repetition whose parts are dropped is at its end where no part is found. -/
theorem cut_many_unit_of_none {p : Recogniser α} {s : List Char} (h : p.cut s = none) :
    (many p >>= fun _ => pure () : Recogniser Unit).cut s = some ((), s) := by
  rw [cut_many_bind, cut_many_of_none h]
  rfl

theorem cut_satisfy_cons (q : Char → Bool) (c : Char) (r : List Char) :
    (satisfy q).cut (c :: r) = if q c then some (c, r) else none := by
  unfold cut satisfy
  rw [Input.next?_cons]
  cases h : q c
  · simp [h, fail]
  · simp [h]

theorem cut_satisfy_of_stops {q : Char → Bool} {s : List Char} (h : Stops q s) :
    (satisfy q).cut s = none := by
  cases s with
  | nil => rfl
  | cons c r => rw [cut_satisfy_cons, stops_cons.mp h, if_neg Bool.false_ne_true]

theorem cut_run (q : Char → Bool) (s : List Char) :
    (run q).cut s = some (s.takeWhile q, s.dropWhile q) := rfl

theorem cut_literal (w s : List Char) :
    (literal w).cut s = if w.isPrefixOf s then some ((), s.drop w.length) else none := by
  induction w generalizing s with
  | nil => rfl
  | cons c w ih =>
      rw [literal, cut_bind]
      cases s with
      | nil => rfl
      | cons d r =>
          rw [cut_satisfy_cons]
          by_cases hd : d = c
          · subst hd
            simp [ih]
          · simp [hd, Ne.symm hd]

theorem cut_literal_append (w r : List Char) : (literal w).cut (w ++ r) = some ((), r) := by
  rw [cut_literal, if_pos, List.drop_left]
  exact List.isPrefixOf_iff_prefix.mpr (List.prefix_append w r)

theorem cut_literal_of_stops {c : Char} {s : List Char} (h : Stops (· == c) s) (w : List Char) :
    (literal (c :: w)).cut s = none := by
  rw [literal, cut_bind, cut_satisfy_of_stops h, Option.bind_none]

theorem cut_check {p : Recogniser α} {f : α → Except (Option SyntaxFault) β} (s : List Char) :
    (check p f).cut s = (p.cut s).bind fun x => (f x.1).toOption.map fun b => (b, x.2) := by
  unfold cut check
  rcases p (Input.ofChars s) with ⟨e, _ | ⟨a, j⟩⟩
  · rfl
  · cases h : f a <;> simp [h, fail, Except.toOption]

theorem cut_check_eq_some_iff {p : Recogniser α} {f : α → Except (Option SyntaxFault) β}
    {s r : List Char} {b : β} :
    (check p f).cut s = some (b, r) ↔ ∃ a, p.cut s = some (a, r) ∧ f a = .ok b := by
  rw [cut_check]
  rcases p.cut s with _ | ⟨a, t⟩
  · simp
  · cases hf : f a <;> simp [Except.toOption] <;> grind

theorem cut_notFollowedBy (p : Recogniser α) (s : List Char) :
    (notFollowedBy p).cut s = if p.cut s = none then some ((), s) else none := by
  unfold cut notFollowedBy
  cases h : (p (Input.ofChars s)).outcome <;> simp [fail]

theorem cut_unroll_length (f : Recogniser α → Recogniser α) (s : List Char) :
    (recursive f).cut s = (unroll f (s.length + 1)).cut s := rfl

theorem cut_unroll_succ (f : Recogniser α → Recogniser α) (n : Nat) :
    unroll f (n + 1) = f (unroll f n) := rfl

end Recogniser

end ClassModel
