/-
Reading tokens.

A recogniser that reads tokens reads them in every layout.  `Reads p ts a us` says that `p`
makes `a` of the tokens in front of `us`, whatever stands between them, and `Fails p ts` that
it makes nothing of them.  Both are closed under the ways to put recognisers together, so a
grammar can be followed token by token, and no proof about it has to speak of characters.

Each token that is read shortens the text.  That is what `many` asks for, and it comes with
`Reads`.
-/
import ClassModel.Proofs.Source.Cutting
import ClassModel.Proofs.Source.Layout

namespace ClassModel.Source

open Recogniser

variable {α β : Type} {a : α} {b : β} {ts us vs : List Token}

/-- The recogniser makes a value of the tokens in front of the others, in every layout. -/
def Reads (p : Recogniser α) (ts : List Token) (a : α) (us : List Token) : Prop :=
  ∀ s, Laid ts s → ∃ r, Laid us r ∧ p.cut s = some (a, r) ∧
    r.length + ts.length ≤ s.length + us.length

/-- The recogniser makes nothing of the tokens, in every layout. -/
def Fails (p : Recogniser α) (ts : List Token) : Prop :=
  ∀ s, Laid ts s → p.cut s = none

/-! ### Sequences and choices -/

section Sequences

variable {p q : Recogniser α} {f : α → Recogniser β}

theorem Reads.pure (a : α) (ts : List Token) : Reads (pure a) ts a ts :=
  fun s hs => ⟨s, hs, cut_pure a s, Nat.le_refl _⟩

theorem Reads.bind (hp : Reads p ts a us) (hf : Reads (f a) us b vs) : Reads (p >>= f) ts b vs := by
  intro s hs
  obtain ⟨r, hr, hcut, hlen⟩ := hp s hs
  obtain ⟨r', hr', hcut', hlen'⟩ := hf r hr
  refine ⟨r', hr', ?_, by omega⟩
  rw [cut_bind, hcut, Option.bind_some, hcut']

theorem Reads.map {g : α → β} (hp : Reads p ts a us) : Reads (g <$> p) ts (g a) us := by
  rw [map_eq_pure_bind]
  exact hp.bind (.pure _ _)

theorem Fails.bind (hp : Fails p ts) : Fails (p >>= f) ts := by
  intro s hs
  rw [cut_bind, hp s hs, Option.bind_none]

theorem Reads.bind_fails (hp : Reads p ts a us) (hf : Fails (f a) us) : Fails (p >>= f) ts := by
  intro s hs
  obtain ⟨r, hr, hcut, -⟩ := hp s hs
  rw [cut_bind, hcut, Option.bind_some, hf r hr]

theorem Fails.map {g : α → β} (hp : Fails p ts) : Fails (g <$> p) ts := by
  rw [map_eq_pure_bind]
  exact hp.bind

theorem Reads.orElse (hp : Reads p ts a us) : Reads (p <|> q) ts a us := by
  intro s hs
  obtain ⟨r, hr, hcut, hlen⟩ := hp s hs
  refine ⟨r, hr, ?_, hlen⟩
  rw [cut_orElse, hcut, Option.some_or]

theorem Fails.orElse_reads (hp : Fails p ts) (hq : Reads q ts a us) : Reads (p <|> q) ts a us := by
  intro s hs
  obtain ⟨r, hr, hcut, hlen⟩ := hq s hs
  refine ⟨r, hr, ?_, hlen⟩
  rw [cut_orElse, hp s hs, Option.none_or, hcut]

theorem Fails.orElse (hp : Fails p ts) (hq : Fails q ts) : Fails (p <|> q) ts := by
  intro s hs
  rw [cut_orElse, hp s hs, Option.none_or, hq s hs]

theorem Reads.optional (hp : Reads p ts a us) : Reads (optional p) ts (some a) us := by
  intro s hs
  obtain ⟨r, hr, hcut, hlen⟩ := hp s hs
  refine ⟨r, hr, ?_, hlen⟩
  rw [cut_optional, hcut]
  rfl

theorem Fails.optional (hp : Fails p ts) : Reads (Recogniser.optional p) ts none ts := by
  intro s hs
  refine ⟨s, hs, ?_, Nat.le_refl _⟩
  rw [cut_optional, hp s hs]
  rfl

theorem Reads.check {g : α → Except (Option SyntaxFault) β} (hp : Reads p ts a us)
    (hg : g a = .ok b) : Reads (check p g) ts b us := by
  intro s hs
  obtain ⟨r, hr, hcut, hlen⟩ := hp s hs
  refine ⟨r, hr, ?_, hlen⟩
  rw [cut_check, hcut, Option.bind_some, hg]
  rfl

end Sequences

/-! ### Repetitions -/

section Repetitions

variable {p : Recogniser α} {separator : Recogniser Unit} {as : List α}

theorem Fails.many (hp : Fails p ts) : Reads (many p) ts [] ts :=
  fun s hs => ⟨s, hs, cut_many_of_none (hp s hs), Nat.le_refl _⟩

/-- Each round of a repetition reads a token. -/
theorem Reads.many_cons (hp : Reads p ts a us) (hlt : us.length < ts.length)
    (hmany : Reads (many p) us as vs) : Reads (many p) ts (a :: as) vs := by
  intro s hs
  obtain ⟨r, hr, hcut, hlen⟩ := hp s hs
  obtain ⟨r', hr', hcut', hlen'⟩ := hmany r hr
  refine ⟨r', hr', ?_, by omega⟩
  rw [cut_many_of_some hcut (by omega), hcut']
  rfl

/-- Parts that are read whatever follows, one behind the other. -/
theorem Reads.many {γ : Type} {tokens : γ → List Token} {value : γ → α} {xs : List γ}
    (hend : Fails p us) (hread : ∀ x ∈ xs, ∀ ws, Reads p (tokens x ++ ws) (value x) ws)
    (hne : ∀ x ∈ xs, tokens x ≠ []) :
    Reads (Recogniser.many p) (xs.flatMap tokens ++ us) (xs.map value) us := by
  induction xs with
  | nil => exact hend.many
  | cons x xs ih =>
      rw [List.flatMap_cons, List.append_assoc]
      refine (hread x (by simp) _).many_cons ?_ ?_
      · have hpos := List.length_pos_iff.mpr (hne x (by simp))
        simp only [List.length_append]
        omega
      · exact ih (fun y hy => hread y (by simp [hy])) fun y hy => hne y (by simp [hy])

end Repetitions

/-! ### Grammars that refer to themselves -/

theorem Reads.recursive {f : Recogniser α → Recogniser α}
    (h : ∀ n, ts.length ≤ n → Reads (unroll f (n + 1)) ts a us) : Reads (recursive f) ts a us :=
  fun s hs => h s.length hs.length_le s hs

theorem Fails.recursive {f : Recogniser α → Recogniser α}
    (h : ∀ n, Fails (unroll f n) ts) : Fails (recursive f) ts :=
  fun s hs => h (s.length + 1) s hs

/-- No unrolling of a grammar makes anything of tokens on which each round fails. -/
theorem Fails.unroll {f : Recogniser α → Recogniser α} (h : ∀ type, Fails (f type) ts) (n : Nat) :
    Fails (unroll f n) ts := by
  cases n with
  | zero => exact fun _ _ => rfl
  | succ n => exact h _

end ClassModel.Source
