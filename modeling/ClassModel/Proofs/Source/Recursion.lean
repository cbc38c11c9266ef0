/-
Grammars that refer to themselves.

A grammar is unrolled once more than the text has characters.  If a round reads something
before it comes back to the grammar, the rounds inside see shorter texts only, and on those
all unrollings that are long enough agree.  So the grammar is what one round makes of the
grammar itself, and a proof about a grammar inside itself need not count rounds.

What it takes is to know what a recogniser leaves: none leaves more than it was given, and
one that reads a word or a symbol leaves less.  Both hold of a recogniser as they hold of its
parts.
-/
import ClassModel.Proofs.Source.Cutting

namespace ClassModel.Source

open Recogniser

variable {α β : Type} {p q : Recogniser α} {f g : α → Recogniser β}
  {separator : Recogniser Unit} {n : Nat}

/-- What is left of a text is no longer than the text. -/
def Trims (p : Recogniser α) : Prop :=
  ∀ ⦃s a r⦄, p.cut s = some (a, r) → r.length ≤ s.length

/-- What is left of a text is shorter than the text. -/
def Consumes (p : Recogniser α) : Prop :=
  ∀ ⦃s a r⦄, p.cut s = some (a, r) → r.length < s.length

/-! ### What is left -/

theorem Consumes.trims (hp : Consumes p) : Trims p :=
  fun _ _ _ h => Nat.le_of_lt (hp h)

namespace Trims

theorem pure (a : α) : Trims (pure a) := by
  intro s b r h
  cases h
  exact Nat.le_refl _

theorem bind (hp : Trims p) (hf : ∀ a, Trims (f a)) : Trims (p >>= f) := by
  intro s b r h
  rw [cut_bind, Option.bind_eq_some_iff] at h
  obtain ⟨⟨a, t⟩, ha, hb⟩ := h
  exact Nat.le_trans (hf a hb) (hp ha)

theorem orElse (hp : Trims p) (hq : Trims q) : Trims (p <|> q) := by
  intro s a r h
  rw [cut_orElse, Option.or_eq_some_iff] at h
  rcases h with h | ⟨-, h⟩
  · exact hp h
  · exact hq h

theorem map {g : α → β} (hp : Trims p) : Trims (g <$> p) := by
  rw [map_eq_pure_bind]
  exact hp.bind fun _ => pure _

theorem optional (hp : Trims p) : Trims (optional p) := by
  intro s o r h
  rw [cut_optional, Option.some_inj] at h
  cases hcut : p.cut s with
  | none =>
      rw [hcut] at h
      cases h
      exact Nat.le_refl _
  | some x =>
      rw [hcut] at h
      cases h
      exact hp hcut

/-- A repetition accepts only rounds that consume something. -/
theorem many (p : Recogniser α) : Trims (many p) := by
  intro s as t h
  induction as generalizing s with
  | nil =>
      obtain ⟨-, rfl⟩ := cut_many_eq_nil_iff.mp h
      exact Nat.le_refl _
  | cons a as ih =>
      obtain ⟨r, -, hlt, hmany⟩ := cut_many_eq_cons_iff.mp h
      exact Nat.le_trans (ih hmany) (Nat.le_of_lt hlt)

theorem run (c : Char → Bool) : Trims (run c) := by
  intro s a r h
  rw [cut_run] at h
  cases h
  exact (List.dropWhile_sublist c).length_le

theorem notFollowedBy (p : Recogniser α) : Trims (notFollowedBy p) := by
  intro s u r h
  rw [cut_notFollowedBy] at h
  split at h
  · cases h
    exact Nat.le_refl _
  · cases h

theorem check {g : α → Except (Option SyntaxFault) β} (hp : Trims p) : Trims (check p g) := by
  intro s b r h
  obtain ⟨a, ha, -⟩ := cut_check_eq_some_iff.mp h
  exact hp ha

theorem sepBy1 (hp : Trims p) : Trims (sepBy1 p separator) :=
  hp.bind fun _ => (many _).bind fun _ => pure _

theorem sepBy (hp : Trims p) : Trims (sepBy p separator) :=
  hp.sepBy1.optional.bind fun _ => pure _

end Trims

namespace Consumes

theorem satisfy (c : Char → Bool) : Consumes (satisfy c) := by
  intro s a r h
  cases s with
  | nil => cases h
  | cons d t =>
      rw [cut_satisfy_cons] at h
      split at h
      · cases h
        exact Nat.lt_succ_self _
      · cases h

theorem bind (hp : Consumes p) (hf : ∀ a, Trims (f a)) : Consumes (p >>= f) := by
  intro s b r h
  rw [cut_bind, Option.bind_eq_some_iff] at h
  obtain ⟨⟨a, t⟩, ha, hb⟩ := h
  exact Nat.lt_of_le_of_lt (hf a hb) (hp ha)

/-- It is enough that what stands behind consumes something. -/
theorem bind_right (hp : Trims p) (hf : ∀ a, Consumes (f a)) : Consumes (p >>= f) := by
  intro s b r h
  rw [cut_bind, Option.bind_eq_some_iff] at h
  obtain ⟨⟨a, t⟩, ha, hb⟩ := h
  exact Nat.lt_of_lt_of_le (hf a hb) (hp ha)

theorem orElse (hp : Consumes p) (hq : Consumes q) : Consumes (p <|> q) := by
  intro s a r h
  rw [cut_orElse, Option.or_eq_some_iff] at h
  rcases h with h | ⟨-, h⟩
  · exact hp h
  · exact hq h

theorem map {g : α → β} (hp : Consumes p) : Consumes (g <$> p) := by
  rw [map_eq_pure_bind]
  exact hp.bind fun _ => .pure _

theorem check {g : α → Except (Option SyntaxFault) β} (hp : Consumes p) :
    Consumes (check p g) := by
  intro s b r h
  obtain ⟨a, ha, -⟩ := cut_check_eq_some_iff.mp h
  exact hp ha

theorem sepBy1 (hp : Consumes p) : Consumes (sepBy1 p separator) :=
  hp.bind fun _ => (Trims.many _).bind fun _ => .pure _

/-- A text whose first character must be there. -/
theorem literal (c : Char) (w : List Char) : Consumes (literal (c :: w)) := by
  have htrims : ∀ w, Trims (Recogniser.literal w) := by
    intro w
    induction w with
    | nil => exact .pure ()
    | cons c w ih => exact (satisfy _).trims.bind fun _ => ih
  exact (satisfy _).bind fun _ => htrims w

theorem recursive {f : Recogniser α → Recogniser α} (h : ∀ p, Trims p → Consumes (f p)) :
    Consumes (recursive f) := by
  have hunroll : ∀ n, Consumes (unroll f n) := by
    intro n
    induction n with
    | zero => exact fun _ _ _ hcut => nomatch hcut
    | succ n ih => exact h _ ih.trims
  intro s a r hcut
  exact hunroll (s.length + 1) hcut

/-- A repetition goes on behind each part. -/
theorem cut_many (hp : Consumes p) {a : α} {s r : List Char} (h : p.cut s = some (a, r)) :
    cut (Recogniser.many p) s = (cut (Recogniser.many p) r).map fun x => (a :: x.1, x.2) :=
  cut_many_of_some h (hp h)

/-- What a repetition passes over may have one more part in front. -/
theorem exists_cut_many (hp : Consumes p) {a : α} {s t r : List Char} (h : p.cut s = some (a, t))
    (ht : ∃ as : List α, cut (Recogniser.many p) t = some (as, r)) :
    ∃ as : List α, cut (Recogniser.many p) s = some (as, r) := by
  obtain ⟨as, ht⟩ := ht
  refine ⟨a :: as, ?_⟩
  rw [hp.cut_many h, ht]
  rfl

theorem cut_many_unit (hp : Consumes p) {a : α} {s r : List Char} (h : p.cut s = some (a, r)) :
    (Recogniser.many p >>= fun _ => pure () : Recogniser Unit).cut s =
      (Recogniser.many p >>= fun _ => pure () : Recogniser Unit).cut r := by
  rw [cut_many_bind, cut_many_bind, hp.cut_many h]
  cases cut (Recogniser.many p) r <;> rfl

end Consumes

/-! ### Recognisers made of agreeing parts agree -/

/-- Two recognisers read texts of fewer characters alike. -/
def AgreesBelow (n : Nat) (p q : Recogniser α) : Prop :=
  ∀ s : List Char, s.length < n → p.cut s = q.cut s

namespace AgreesBelow

theorem refl (n : Nat) (p : Recogniser α) : AgreesBelow n p p :=
  fun _ _ => rfl

theorem orElse {p' q' : Recogniser α} (h : AgreesBelow n p q) (h' : AgreesBelow n p' q') :
    AgreesBelow n (p <|> p') (q <|> q') := by
  intro s hs
  rw [cut_orElse, cut_orElse, h s hs, h' s hs]

theorem bind_left (h : AgreesBelow n p q) (f : α → Recogniser β) :
    AgreesBelow n (p >>= f) (q >>= f) := by
  intro s hs
  rw [cut_bind, cut_bind, h s hs]

theorem bind_right (hp : Trims p) (h : ∀ a, AgreesBelow n (f a) (g a)) :
    AgreesBelow n (p >>= f) (p >>= g) := by
  intro s hs
  rw [cut_bind, cut_bind]
  cases hcut : p.cut s with
  | none => rfl
  | some x => exact h x.1 x.2 (Nat.lt_of_le_of_lt (hp hcut) hs)

/-- Behind a part that consumes something the text is shorter. -/
theorem bind_consumes (hp : Consumes p) (h : ∀ a, AgreesBelow n (f a) (g a)) :
    AgreesBelow (n + 1) (p >>= f) (p >>= g) := by
  intro s hs
  rw [cut_bind, cut_bind]
  cases hcut : p.cut s with
  | none => rfl
  | some x => exact h x.1 x.2 (Nat.lt_of_lt_of_le (hp hcut) (Nat.le_of_lt_succ hs))

theorem optional (h : AgreesBelow n p q) : AgreesBelow n (optional p) (optional q) := by
  intro s hs
  rw [cut_optional, cut_optional, h s hs]

theorem many (h : AgreesBelow n p q) : AgreesBelow n (many p) (many q) := by
  intro s
  induction hlen : s.length using Nat.strongRecOn generalizing s with
  | ind k ih =>
      intro hs
      have hpart := h s (hlen ▸ hs)
      cases hcut : p.cut s with
      | none =>
          have hcut' : q.cut s = none := by rw [← hpart, hcut]
          rw [cut_many_of_none hcut, cut_many_of_none hcut']
      | some x =>
          have hcut' : q.cut s = some x := by rw [← hpart, hcut]
          rw [cut_many_step hcut, cut_many_step hcut']
          split
          · rename_i hlt
            rw [ih _ (hlen ▸ hlt) x.2 rfl (by omega)]
          · rfl

end AgreesBelow

/-! ### A grammar is a round of itself -/

/-- A round that reads something before it comes back to the grammar. -/
def Guarded (step : Recogniser α → Recogniser α) : Prop :=
  ∀ n p q, AgreesBelow n p q → AgreesBelow (n + 1) (step p) (step q)

section Guarded

variable {step : Recogniser α → Recogniser α}

/-- Unrollings agree on the texts that both are long enough for. -/
theorem agreesBelow_unroll (h : Guarded step) (n : Nat) :
    ∀ k m, n ≤ k → n ≤ m → AgreesBelow n (unroll step k) (unroll step m) := by
  induction n with
  | zero => exact fun _ _ _ _ s hs => absurd hs (Nat.not_lt_zero _)
  | succ n ih =>
      intro k m hk hm
      obtain ⟨k, rfl⟩ : ∃ j, k = j + 1 := ⟨k - 1, by omega⟩
      obtain ⟨m, rfl⟩ : ∃ j, m = j + 1 := ⟨m - 1, by omega⟩
      exact h n _ _ (ih k m (by omega) (by omega))

theorem cut_recursive (h : Guarded step) (s : List Char) :
    (recursive step).cut s = (step (recursive step)).cut s := by
  have hinner : AgreesBelow s.length (unroll step s.length) (recursive step) := by
    intro t ht
    exact agreesBelow_unroll h (t.length + 1) _ _ ht (Nat.le_refl _) t (Nat.lt_succ_self _)
  exact h s.length _ _ hinner s (Nat.lt_succ_self _)

end Guarded

end ClassModel.Source
