/-
Reading bodies.

A body is a group in braces, and where one stands between tokens it is skipped as a whole.
Where no group begins, none is read.
-/
import ClassModel.Proofs.Source.Blocks

namespace ClassModel.Source

open Recogniser

variable {ts : List Token} {s r : List Char} {opening closing : Char}

theorem fails_balanced (h : Heads (fun t => t.mayBegin opening = false) ts) :
    Fails (balanced opening closing) ts := by
  intro s hs
  have hstop := hs.stops (q := (· == opening)) fun t ht x c hx hc => by
    refine beq_eq_false_iff_ne.mpr ?_
    rintro rfl
    rw [h t ht] at hc
    cases hc
  exact balanced_fails hstop

/-- A body is a group. -/
theorem Filling.enclosed {f : List Char} (hf : Filling f) : Enclosed '\x7b' '\x7d' f := by
  induction hf with
  | nil => exact .nil
  | idle hc _ ih =>
      refine .plain ?_ ih
      simpa [isIdle, and_assoc] using hc
  | line hb _ ih => exact .line hb ih
  | block hb _ ih => exact .comment hb ih

/-- A body is read from its opening brace to its closing one. -/
theorem cut_balanced_braces {f : List Char} (hf : Filling f) (r : List Char) :
    (balanced '\x7b' '\x7d').cut ('\x7b' :: (f ++ ['\x7d']) ++ r) = some ((), r) :=
  BlockText.cut_balanced (by decide) ⟨f, hf.enclosed, rfl⟩ r

/-! ### Groups between tokens -/

theorem reads_block (ts : List Token) : Reads block (.block :: ts) () ts := by
  refine Reads.mark fun x r hx _ => ?_
  cases hx with
  | block hf => exact cut_balanced_braces hf r

/-- The end of a method is a body or a semicolon. -/
theorem reads_ending (ts : List Token) : Reads (block <|> token [';']) (.ending :: ts) () ts := by
  intro s hs
  obtain ⟨x, g, r, rfl, hx, hg, hr, -, -⟩ := hs.exists_cons
  have htrivia : trivia.cut (g ++ r) = some ((), r) := cut_trivia hg hr.stops_beginsTrivia
  cases hx with
  | semicolon =>
      refine ⟨r, hr, ?_, by simp; omega⟩
      have hstop : Stops (· == '\x7b') ([';'] ++ (g ++ r)) := stops_cons.mpr rfl
      have hliteral : (literal [';']).cut ([';'] ++ (g ++ r)) = some ((), g ++ r) :=
        cut_literal_append [';'] _
      rw [cut_orElse, block, cut_bind_unit, balanced_fails hstop, Option.bind_none, Option.none_or,
        token, cut_bind_unit, hliteral, Option.bind_some, htrivia]
  | body hf =>
      refine ⟨r, hr, ?_, by simp; omega⟩
      rw [cut_orElse, block, cut_bind_unit, cut_balanced_braces hf, Option.bind_some, htrivia,
        Option.some_or]

theorem fails_block (h : Heads (fun t => t.mayBegin '\x7b' = false) ts) : Fails block ts :=
  (fails_balanced h).bind

theorem fails_argumentList (h : Heads (fun t => t.mayBegin '(' = false) ts) :
    Fails argumentList ts :=
  (fails_balanced h).bind

theorem fails_typeParameters (h : Heads (fun t => t.mayBegin '<' = false) ts) :
    Fails typeParameters ts := by
  refine Fails.bind (Fails.recursive fun n => Fails.unroll (fun nested => ?_) n)
  exact (fails_char h).bind

end ClassModel.Source
