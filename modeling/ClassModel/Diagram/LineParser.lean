/-
Parsers for single lines of a diagram.

A line grammar is an ordered-choice grammar over the characters of one line.  A parser
either fails or returns a value with the rest of the line; repetition is greedy and a
part that has matched is never revisited.  `LineParser` is the state monad over the
remaining characters on top of `Option`, so sequencing, choice and the monad laws come
with it.

The primitives are stated by equations on the remaining characters.  Repetition ends
because each round must shorten the line: a round that does not is refused, and no
grammar here has one.
-/
import ClassModel.Text.Identifier

namespace ClassModel

/-- A parser of a part of a line. -/
abbrev LineParser (α : Type) := StateT (List Char) Option α

namespace LineParser

variable {α : Type}

/-- The space and the tab, the only white space inside a line. -/
def isSpace (c : Char) : Bool :=
  c == ' ' || c == '\t'

/-- One character that satisfies a condition. -/
def satisfy (p : Char → Bool) : LineParser Char
  | c :: r => if p c then some (c, r) else none
  | [] => none

/-- One given character. -/
def char (c : Char) : LineParser Char :=
  satisfy (· == c)

/-- The longest run of characters that satisfy a condition, possibly empty. -/
def run (p : Char → Bool) : LineParser (List Char) :=
  fun s => some (s.takeWhile p, s.dropWhile p)

/-- The longest run of characters that satisfy a condition, if there is one at all. -/
def run1 (p : Char → Bool) : LineParser (List Char)
  | c :: r => if p c then some (c :: r.takeWhile p, r.dropWhile p) else none
  | [] => none

/-- Spaces and tabs, possibly none. -/
def spaces : LineParser Unit := do
  let _ ← run isSpace

/-- At least one space or tab. -/
def spaces1 : LineParser Unit := do
  let _ ← run1 isSpace

/-- A run of word characters. -/
def word : LineParser (List Char) :=
  run1 isWordChar

/-- A part that may be missing. -/
def optional (p : LineParser α) : LineParser (Option α) :=
  fun s => match p s with
    | some (a, r) => some (some a, r)
    | none => some (none, s)

/-- A part as often as it matches. -/
def many (p : LineParser α) (s : List Char) : Option (List α × List Char) :=
  match p s with
  | some (a, r) =>
      if r.length < s.length then (many p r).map fun (as, t) => (a :: as, t) else none
  | none => some ([], s)
termination_by s.length

/-- A colon between optional spaces. -/
def colon : LineParser Unit := do
  spaces
  let _ ← char ':'
  spaces

/-- The end of the line. -/
def done : LineParser Unit
  | [] => some ((), [])
  | _ :: _ => none

/-- A whole identifier, which must be the given word. -/
def keyword (w : String) : LineParser Unit := fun s =>
  match s with
  | c :: r =>
      if isIdentifierStart c && c :: r.takeWhile isIdentifierContinue == w.toList then
        some ((), r.dropWhile isIdentifierContinue)
      else
        none
  | [] => none

/-- A parser for all of a line but the spaces at its ends. -/
def fullLine (p : LineParser α) : LineParser α := do
  spaces
  let a ← p
  spaces
  done
  return a

/-- What a line means to a grammar. -/
def accept (p : LineParser α) (line : List Char) : Option α :=
  (p line).map Prod.fst

/-! ### Equations -/

@[simp]
theorem pure_apply (a : α) (s : List Char) : (pure a : LineParser α) s = some (a, s) := rfl

theorem bind_apply {β : Type} (p : LineParser α) (f : α → LineParser β) (s : List Char) :
    (p >>= f) s = (p s).bind fun (a, r) => f a r := by
  show StateT.bind p f s = _
  simp only [StateT.bind]
  cases p s <;> rfl

theorem map_apply {β : Type} (f : α → β) (p : LineParser α) (s : List Char) :
    (f <$> p) s = (p s).map fun x => (f x.1, x.2) := by
  show StateT.map f p s = _
  simp only [StateT.map]
  cases p s <;> rfl

theorem orElse_apply (p q : LineParser α) (s : List Char) :
    (p <|> q) s = (p s).or (q s) := by
  show (p s <|> q s) = _
  cases p s <;> rfl

theorem satisfy_cons (p : Char → Bool) (c : Char) (r : List Char) :
    satisfy p (c :: r) = if p c then some (c, r) else none := rfl

/-- A character was read exactly if it was in front and satisfies the condition. -/
theorem satisfy_eq_some_iff {p : Char → Bool} {s r : List Char} {c : Char} :
    satisfy p s = some (c, r) ↔ s = c :: r ∧ p c = true := by
  cases s with
  | nil => simp [satisfy]
  | cons d t =>
      rw [satisfy_cons]
      split <;> grind

/-- A run was read exactly if it is not empty and cannot be continued. -/
theorem run1_eq_some_iff {p : Char → Bool} {s w r : List Char} :
    run1 p s = some (w, r) ↔ w ≠ [] ∧ w = s.takeWhile p ∧ r = s.dropWhile p := by
  cases s with
  | nil => simp +contextual [run1]
  | cons c t => by_cases hc : p c = true <;> simp [run1, hc] <;> grind

/-- A word is what is read of itself and of what no word goes on with. -/
theorem word_eq_some {s w r : List Char} (h : word s = some (w, r)) :
    s = w ++ r ∧ w ≠ [] ∧ ∀ c ∈ w, isWordChar c = true := by
  obtain ⟨hw, rfl, rfl⟩ := run1_eq_some_iff.1 h
  refine ⟨List.takeWhile_append_dropWhile.symm, hw, fun c hc => ?_⟩
  exact List.all_eq_true.1 List.all_takeWhile c hc

theorem optional_apply (p : LineParser α) (s : List Char) :
    optional p s = some (((p s).map fun x => (some x.1, x.2)).getD (none, s)) := by
  rw [optional]
  cases p s <;> rfl

/-- Runs together give back the line. -/
theorem run_append (p : Char → Bool) (s : List Char) :
    s.takeWhile p ++ s.dropWhile p = s :=
  List.takeWhile_append_dropWhile

end LineParser

end ClassModel
