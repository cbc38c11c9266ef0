/-
Tokens and layout.

A source text is a list of tokens with white space and comments behind each of them.  What
stands between two tokens is free, except that two words must not run together and that
nothing stands between an import and its semicolon.

`Laid` says that a text is such a layout of some tokens.  The recognisers of tokens need
little of it: with which characters a token may begin, and that no word goes on behind a
word.
-/
import ClassModel.Source.Lexeme
import ClassModel.Text.Blank
import ClassModel.Proofs.Runs

namespace ClassModel.Source

/-! ### White space and comments -/

/-- White space and closed comments. -/
inductive Trivia : List Char → Prop where
  | nil : Trivia []
  | white {c : Char} {r : List Char} (hc : isWhite c = true) (hr : Trivia r) : Trivia (c :: r)
  | line {body r : List Char} (hb : '\n' ∉ body) (hr : Trivia r) :
      Trivia ('/' :: '/' :: (body ++ '\n' :: r))
  | block {body r : List Char} (hb : ¬['*', '/'] <:+: body) (hr : Trivia r) :
      Trivia ('/' :: '*' :: (body ++ '*' :: '/' :: r))

/-- A character that means nothing inside braces. -/
def isIdle (c : Char) : Bool :=
  c != '\x7b' && c != '\x7d' && c != '"' && c != '\'' && c != '/'

/-- What may stand in the braces of a body: comments and characters that mean nothing. -/
inductive Filling : List Char → Prop where
  | nil : Filling []
  | idle {c : Char} {r : List Char} (hc : isIdle c = true) (hr : Filling r) : Filling (c :: r)
  | line {body r : List Char} (hb : '\n' ∉ body) (hr : Filling r) :
      Filling ('/' :: '/' :: (body ++ '\n' :: r))
  | block {body r : List Char} (hb : ¬['*', '/'] <:+: body) (hr : Filling r) :
      Filling ('/' :: '*' :: (body ++ '*' :: '/' :: r))

theorem isWhite_iff {c : Char} :
    isWhite c = true ↔ c = ' ' ∨ c = '\t' ∨ c = '\n' ∨ c = '\r' := by
  simp [isWhite, or_assoc]

theorem Trivia.append {g h : List Char} (hg : Trivia g) (hh : Trivia h) : Trivia (g ++ h) := by
  induction hg with
  | nil => exact hh
  | white hc _ ih => exact .white hc ih
  | line hb _ ih =>
      rw [List.cons_append, List.cons_append, List.append_assoc, List.cons_append]
      exact .line hb ih
  | block hb _ ih =>
      rw [List.cons_append, List.cons_append, List.append_assoc, List.cons_append, List.cons_append]
      exact .block hb ih

/-- The characters that white space and comments begin with. -/
def beginsTrivia (c : Char) : Bool :=
  isWhite c || c == '/'

theorem Trivia.eq_nil_or {g : List Char} (h : Trivia g) :
    g = [] ∨ ∃ c r, g = c :: r ∧ beginsTrivia c = true := by
  cases h with
  | nil => exact Or.inl rfl
  | white hc _ => exact Or.inr ⟨_, _, rfl, by rw [beginsTrivia, hc, Bool.true_or]⟩
  | line => exact Or.inr ⟨_, _, rfl, rfl⟩
  | block => exact Or.inr ⟨_, _, rfl, rfl⟩

/-! ### Tokens -/

/-- A word in the sense of Unicode: a start character and characters that continue it. -/
def IsIdentifier (w : List Char) : Prop :=
  ∃ c r, w = c :: r ∧ isIdentifierStart c = true ∧ ∀ d ∈ r, isIdentifierContinue d = true

instance (w : List Char) : Decidable (IsIdentifier w) :=
  match w with
  | [] => isFalse fun ⟨_, _, he, _⟩ => nomatch he
  | c :: r =>
      decidable_of_iff (isIdentifierStart c = true ∧ ∀ d ∈ r, isIdentifierContinue d = true)
        ⟨fun h => ⟨c, r, rfl, h⟩, fun ⟨_, _, he, h⟩ => by cases he; exact h⟩

/-- The path of an import: words with single spaces between them. -/
def IsPath (p : String) : Prop :=
  ∃ ws : List String, ws ≠ [] ∧
    (∀ w ∈ ws, w ≠ "" ∧ ∀ c ∈ w.toList, isBlank c = false ∧ c ≠ ';' ∧ c ≠ '/') ∧
    p = String.intercalate " " ws

/-- The symbols of the grammar. -/
def symbols : List (List Char) :=
  [['.'], [','], [';'], ['('], [')'], ['\x7b'], ['\x7d'], ['['], [']'], ['<'], ['>'], ['?'],
    ['.', '.', '.']]

/-- A token of a source text. -/
inductive Token where
  /-- A keyword or a name. -/
  | word (w : String)
  /-- The modifier that is no identifier. -/
  | nonSealed
  | symbol (s : List Char)
  /-- The path of an import. -/
  | path (p : String)
  /-- A body in braces. -/
  | block
  /-- The end of a method: a body or a semicolon. -/
  | ending
  deriving DecidableEq

namespace Token

/-- The texts of a token. -/
inductive Spells : Token → List Char → Prop where
  | word {w : String} (h : IsIdentifier w.toList) : Spells (word w) w.toList
  | nonSealed : Spells nonSealed "non-sealed".toList
  | symbol {s : List Char} (h : s ∈ symbols) : Spells (symbol s) s
  | path {p : String} (h : IsPath p) : Spells (path p) p.toList
  | block {f : List Char} (h : Filling f) : Spells block ('\x7b' :: (f ++ ['\x7d']))
  | semicolon : Spells ending [';']
  | body {f : List Char} (h : Filling f) : Spells ending ('\x7b' :: (f ++ ['\x7d']))

/-- The tokens that must be kept apart. -/
def isWord : Token → Bool
  | word _ | nonSealed | path _ => true
  | _ => false

/-- The tokens that nothing stands behind. -/
def isTight : Token → Bool
  | path _ => true
  | _ => false

/-- The characters that a token may begin with. -/
def mayBegin : Token → Char → Bool
  | word _, c => isIdentifierStart c
  | nonSealed, c => c == 'n'
  | symbol s, c => s.head? == some c
  | path _, c => !isBlank c && c != '/'
  | block, c => c == '\x7b'
  | ending, c => c == '\x7b' || c == ';'

end Token

/-- A text in which some tokens are laid out, each with white space and comments behind it.
Two words are kept apart, and nothing stands behind a token that is tight. -/
inductive Laid : List Token → List Char → Prop where
  | nil : Laid [] []
  | cons {t : Token} {ts : List Token} {x g s : List Char} (hx : t.Spells x) (hg : Trivia g)
      (hs : Laid ts s) (hapart : t.isWord = true → ts.head?.any Token.isWord = true → g ≠ [])
      (htight : t.isTight = true → g = []) :
      Laid (t :: ts) (x ++ (g ++ s))

/-- A text in which some tokens are laid out, with white space and comments in front. -/
def LaidOut (ts : List Token) (text : List Char) : Prop :=
  ∃ g s, Trivia g ∧ Laid ts s ∧ text = g ++ s

/-! ### Where tokens begin -/

/-- The characters that go on with a word. -/
def goesOn (c : Char) : Bool :=
  isIdentifierContinue c || c == '-'

theorem toList_intercalate_cons (sep w : String) (ws : List String) :
    (String.intercalate sep (w :: ws)).toList =
      w.toList ++ ws.flatMap fun v => sep.toList ++ v.toList := by
  rw [String.toList_intercalate, List.map_cons]
  induction ws generalizing w with
  | nil => simp
  | cons v ws ih =>
      rw [List.map_cons, List.intercalate_cons_cons, ih]
      simp

theorem toList_intercalate_space (w : String) (ws : List String) :
    (String.intercalate " " (w :: ws)).toList = w.toList ++ ws.flatMap fun v => ' ' :: v.toList :=
  toList_intercalate_cons " " w ws

theorem IsPath.exists_cons {p : String} (h : IsPath p) :
    ∃ c r, p.toList = c :: r ∧ isBlank c = false ∧ c ≠ '/' := by
  obtain ⟨ws, hne, hall, rfl⟩ := h
  cases ws with
  | nil => exact absurd rfl hne
  | cons w ws =>
      obtain ⟨hw, hc⟩ := hall w (by simp)
      obtain ⟨c, r, he⟩ := List.exists_cons_of_ne_nil (mt String.toList_eq_nil_iff.mp hw)
      have hfirst := hc c (by rw [he]; exact List.mem_cons_self)
      refine ⟨c, r ++ ws.flatMap fun v => ' ' :: v.toList, ?_, hfirst.1, hfirst.2.2⟩
      rw [toList_intercalate_space, he, List.cons_append]

namespace Token

variable {t : Token} {x : List Char} {c : Char}

/-- A token begins with one of its characters. -/
theorem Spells.exists_cons (h : t.Spells x) : ∃ c r, x = c :: r ∧ t.mayBegin c = true := by
  cases h with
  | word h =>
      obtain ⟨c, r, he, hc, -⟩ := h
      exact ⟨c, r, he, hc⟩
  | nonSealed => exact ⟨'n', "on-sealed".toList, rfl, rfl⟩
  | symbol h =>
      cases x with
      | nil => exact absurd h (by decide)
      | cons c r => exact ⟨c, r, rfl, by simp [mayBegin]⟩
  | path h =>
      obtain ⟨c, r, he, hb, hc⟩ := h.exists_cons
      exact ⟨c, r, he, by simp [mayBegin, hb, hc]⟩
  | block => exact ⟨_, _, rfl, rfl⟩
  | semicolon => exact ⟨_, _, rfl, rfl⟩
  | body => exact ⟨_, _, rfl, rfl⟩

/-- Where a token stands, nothing stands that it does not begin with. -/
theorem Spells.stops (h : t.Spells x) {q : Char → Bool}
    (hq : ∀ c, t.mayBegin c = true → q c = false) (r : List Char) : Stops q (x ++ r) := by
  obtain ⟨c, s, rfl, hc⟩ := h.exists_cons
  exact stops_cons.mpr (hq c hc)

/-- No symbol begins like a comment or like a word. -/
theorem head_symbols : ∀ s ∈ symbols, ∀ c ∈ s.head?,
    beginsTrivia c = false ∧ goesOn c = false ∧ isIdentifierStart c = false := by
  decide

theorem not_isIdentifierStart_of_beginsTrivia (h : beginsTrivia c = true) :
    isIdentifierStart c = false := by
  rw [beginsTrivia, Bool.or_eq_true, beq_iff_eq, isWhite_iff] at h
  rcases h with (rfl | rfl | rfl | rfl) | rfl <;> decide

theorem not_goesOn_of_beginsTrivia (h : beginsTrivia c = true) : goesOn c = false := by
  rw [beginsTrivia, Bool.or_eq_true, beq_iff_eq, isWhite_iff] at h
  rcases h with (rfl | rfl | rfl | rfl) | rfl <;> decide

/-- No token begins like white space or a comment. -/
theorem Spells.beginsTrivia (h : t.Spells x) (hc : t.mayBegin c = true) :
    beginsTrivia c = false := by
  cases h with
  | word h =>
      rw [← Bool.not_eq_true]
      intro hb
      rw [mayBegin, not_isIdentifierStart_of_beginsTrivia hb] at hc
      cases hc
  | nonSealed =>
      rcases beq_iff_eq.mp hc with rfl
      decide
  | symbol h => exact (head_symbols _ h c (by simpa [mayBegin] using hc)).1
  | path h =>
      simp only [mayBegin, Bool.and_eq_true, Bool.not_eq_true', bne_iff_ne] at hc
      rw [← Bool.not_eq_true, Source.beginsTrivia, Bool.or_eq_true, beq_iff_eq, isWhite_iff]
      rintro ((rfl | rfl | rfl | rfl) | rfl)
      · exact absurd hc.1 (by decide)
      · exact absurd hc.1 (by decide)
      · exact absurd hc.1 (by decide)
      · exact absurd hc.1 (by decide)
      · exact hc.2 rfl
  | block =>
      rcases beq_iff_eq.mp hc with rfl
      decide
  | semicolon | body =>
      simp only [mayBegin, Bool.or_eq_true, beq_iff_eq] at hc
      rcases hc with rfl | rfl <;> decide

/-- Tokens that are no words begin like none. -/
theorem Spells.not_word (h : t.Spells x) (ht : t.isWord = false) (hc : t.mayBegin c = true) :
    goesOn c = false ∧ isIdentifierStart c = false := by
  cases h with
  | word | nonSealed | path => cases ht
  | symbol h => exact (head_symbols _ h c (by simpa [mayBegin] using hc)).2
  | block =>
      rcases beq_iff_eq.mp hc with rfl
      decide
  | semicolon | body =>
      simp only [mayBegin, Bool.or_eq_true, beq_iff_eq] at hc
      rcases hc with rfl | rfl <;> decide

end Token

section Laid

variable {t : Token} {ts : List Token} {s : List Char}

/-- Where tokens are laid out, nothing stands that the first one does not begin with. -/
theorem Laid.stops (h : Laid ts s) {q : Char → Bool}
    (hq : ∀ t ∈ ts.head?, ∀ x c, t.Spells x → t.mayBegin c = true → q c = false) : Stops q s := by
  cases h with
  | nil => exact stops_nil q
  | cons hx => exact hx.stops (fun c => hq _ rfl _ c hx) _

theorem Laid.stops_beginsTrivia (h : Laid ts s) : Stops beginsTrivia s :=
  h.stops fun _ _ _ _ hx hc => hx.beginsTrivia hc

/-- What stands behind a token that is laid out. -/
theorem Laid.exists_cons (h : Laid (t :: ts) s) :
    ∃ x g r, s = x ++ (g ++ r) ∧ t.Spells x ∧ Trivia g ∧ Laid ts r ∧
      (t.isWord = true → Stops goesOn (g ++ r)) ∧ (t.isTight = true → g = []) := by
  cases h with
  | @cons _ _ x g r hx hg hr hapart htight =>
      refine ⟨x, g, r, rfl, hx, hg, hr, fun ht => ?_, htight⟩
      rcases hg.eq_nil_or with rfl | ⟨c, g, rfl, hc⟩
      · -- Without a gap the next token is no word.
        refine hr.stops fun u hu y c hy hc => (hy.not_word ?_ hc).1
        rw [← Bool.not_eq_true]
        intro hword
        refine hapart ht ?_ rfl
        rw [Option.mem_def] at hu
        rw [hu]
        exact hword
      · exact stops_cons.mpr (Token.not_goesOn_of_beginsTrivia hc)

/-- A layout has no fewer characters than tokens. -/
theorem Laid.length_le (h : Laid ts s) : ts.length ≤ s.length := by
  induction h with
  | nil => exact Nat.le_refl _
  | cons hx _ _ _ _ ih =>
      obtain ⟨c, r, rfl, -⟩ := hx.exists_cons
      simp only [List.length_cons, List.length_append]
      omega

end Laid

/-! ### Laying tokens out -/

namespace LaidOut

variable {t : Token} {ts : List Token} {x g r : List Char} {c : Char}

theorem nil : LaidOut [] [] :=
  ⟨[], [], .nil, .nil, rfl⟩

theorem trivia (hg : Trivia g) (h : LaidOut ts r) : LaidOut ts (g ++ r) := by
  obtain ⟨g', s, hg', hs, rfl⟩ := h
  exact ⟨g ++ g', s, hg.append hg', hs, (List.append_assoc g g' s).symm⟩

theorem white (hc : isWhite c = true) (h : LaidOut ts r) : LaidOut ts (c :: r) :=
  h.trivia (.white hc .nil)

/-- A token that is no word, and one that stands in front of no word, needs no gap. -/
theorem token (hx : t.Spells x) (ht : t.isTight = false)
    (hapart : t.isWord = true → ts.head?.any Token.isWord = true → r.head?.any beginsTrivia = true)
    (h : LaidOut ts r) : LaidOut (t :: ts) (x ++ r) := by
  obtain ⟨g, s, hg, hs, rfl⟩ := h
  refine ⟨[], x ++ (g ++ s), .nil, .cons hx hg hs (fun hword hnext => ?_) (by simp [ht]), rfl⟩
  rintro rfl
  have hbegins := hapart hword hnext
  have hstop := hs.stops_beginsTrivia
  cases s with
  | nil => cases hbegins
  | cons d s =>
      have hd : beginsTrivia d = true := hbegins
      rw [stops_cons.mp hstop] at hd
      cases hd

theorem symbol (hx : x ∈ symbols) (h : LaidOut ts r) : LaidOut (.symbol x :: ts) (x ++ r) :=
  token (.symbol hx) rfl (fun hword => nomatch hword) h

/-- A word in front of a space. -/
theorem word {w : String} (hw : IsIdentifier w.toList) (hc : isWhite c = true) (h : LaidOut ts r) :
    LaidOut (.word w :: ts) (w.toList ++ c :: r) :=
  token (.word hw) rfl (fun _ _ => by simp [beginsTrivia, hc]) (h.white hc)

/-- A word in front of a token that is none. -/
theorem wordEnd {w : String} (hw : IsIdentifier w.toList) (hnext : ts.head?.any Token.isWord = false)
    (h : LaidOut ts r) : LaidOut (.word w :: ts) (w.toList ++ r) :=
  token (.word hw) rfl (fun _ hword => by rw [hnext] at hword; cases hword) h

/-- The path of an import and its semicolon. -/
theorem path {p : String} (hp : IsPath p) (h : LaidOut ts r) :
    LaidOut (.path p :: .symbol [';'] :: ts) (p.toList ++ ';' :: r) := by
  obtain ⟨g, s, hg, hs, rfl⟩ := h
  have hsymbol : Laid (.symbol [';'] :: ts) ([';'] ++ (g ++ s)) :=
    .cons (.symbol (by decide)) hg hs (fun hword => nomatch hword) fun htight => nomatch htight
  exact ⟨[], p.toList ++ ([] ++ ([';'] ++ (g ++ s))), .nil,
    .cons (.path hp) .nil hsymbol (fun _ hword => nomatch hword) fun _ => rfl, rfl⟩

end LaidOut

end ClassModel.Source
