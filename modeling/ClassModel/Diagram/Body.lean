/-
Bodies of declarations.

The body of a declaration opens with a brace, on the header line or at the start of the
next line that is not blank, and reaches to the brace that closes it, across as many lines
as it takes.  What stands behind the closing brace on its line belongs to nothing.  A
body that is never closed is no body at all.

Braces are counted over the stripped lines.  The count starts at one, and the first brace
that brings it to zero ends the body.  A scan that leaves the body open can be taken up
where it stopped, so the lines of a body count as one text.
-/
import ClassModel.Diagram.Modifier
import ClassModel.Text.Blank

namespace ClassModel

/-- What the braces of a text do to a body that is open. -/
inductive BraceScan where
  /-- The body ends; this is the text in front of the closing brace. -/
  | closed (before : List Char)
  /-- The body goes on with so many open braces. -/
  | stillOpen (depth : Nat)
  deriving DecidableEq, Repr

/-- Put a character in front of the text of a scan. -/
def BraceScan.cons (c : Char) : BraceScan → BraceScan
  | closed before => closed (c :: before)
  | stillOpen depth => stillOpen depth

/-- Follow the braces of a text, with so many braces open besides the one of the body. -/
def scanBraces : Nat → List Char → BraceScan
  | inner, [] => .stillOpen inner
  | inner, c :: r =>
      if c = '\x7b' then (scanBraces (inner + 1) r).cons c
      else if c = '\x7d' then
        match inner with
        | 0 => .closed []
        | n + 1 => (scanBraces n r).cons c
      else (scanBraces inner r).cons c

/-- The lines of an open body and the lines after the one that closes it. -/
def gatherBody (inner : Nat) (line : Line) : List Line → Option (List Line × List Line)
  | [] =>
      match scanBraces inner line.text with
      | .closed before => some ([{ line with text := before }], [])
      | .stillOpen _ => none
  | next :: rest =>
      match scanBraces inner line.text with
      | .closed before => some ([{ line with text := before }], next :: rest)
      | .stillOpen depth =>
          (gatherBody depth next rest).map fun (body, after) => (line :: body, after)

/-- The line on which a body opens after its header, cut behind the opening brace, with the
lines after it. -/
def openingLine? : List Line → Option (Line × List Line)
  | [] => none
  | l :: rest =>
      if isBlankText l.text then openingLine? rest
      else
        match trimStart l.text with
        | '\x7b' :: r => some ({ l with text := r }, rest)
        | _ => none

/-- The body of the declaration on a header line, and the lines after the body.  `rest` is
the text behind a brace on the header line itself. -/
def collectBody (header : Line) (rest : Option (List Char)) (following : List Line) :
    Option (List Line × List Line) :=
  match rest with
  | some text => gatherBody 0 { header with text } following
  | none => do
      let (first, after) ← openingLine? following
      gatherBody 0 first after

/-! ### What a scan has read -/

theorem scanBraces_nil (inner : Nat) : scanBraces inner [] = .stillOpen inner := by
  cases inner <;> rfl

theorem scanBraces_cons (inner : Nat) (c : Char) (r : List Char) :
    scanBraces inner (c :: r) =
      if c = '\x7d' ∧ inner = 0 then .closed []
      else (scanBraces (if c = '\x7b' then inner + 1 else if c = '\x7d' then inner - 1 else inner)
        r).cons c := by
  by_cases ho : c = '\x7b'
  · subst ho
    cases inner <;> simp [scanBraces]
  · by_cases hc : c = '\x7d' <;> cases inner <;> simp [scanBraces, ho, hc]

/-- A body ends in front of a closing brace. -/
theorem exists_of_scanBraces_eq_closed {inner : Nat} {s before : List Char}
    (h : scanBraces inner s = .closed before) : ∃ r, s = before ++ '\x7d' :: r := by
  induction s generalizing inner before with
  | nil =>
      rw [scanBraces_nil] at h
      cases h
  | cons c r ih =>
      rw [scanBraces_cons] at h
      split at h
      · rename_i hc
        cases h
        exact ⟨r, by rw [hc.1]; rfl⟩
      · rcases hs : scanBraces _ r with b | d
        · rw [hs] at h
          obtain ⟨t, ht⟩ := ih hs
          cases h
          exact ⟨t, by rw [ht]; rfl⟩
        · rw [hs] at h
          cases h

/-- Put a text in front of the text of a scan. -/
def BraceScan.prepend (s : List Char) : BraceScan → BraceScan
  | closed before => closed (s ++ before)
  | stillOpen depth => stillOpen depth

/-- A scan that leaves the body open can be taken up where it stopped. -/
theorem scanBraces_append {inner depth : Nat} {s : List Char}
    (h : scanBraces inner s = .stillOpen depth) (t : List Char) :
    scanBraces inner (s ++ t) = (scanBraces depth t).prepend s := by
  induction s generalizing inner with
  | nil =>
      rw [scanBraces_nil] at h
      cases h
      rw [List.nil_append]
      cases scanBraces _ t <;> rfl
  | cons c r ih =>
      rw [scanBraces_cons] at h
      rw [List.cons_append, scanBraces_cons]
      split at h
      · cases h
      · rw [if_neg ‹_›]
        rcases hs : scanBraces _ r with b | d
        · rw [hs] at h
          cases h
        · rw [hs] at h
          cases h
          rw [ih hs]
          cases scanBraces _ t <;> rfl

/-! ### Progress -/

/-- The lines after a body come from the lines that were left. -/
theorem length_gatherBody {inner : Nat} {line : Line} {following body after : List Line}
    (h : gatherBody inner line following = some (body, after)) :
    after.length ≤ following.length := by
  induction following generalizing inner line body after with
  | nil =>
      simp only [gatherBody] at h
      split at h <;> simp_all
  | cons next rest ih =>
      simp only [gatherBody] at h
      split at h
      · simp_all
      · obtain ⟨⟨b, a⟩, hr, he⟩ := Option.map_eq_some_iff.1 h
        cases he
        exact Nat.le_succ_of_le (ih hr)

theorem length_openingLine? {lines after : List Line} {first : Line}
    (h : openingLine? lines = some (first, after)) : after.length ≤ lines.length := by
  induction lines with
  | nil => simp [openingLine?] at h
  | cons l rest ih =>
      simp only [openingLine?] at h
      split at h
      · exact Nat.le_succ_of_le (ih h)
      · split at h <;> simp_all

theorem length_collectBody {header : Line} {rest : Option (List Char)}
    {following body after : List Line}
    (h : collectBody header rest following = some (body, after)) :
    after.length ≤ following.length := by
  cases rest with
  | some text => exact length_gatherBody h
  | none =>
      simp only [collectBody, Option.bind_eq_bind, Option.bind_eq_some_iff] at h
      obtain ⟨⟨first, mid⟩, ho, hg⟩ := h
      exact Nat.le_trans (length_gatherBody hg) (length_openingLine? ho)

end ClassModel
