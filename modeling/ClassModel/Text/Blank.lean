/-
White space.

The readers of this library meet two notions of white space.  Inside a diagram line
only the space and the tab separate words, and `LineParser` has its own name for
them.  Everywhere else, when a line is called blank or a text is trimmed, white space
is the Unicode property White_Space, listed here in full.

What is proved is what the callers lean on: trimming removes blanks only, and the
words of a text are never empty.
-/
namespace ClassModel

/-- A character with the Unicode property White_Space. -/
def isBlank (c : Char) : Bool :=
  let n := c.toNat
  (9 ≤ n && n ≤ 13) || n == 0x20 || n == 0x85 || n == 0xA0 || n == 0x1680 ||
    (0x2000 ≤ n && n ≤ 0x200A) || n == 0x2028 || n == 0x2029 || n == 0x202F ||
    n == 0x205F || n == 0x3000

/-- The text without its leading blanks. -/
def trimStart (s : List Char) : List Char :=
  s.dropWhile isBlank

/-- The text without its trailing blanks. -/
def trimEnd (s : List Char) : List Char :=
  (s.reverse.dropWhile isBlank).reverse

/-- The text without the blanks at either end. -/
def trim (s : List Char) : List Char :=
  trimEnd (trimStart s)

/-- Nothing but blanks, which includes nothing at all. -/
def isBlankText (s : List Char) : Bool :=
  s.all isBlank

/-- The maximal runs of characters other than blanks, in order. -/
def words (s : List Char) : List (List Char) :=
  match _h : s.dropWhile isBlank with
  | [] => []
  | c :: r => (c :: r.takeWhile (!isBlank ·)) :: words (r.dropWhile (!isBlank ·))
termination_by s.length
decreasing_by
  have h₁ : (s.dropWhile isBlank).length ≤ s.length := (List.dropWhile_sublist _).length_le
  have h₂ : (r.dropWhile (!isBlank ·)).length ≤ r.length := (List.dropWhile_sublist _).length_le
  rw [_h, List.length_cons] at h₁
  omega

/-! ### What trimming keeps -/

/-- Trimming at the front leaves an end of the text. -/
theorem trimStart_suffix (s : List Char) : trimStart s <:+ s :=
  List.dropWhile_suffix _

/-- A text is blank exactly when trimming leaves nothing of it. -/
theorem trimStart_eq_nil_iff {s : List Char} : trimStart s = [] ↔ isBlankText s = true := by
  induction s with
  | nil => simp [trimStart, isBlankText]
  | cons c r ih =>
      simp only [trimStart, isBlankText, List.dropWhile_cons, List.all_cons] at ih ⊢
      by_cases hc : isBlank c = true <;> simp [hc, ih]

end ClassModel
