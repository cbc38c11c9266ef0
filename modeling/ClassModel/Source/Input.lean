/-
Source text at some point of reading.

An `Input` is the text that is left, with its length at hand.  The length tells how far a
recogniser has come without walking the text, and it is what makes repetition end.  Since
it is determined by the text, two inputs with the same text are the same input, and proofs
may speak of the text alone.
-/
namespace ClassModel

/-- Remaining source text with its length. -/
structure Input where
  chars : List Char
  size : Nat
  size_eq : size = chars.length

namespace Input

/-- A text to be read. -/
def ofChars (s : List Char) : Input :=
  ⟨s, s.length, rfl⟩

@[ext]
theorem ext {i j : Input} (h : i.chars = j.chars) : i = j := by
  cases i
  cases j
  simp_all

@[simp]
theorem chars_ofChars (s : List Char) : (ofChars s).chars = s := rfl

@[simp]
theorem size_ofChars (s : List Char) : (ofChars s).size = s.length := rfl

@[simp]
theorem ofChars_chars (i : Input) : ofChars i.chars = i := ext rfl

/-- The next character and what is left after it. -/
def next? : Input → Option (Char × Input)
  | ⟨[], _, _⟩ => none
  | ⟨c :: r, n, h⟩ => some (c, ⟨r, n - 1, by simp [h]⟩)

/-- The longest run of characters that satisfy a condition, and what is left after it. -/
def span (i : Input) (p : Char → Bool) : List Char × Input :=
  (i.chars.takeWhile p, ⟨i.chars.dropWhile p, i.size - (i.chars.takeWhile p).length, by
    have h := congrArg List.length (@List.takeWhile_append_dropWhile _ p i.chars)
    rw [List.length_append] at h
    have := i.size_eq
    omega⟩)

@[simp]
theorem next?_nil : (ofChars []).next? = none := rfl

@[simp]
theorem next?_cons (c : Char) (r : List Char) :
    (ofChars (c :: r)).next? = some (c, ofChars r) := rfl

end Input

end ClassModel
