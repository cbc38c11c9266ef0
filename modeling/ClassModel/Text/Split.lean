/-
Cutting a text at a separator, and looking for a pattern in it.

The pieces between the occurrences of a character, however many there are: a text without
the separator is one piece, and two separators side by side have an empty piece between
them.  Joined by the separator again, the pieces give back the text.
-/
namespace ClassModel

/-- The pieces of a text between the occurrences of a separator. -/
def splitOnChar (separator : Char) : List Char → List (List Char)
  | [] => [[]]
  | c :: r =>
      if c = separator then [] :: splitOnChar separator r
      else
        match splitOnChar separator r with
        | [] => [[c]]
        | p :: ps => (c :: p) :: ps

/-- The pieces of a string between the occurrences of a separator. -/
def splitText (separator : Char) (s : String) : List String :=
  (splitOnChar separator s.toList).map String.ofList

/-- A pattern occurs somewhere in a text. -/
def occursIn (pattern : List Char) : List Char → Bool
  | [] => pattern.isEmpty
  | c :: r => pattern.isPrefixOf (c :: r) || occursIn pattern r

/-- A pattern occurs exactly if the text can be cut in front of it and behind it. -/
theorem occursIn_iff {pattern s : List Char} :
    occursIn pattern s = true ↔ pattern <:+: s := by
  induction s with
  | nil => simp [occursIn]
  | cons c r ih => simp [occursIn, ih, List.infix_cons_iff]

/-- There is always a piece. -/
theorem splitOnChar_ne_nil (separator : Char) (s : List Char) : splitOnChar separator s ≠ [] := by
  cases s with
  | nil => simp [splitOnChar]
  | cons c r =>
      simp only [splitOnChar]
      split
      · simp
      · split <;> simp

/-- The pieces joined by the separator are the text. -/
theorem intercalate_splitOnChar (separator : Char) (s : List Char) :
    List.intercalate [separator] (splitOnChar separator s) = s := by
  induction s with
  | nil => rfl
  | cons c r ih =>
      rcases hs : splitOnChar separator r with _ | ⟨p, ps⟩
      · exact absurd hs (splitOnChar_ne_nil separator r)
      · rw [hs] at ih
        by_cases hc : c = separator
        · subst hc
          simp only [splitOnChar, if_true, hs]
          rw [← ih]
          simp [List.intercalate]
        · simp only [splitOnChar, if_neg hc, hs]
          rw [← ih]
          cases ps <;> simp [List.intercalate]

/-- Two lists of pieces joined one behind the other have a separator between them. -/
theorem intercalate_append {α : Type} (separator : List α) {xs ys : List (List α)}
    (hx : xs ≠ []) (hy : ys ≠ []) :
    List.intercalate separator (xs ++ ys) =
      List.intercalate separator xs ++ separator ++ List.intercalate separator ys := by
  obtain ⟨y, ys, rfl⟩ := List.exists_cons_of_ne_nil hy
  induction xs with
  | nil => exact absurd rfl hx
  | cons x xs ih =>
      cases xs with
      | nil => simp [List.intercalate_cons_cons]
      | cons z xs =>
          rw [List.cons_append, List.cons_append, List.intercalate_cons_cons, ← List.cons_append,
            ih (List.cons_ne_nil z xs), List.intercalate_cons_cons]
          simp only [List.append_assoc]

end ClassModel
