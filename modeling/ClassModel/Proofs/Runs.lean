/-
Runs of characters.

A run takes the characters of its class and stops in front of the first other one, so a text
of the form `w ++ r` is cut between `w` and `r` exactly if `w` lies in the class and `r` does
not go on with it.  `Stops` is that second half.
-/
namespace ClassModel

section Deciding

variable (p : Char → Prop) [DecidablePred p]

-- These come before whatever would look at every character there is.

/-- What holds of the characters of a text is decided along the text. -/
instance (priority := high) decidableForallChars (s : List Char) : Decidable (∀ c ∈ s, p c) :=
  List.decidableBAll p s

/-- What holds of a character that may be missing is decided there. -/
instance (priority := high) decidableForallChar (o : Option Char) : Decidable (∀ c ∈ o, p c) :=
  o.decidableForallMem

end Deciding

/-- A text that does not go on with a character of a class. -/
def Stops (p : Char → Bool) (s : List Char) : Prop :=
  ∀ c ∈ s.head?, p c = false

section Runs

variable {p : Char → Bool} {w r : List Char}

@[simp]
theorem stops_nil (p : Char → Bool) : Stops p [] := by
  intro c hc
  cases hc

@[simp]
theorem stops_cons {c : Char} : Stops p (c :: r) ↔ p c = false := by
  simp [Stops]

theorem stops_dropWhile (p : Char → Bool) (s : List Char) : Stops p (s.dropWhile p) := by
  induction s with
  | nil => exact stops_nil p
  | cons c r ih =>
      by_cases hc : p c = true
      · rw [List.dropWhile_cons_of_pos hc]
        exact ih
      · rw [List.dropWhile_cons_of_neg hc]
        exact stops_cons.mpr (by simpa using hc)

theorem takeWhile_of_stops (h : Stops p r) : r.takeWhile p = [] := by
  cases r with
  | nil => rfl
  | cons c t => exact List.takeWhile_cons_of_neg (by simp [stops_cons.mp h])

theorem dropWhile_of_stops (h : Stops p r) : r.dropWhile p = r := by
  cases r with
  | nil => rfl
  | cons c t => exact List.dropWhile_cons_of_neg (by simp [stops_cons.mp h])

theorem takeWhile_append_of_stops (hw : ∀ c ∈ w, p c = true) (hr : Stops p r) :
    (w ++ r).takeWhile p = w := by
  rw [List.takeWhile_append_of_pos hw, takeWhile_of_stops hr, List.append_nil]

theorem dropWhile_append_of_stops (hw : ∀ c ∈ w, p c = true) (hr : Stops p r) :
    (w ++ r).dropWhile p = r := by
  rw [List.dropWhile_append_of_pos hw, dropWhile_of_stops hr]

/-- A text is cut behind a run of a class in one way. -/
theorem append_inj_of_stops {w' r' : List Char} (hw : ∀ c ∈ w, p c = true) (hr : Stops p r)
    (hw' : ∀ c ∈ w', p c = true) (hr' : Stops p r') (h : w ++ r = w' ++ r') : w = w' ∧ r = r' := by
  constructor
  · have htake := congrArg (List.takeWhile p) h
    rwa [takeWhile_append_of_stops hw hr, takeWhile_append_of_stops hw' hr'] at htake
  · have hdrop := congrArg (List.dropWhile p) h
    rwa [dropWhile_append_of_stops hw hr, dropWhile_append_of_stops hw' hr'] at hdrop

/-- The characters of a run lie in its class. -/
theorem of_mem_takeWhile {s : List Char} {c : Char} (h : c ∈ s.takeWhile p) : p c = true :=
  List.all_eq_true.mp List.all_takeWhile c h

end Runs

end ClassModel
