/-
Reading the words of a line.

The basic parsers of a line are described by how they cut a text, and each of them gets one
equation for the texts that are cut where it stops.

The equations are stated in both directions where a reading has to be undone: what a word
parser returns is a word, and a word in front of anything else is returned.
-/
import ClassModel.Diagram.TypeText
import ClassModel.Proofs.Runs

namespace ClassModel

/-- A word: letters, digits and underscores of ASCII, at least one of them. -/
structure IsWord (w : List Char) : Prop where
  ne_nil : w ≠ []
  chars : ∀ c ∈ w, isWordChar c = true

instance (w : List Char) : Decidable (IsWord w) :=
  decidable_of_iff (w ≠ [] ∧ ∀ c ∈ w, isWordChar c = true)
    ⟨fun h => ⟨h.1, h.2⟩, fun h => ⟨h.ne_nil, h.chars⟩⟩

namespace IsWord

variable {w : List Char}

/-- A word begins with a word character. -/
theorem exists_cons (h : IsWord w) : ∃ c r, w = c :: r ∧ isWordChar c = true := by
  cases w with
  | nil => exact absurd rfl h.ne_nil
  | cons c r => exact ⟨c, r, rfl, h.chars c (by simp)⟩

/-- Where a word stands, nothing goes on that no word begins with. -/
theorem stops (h : IsWord w) {p : Char → Bool} (hp : ∀ c, isWordChar c = true → p c = false)
    (r : List Char) : Stops p (w ++ r) := by
  obtain ⟨c, t, rfl, hc⟩ := h.exists_cons
  exact stops_cons.mpr (hp c hc)

end IsWord

/-! ### Classes of characters -/

theorem ne_of_isWordChar {c d : Char} (h : isWordChar c = true) (hd : isWordChar d = false) :
    c ≠ d := by
  rintro rfl
  rw [h] at hd
  cases hd

theorem beq_false_of_isWordChar {c d : Char} (h : isWordChar c = true)
    (hd : isWordChar d = false) : (c == d) = false :=
  beq_eq_false_iff_ne.mpr (ne_of_isWordChar h hd)

namespace LineParser

theorem isSpace_of_isWordChar {c : Char} (h : isWordChar c = true) : isSpace c = false := by
  rw [isSpace, beq_false_of_isWordChar h (by decide), beq_false_of_isWordChar h (by decide)]
  rfl

/-! ### One part after the other -/

section Sequence

variable {α β : Type} {p : LineParser α} {s r : List Char} {a : α}

theorem bind_of_some (h : p s = some (a, r)) (f : α → LineParser β) : (p >>= f) s = f a r := by
  rw [bind_apply, h]
  rfl

theorem bind_of_none (h : p s = none) (f : α → LineParser β) : (p >>= f) s = none := by
  rw [bind_apply, h]
  rfl

theorem orElse_of_none {q : LineParser α} (h : p s = none) : (p <|> q) s = q s := by
  rw [orElse_apply, h]
  rfl

theorem orElse_of_some {q : LineParser α} (h : p s = some (a, r)) :
    (p <|> q) s = some (a, r) := by
  rw [orElse_apply, h]
  rfl

end Sequence

/-! ### Characters and spaces -/

theorem char_cons (c : Char) (r : List Char) : char c (c :: r) = some (c, r) := by
  rw [char, satisfy_cons, if_pos (beq_self_eq_true c)]

theorem char_eq_none {c : Char} {s : List Char} (h : Stops (· == c) s) : char c s = none := by
  cases s with
  | nil => rfl
  | cons d r => rw [char, satisfy_cons, stops_cons.mp h]; rfl

/-- A given character was read exactly if it stood in front. -/
theorem char_eq_some_iff {c d : Char} {s r : List Char} :
    char c s = some (d, r) ↔ d = c ∧ s = c :: r := by
  rw [char, satisfy_eq_some_iff, beq_iff_eq]
  constructor
  · rintro ⟨rfl, rfl⟩
    exact ⟨rfl, rfl⟩
  · rintro ⟨rfl, rfl⟩
    exact ⟨rfl, rfl⟩

theorem run_apply (p : Char → Bool) (s : List Char) :
    run p s = some (s.takeWhile p, s.dropWhile p) := rfl

theorem spaces_apply (s : List Char) : spaces s = some ((), s.dropWhile isSpace) := rfl

theorem spaces_of_stops {s : List Char} (h : Stops isSpace s) : spaces s = some ((), s) := by
  rw [spaces_apply, dropWhile_of_stops h]

theorem run1_append {p : Char → Bool} {w r : List Char} (hne : w ≠ [])
    (hw : ∀ c ∈ w, p c = true) (hr : Stops p r) : run1 p (w ++ r) = some (w, r) :=
  run1_eq_some_iff.mpr
    ⟨hne, (takeWhile_append_of_stops hw hr).symm, (dropWhile_append_of_stops hw hr).symm⟩

/-- What a run has read lies in its class, and the class does not go on behind it. -/
theorem run1_eq_some {p : Char → Bool} {s w r : List Char} (h : run1 p s = some (w, r)) :
    s = w ++ r ∧ w ≠ [] ∧ (∀ c ∈ w, p c = true) ∧ Stops p r := by
  obtain ⟨hne, rfl, rfl⟩ := run1_eq_some_iff.mp h
  exact ⟨(run_append p s).symm, hne, fun _ => of_mem_takeWhile, stops_dropWhile p s⟩

theorem run1_eq_none {p : Char → Bool} {s : List Char} (h : Stops p s) : run1 p s = none := by
  cases s with
  | nil => rfl
  | cons c r => rw [run1, stops_cons.mp h]; rfl

theorem spaces1_apply (s : List Char) : spaces1 s = (run1 isSpace s).map fun x => ((), x.2) := by
  rw [spaces1, bind_apply]
  cases run1 isSpace s <;> rfl

theorem spaces1_eq_none {s : List Char} (h : Stops isSpace s) : spaces1 s = none := by
  rw [spaces1_apply, run1_eq_none h]
  rfl

/-- Spaces in front of something else are read together. -/
theorem spaces1_append {w r : List Char} (hne : w ≠ []) (hw : ∀ c ∈ w, isSpace c = true)
    (hr : Stops isSpace r) : spaces1 (w ++ r) = some ((), r) := by
  rw [spaces1_apply, run1_append hne hw hr]
  rfl

/-- One space in front of something else. -/
theorem spaces1_space {r : List Char} (h : Stops isSpace r) :
    spaces1 (' ' :: r) = some ((), r) :=
  spaces1_append (w := [' ']) (by simp) (by simp [isSpace]) h

/-- Reading spaces was possible exactly if there is one, and takes all of them. -/
theorem spaces1_eq_some {s r : List Char} {u : Unit} (h : spaces1 s = some (u, r)) :
    (∃ w, w ≠ [] ∧ (∀ c ∈ w, isSpace c = true) ∧ s = w ++ r) ∧ Stops isSpace r := by
  rw [spaces1_apply, Option.map_eq_some_iff] at h
  obtain ⟨⟨w, t⟩, hw, he⟩ := h
  cases he
  obtain ⟨hs, hne, hall, hr⟩ := run1_eq_some hw
  exact ⟨⟨w, hne, hall, hs⟩, hr⟩

/-! ### Words -/

theorem word_append {w r : List Char} (hw : IsWord w) (hr : Stops isWordChar r) :
    word (w ++ r) = some (w, r) :=
  run1_append hw.ne_nil hw.chars hr

/-- A word was read exactly if the text is cut behind it. -/
theorem word_eq_some_iff {s w r : List Char} :
    word s = some (w, r) ↔ s = w ++ r ∧ IsWord w ∧ Stops isWordChar r := by
  constructor
  · intro h
    obtain ⟨hs, hne, hall, hr⟩ := run1_eq_some h
    exact ⟨hs, ⟨hne, hall⟩, hr⟩
  · rintro ⟨rfl, hw, hr⟩
    exact word_append hw hr

theorem word_eq_none {s : List Char} (h : Stops isWordChar s) : word s = none :=
  run1_eq_none h

theorem name_apply (s : List Char) :
    name s = (word s).map fun x => (String.ofList x.1, x.2) := by
  rw [name, bind_apply]
  cases word s <;> rfl

theorem name_append {n : String} {r : List Char} (hn : IsWord n.toList)
    (hr : Stops isWordChar r) : name (n.toList ++ r) = some (n, r) := by
  rw [name_apply, word_append hn hr, Option.map_some, String.ofList_toList]

/-- A name was read exactly if the text is cut behind it. -/
theorem name_eq_some_iff {s r : List Char} {n : String} :
    name s = some (n, r) ↔ s = n.toList ++ r ∧ IsWord n.toList ∧ Stops isWordChar r := by
  constructor
  · intro h
    rw [name_apply, Option.map_eq_some_iff] at h
    obtain ⟨⟨w, t⟩, hw, he⟩ := h
    cases he
    rw [String.toList_ofList]
    exact word_eq_some_iff.mp hw
  · rintro ⟨rfl, hn, hr⟩
    exact name_append hn hr

theorem name_eq_none {s : List Char} (h : Stops isWordChar s) : name s = none := by
  rw [name_apply, word_eq_none h]
  rfl

/-- A keyword is read of a whole word, and only of that word. -/
theorem keyword_append {k : String} {v r : List Char} (hk : ∀ c ∈ k.toList.head?,
    isIdentifierStart c = true) (hv : IsWord v) (hr : Stops isIdentifierContinue r) :
    keyword k (v ++ r) = if v = k.toList then some ((), r) else none := by
  obtain ⟨c, t, rfl, hc⟩ := hv.exists_cons
  have ht : ∀ d ∈ t, isIdentifierContinue d = true := fun d hd =>
    isIdentifierContinue_of_isWordChar (hv.chars d (by simp [hd]))
  rw [List.cons_append, keyword, takeWhile_append_of_stops ht hr, dropWhile_append_of_stops ht hr]
  by_cases he : c :: t = k.toList
  · have hs : isIdentifierStart c = true := hk c (by simp [← he])
    rw [if_pos (by simp [hs, he]), if_pos he]
  · rw [if_neg (by simp [he]), if_neg he]

/-- A keyword that was read stood in front. -/
theorem keyword_eq_some {k : String} {s r : List Char} {u : Unit}
    (h : keyword k s = some (u, r)) : s = k.toList ++ r := by
  cases s with
  | nil => cases h
  | cons c t =>
      rw [keyword] at h
      split at h
      · rename_i hmatch
        cases h
        rw [Bool.and_eq_true, beq_iff_eq] at hmatch
        rw [← hmatch.2, List.cons_append, run_append]
      · cases h

theorem keyword_eq_none {k : String} {s : List Char} (h : Stops isIdentifierStart s) :
    keyword k s = none := by
  cases s with
  | nil => rfl
  | cons c r => rw [keyword, stops_cons.mp h]; rfl

/-! ### Parts that may be missing or repeated -/

section Parts

variable {α : Type} {p : LineParser α} {s r : List Char} {a : α}

theorem optional_eq_some (h : p s = some (a, r)) : optional p s = some (some a, r) := by
  rw [optional_apply, h]
  rfl

theorem optional_eq_none (h : p s = none) : optional p s = some (none, s) := by
  rw [optional_apply, h]
  rfl

/-- An optional part was read or is missing. -/
theorem optional_eq_some_iff {o : Option α} :
    optional p s = some (o, r) ↔
      (∃ a, o = some a ∧ p s = some (a, r)) ∨ (o = none ∧ p s = none ∧ r = s) := by
  rw [optional_apply]
  rcases p s with _ | ⟨a, t⟩
  · simp [eq_comm]
  · constructor
    · intro h
      cases h
      exact Or.inl ⟨a, rfl, rfl⟩
    · rintro (⟨b, rfl, hb⟩ | ⟨-, hb, -⟩)
      · cases hb
        rfl
      · cases hb

theorem many_eq_nil (h : p s = none) : many p s = some ([], s) := by
  rw [many, h]

theorem many_eq_cons {as : List α} {t : List Char} (h : p s = some (a, r))
    (hlt : r.length < s.length) (hr : many p r = some (as, t)) :
    many p s = some (a :: as, t) := by
  rw [many, h]
  simp [hlt, hr]

/-- What a repetition has read: parts, one behind the other, until there is no further one. -/
theorem many_induct {motive : List Char → List α → List Char → Prop}
    (stop : ∀ s, p s = none → motive s [] s)
    (step : ∀ s a r as t, p s = some (a, r) → motive r as t → motive s (a :: as) t) :
    ∀ {s as t}, many p s = some (as, t) → motive s as t := by
  intro s
  fun_induction many p s with
  | case1 s a r hp hlt ih =>
      intro as t h
      rw [Option.map_eq_some_iff] at h
      obtain ⟨⟨bs, u⟩, hb, he⟩ := h
      cases he
      exact step s a r bs _ hp (ih hb)
  | case2 s a r hp hlt =>
      intro as t h
      cases h
  | case3 s hp =>
      intro as t h
      cases h
      exact stop s hp

end Parts

end LineParser

end ClassModel
