/-
Taking modifiers out of written lines.

A line is cut into segments from the left, and a word in braces cannot reach across a
character that is neither a brace nor a word character.  So a text may be cut at such a
character before it is cut into segments, and a written line, whose parts are separated by
spaces, parentheses and commas, keeps its text exactly if each of its parts does.  The only
modifier that is ever written is the mark of a static member.
-/
import ClassModel.Diagram.Reader
import ClassModel.Proofs.Diagram.Members

namespace ClassModel

open LineParser

/-! ### Cutting a text in two -/

/-- A character that no word in braces contains. -/
def separates (c : Char) : Bool :=
  !isWordChar c && c != '\x7b' && c != '\x7d'

theorem bracedWord_nil : bracedWord [] = none := rfl

theorem bracedWord_cons_of_ne {c : Char} (h : c ≠ '\x7b') (r : List Char) :
    bracedWord (c :: r) = none := by
  rw [bracedWord, bind_of_none (char_eq_none (stops_cons.mpr (beq_eq_false_iff_ne.mpr h)))]

/-- A word in braces is a word between braces. -/
theorem bracedWord_append {w : List Char} (hw : IsWord w) (r : List Char) :
    bracedWord ('\x7b' :: (w ++ '\x7d' :: r)) = some (w, r) := by
  rw [bracedWord, bind_of_some (char_cons _ _), bind_of_some (word_append hw
    (stops_cons.mpr (by decide))), bind_of_some (char_cons _ _)]
  rfl

/-- Behind a separator nothing of a word in braces is to be found. -/
theorem bracedWord_append_cons {c : Char} (hc : separates c = true) (s b : List Char) :
    bracedWord (s ++ c :: b) = (bracedWord s).map fun x => (x.1, x.2 ++ c :: b) := by
  have hne : isWordChar c = false ∧ c ≠ '\x7b' ∧ c ≠ '\x7d' := by
    simpa [separates, and_assoc] using hc
  cases s with
  | nil =>
      rw [List.nil_append, bracedWord_cons_of_ne hne.2.1, bracedWord_nil]
      rfl
  | cons d r =>
      by_cases hd : d = '\x7b'
      · subst hd
        rw [List.cons_append, bracedWord, bind_of_some (char_cons _ _),
          bind_of_some (char_cons _ _), ← run_append isWordChar r, List.append_assoc]
        have hall : ∀ x ∈ r.takeWhile isWordChar, isWordChar x = true := fun x => of_mem_takeWhile
        rcases hr : r.dropWhile isWordChar with _ | ⟨e, t⟩
        · -- The word goes on to the end of the first text, and no brace closes it.
          have hstop : Stops isWordChar (c :: b) := stops_cons.mpr hne.1
          rw [List.nil_append]
          by_cases hnil : r.takeWhile isWordChar = []
          · rw [hnil, List.nil_append, List.nil_append, bind_of_none (word_eq_none hstop),
              bind_of_none (word_eq_none (stops_nil _))]
            rfl
          · rw [bind_of_some (word_append ⟨hnil, hall⟩ hstop),
              bind_of_some (word_append ⟨hnil, hall⟩ (stops_nil _)),
              bind_of_none (char_eq_none (stops_nil _)),
              bind_of_none (char_eq_none (stops_cons.mpr (beq_eq_false_iff_ne.mpr hne.2.2)))]
            rfl
        · have he : isWordChar e = false := stops_cons.mp (hr ▸ stops_dropWhile isWordChar r)
          rw [List.cons_append]
          by_cases hnil : r.takeWhile isWordChar = []
          · rw [hnil, List.nil_append, List.nil_append,
              bind_of_none (word_eq_none (stops_cons.mpr he)),
              bind_of_none (word_eq_none (stops_cons.mpr he))]
            rfl
          · rw [bind_of_some (word_append ⟨hnil, hall⟩ (stops_cons.mpr he)),
              bind_of_some (word_append ⟨hnil, hall⟩ (stops_cons.mpr he))]
            by_cases hclose : e = '\x7d'
            · subst hclose
              rw [bind_of_some (char_cons _ _), bind_of_some (char_cons _ _)]
              rfl
            · rw [bind_of_none (char_eq_none (stops_cons.mpr (beq_eq_false_iff_ne.mpr hclose))),
                bind_of_none (char_eq_none (stops_cons.mpr (beq_eq_false_iff_ne.mpr hclose)))]
              rfl
      · rw [List.cons_append, bracedWord_cons_of_ne hd, bracedWord_cons_of_ne hd]
        rfl

theorem segments_nil : segments [] = [] := by
  rw [segments]

theorem segments_of_bracedWord {c : Char} {r w t : List Char}
    (h : bracedWord (c :: r) = some (w, t)) :
    segments (c :: r) = .modifier w :: segments t := by
  rw [segments]
  split
  · rename_i w' t' h'
    rw [h] at h'
    cases h'
    rfl
  · rename_i h'
    rw [h] at h'
    cases h'

theorem segments_of_bracedWord_eq_none {c : Char} {r : List Char}
    (h : bracedWord (c :: r) = none) : segments (c :: r) = .text c :: segments r := by
  rw [segments]
  split
  · rename_i w' t' h'
    rw [h] at h'
    cases h'
  · rfl

theorem segments_cons_of_ne {c : Char} (h : c ≠ '\x7b') (r : List Char) :
    segments (c :: r) = .text c :: segments r :=
  segments_of_bracedWord_eq_none (bracedWord_cons_of_ne h r)

/-- **A separator cuts a text into two that have nothing to do with each other.** -/
theorem segments_append_cons {c : Char} (hc : separates c = true) (a b : List Char) :
    segments (a ++ c :: b) = segments a ++ .text c :: segments b := by
  have hopen : c ≠ '\x7b' := by
    rintro rfl
    exact absurd hc (by decide)
  fun_induction segments a with
  | case1 => rw [List.nil_append, segments_cons_of_ne hopen]; rfl
  | case2 d r w t hw ih =>
      have h := bracedWord_append_cons hc (d :: r) b
      rw [hw, Option.map_some, List.cons_append] at h
      rw [List.cons_append, segments_of_bracedWord h, ih]
      rfl
  | case3 d r hw ih =>
      have h := bracedWord_append_cons hc (d :: r) b
      rw [hw, Option.map_none, List.cons_append] at h
      rw [List.cons_append, segments_of_bracedWord_eq_none h, ih]
      rfl

/-! ### Texts that keep all their characters -/

/-- A text without a word in braces, so that nothing is taken out of it. -/
def Unmarked (s : List Char) : Prop :=
  segments s = s.map Segment.text

instance (s : List Char) : Decidable (Unmarked s) :=
  inferInstanceAs (Decidable (_ = _))

theorem length_segments_le (s : List Char) : (segments s).length ≤ s.length := by
  fun_induction segments s with
  | case1 => exact Nat.le_refl _
  | case2 c r w t hw ih =>
      have := length_lt_of_bracedWord hw
      rw [List.length_cons]
      omega
  | case3 c r hw ih =>
      rw [List.length_cons, List.length_cons]
      omega

theorem unmarked_nil : Unmarked [] :=
  segments_nil

theorem unmarked_of_not_mem {s : List Char} (h : '\x7b' ∉ s) : Unmarked s := by
  induction s with
  | nil => exact unmarked_nil
  | cons c r ih =>
      rw [List.mem_cons, not_or] at h
      rw [Unmarked, segments_cons_of_ne (Ne.symm h.1), ih h.2]
      rfl

theorem unmarked_of_isWord {w : List Char} (h : IsWord w) : Unmarked w :=
  unmarked_of_not_mem fun hc => absurd (h.chars _ hc) (by decide)

/-- A separator joins texts without words in braces, and only such ones. -/
theorem unmarked_append_cons_iff {c : Char} (hc : separates c = true) {a b : List Char} :
    Unmarked (a ++ c :: b) ↔ Unmarked a ∧ Unmarked b := by
  rw [Unmarked, segments_append_cons hc, List.map_append, List.map_cons]
  constructor
  · intro h
    have ha := length_segments_le a
    have hb := length_segments_le b
    have hlen := congrArg List.length h
    simp only [List.length_append, List.length_cons, List.length_map] at hlen
    obtain ⟨h₁, h₂⟩ := List.append_inj h (by rw [List.length_map]; omega)
    exact ⟨h₁, (List.cons.inj h₂).2⟩
  · rintro ⟨h₁, h₂⟩
    rw [h₁, h₂]

theorem unmarked_cons_iff {c : Char} (hc : separates c = true) {b : List Char} :
    Unmarked (c :: b) ↔ Unmarked b :=
  (unmarked_append_cons_iff hc (a := [])).trans ⟨And.right, fun h => ⟨unmarked_nil, h⟩⟩

theorem unmarked_append_singleton_iff {c : Char} (hc : separates c = true) {a : List Char} :
    Unmarked (a ++ [c]) ↔ Unmarked a :=
  (unmarked_append_cons_iff hc (b := [])).trans ⟨And.left, fun h => ⟨h, unmarked_nil⟩⟩

/-! ### Stripped lines -/

/-- A line without its modifiers, which are recorded beside it. -/
def strippedLine (line : List Char) : Line :=
  (Line.ofSegments (segments (dropReturn line))).value

theorem value_stripModifiers (text : List Char) :
    (stripModifiers text).value = (splitOnChar '\n' text).map strippedLine :=
  Traced.value_mapM _ _

theorem dropReturn_append {s : List Char} {c : Char} (h : c ≠ '\r') :
    dropReturn (s ++ [c]) = s ++ [c] := by
  rw [dropReturn, List.getLast?_concat, if_neg (by simpa using h)]

/-- Of a line nothing is dropped but one carriage return. -/
theorem dropReturn_cases (s : List Char) :
    s = dropReturn s ++ ['\r'] ∨ s = dropReturn s ∧ (dropReturn s).getLast? ≠ some '\r' := by
  unfold dropReturn
  by_cases h : s.getLast? = some '\r'
  · obtain ⟨t, rfl⟩ := List.getLast?_eq_some_iff.mp h
    rw [if_pos h, List.dropLast_concat]
    exact Or.inl rfl
  · rw [if_neg h]
    exact Or.inr ⟨rfl, h⟩

/-- A line without modifiers and without a carriage return is left as it is. -/
theorem strippedLine_of_unmarked {line : List Char} (hr : dropReturn line = line)
    (h : Unmarked line) : strippedLine line = { text := line } := by
  have hc : (line.map Segment.text).filterMap Segment.char? = line := by
    rw [List.filterMap_map]
    exact List.filterMap_some
  have hw : (line.map Segment.text).filterMap Segment.word? = [] := by
    rw [List.filterMap_map]
    exact List.filterMap_eq_nil_iff.mpr fun _ _ => rfl
  rw [strippedLine, hr, h, Line.ofSegments, Traced.value_ofEvents, hc, hw]
  rfl

/-- The mark of a static member is taken out, and recorded. -/
theorem strippedLine_static {c d : Char} {s : List Char} (hc : c ≠ '\x7b') (hd : d ≠ '\x7b')
    (hr : dropReturn (c :: d :: ' ' :: ("\x7bstatic\x7d ".toList ++ s)) =
      c :: d :: ' ' :: ("\x7bstatic\x7d ".toList ++ s))
    (h : Unmarked s) :
    strippedLine (c :: d :: ' ' :: ("\x7bstatic\x7d ".toList ++ s)) =
      { text := c :: d :: ' ' :: ' ' :: s, modifiers := { isStatic := true } } := by
  have hword : bracedWord ("\x7bstatic\x7d ".toList ++ s) = some ("static".toList, ' ' :: s) :=
    bracedWord_append (w := "static".toList) (by decide) (' ' :: s)
  have hsegments : segments (c :: d :: ' ' :: ("\x7bstatic\x7d ".toList ++ s)) =
      .text c :: .text d :: .text ' ' :: .modifier "static".toList :: .text ' ' ::
        s.map Segment.text := by
    rw [segments_cons_of_ne hc, segments_cons_of_ne hd, segments_cons_of_ne (by decide)]
    have hs : segments ("\x7bstatic\x7d ".toList ++ s) =
        .modifier "static".toList :: segments (' ' :: s) := segments_of_bracedWord hword
    rw [hs, segments_cons_of_ne (by decide), h]
  have htext : (s.map Segment.text).filterMap Segment.char? = s := by
    rw [List.filterMap_map]
    exact List.filterMap_some
  have hnone : (s.map Segment.text).filterMap Segment.word? = [] := by
    rw [List.filterMap_map]
    exact List.filterMap_eq_nil_iff.mpr fun _ _ => rfl
  rw [strippedLine, hr, hsegments, Line.ofSegments, Traced.value_ofEvents]
  simp only [List.filterMap_cons, Segment.char?, Segment.word?, htext, hnone]
  rfl

end ClassModel
