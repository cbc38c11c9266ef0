/-
Modifiers as parts of a line.

Modifiers are taken out of a line from the left, one character or one word in braces at a time.
What is taken out can be said without a direction: every word in braces that stands somewhere in
the line, and nothing else.  It comes to the same because two words in braces never overlap.
Behind the first brace of one there are word characters up to its last brace, and none of these
is an opening brace.  So wherever the reader stands, it stands inside no word in braces.

Nothing is decided on a line that has been changed already.  Braces that make a word only when
something between them is gone have made none, and they stay.
-/
import ClassModel.Proofs.Diagram.ReadModels

namespace ClassModel

open LineParser

theorem Traced.events_mapM {α β : Type} (f : α → Traced β) (l : List α) :
    (l.mapM f).events = l.flatMap fun a => (f a).events := by
  induction l with
  | nil => rfl
  | cons a l ih =>
      rw [List.mapM_cons, events_bind, events_bind, events_pure, List.append_nil, ih,
        List.flatMap_cons]

/-! ### Words in braces and their places -/

/-- A word and a place in a line where it may stand in braces. -/
structure Mark where
  /-- How many characters stand in front of the opening brace. -/
  start : Nat
  word : List Char
  deriving DecidableEq, Repr

namespace Mark

/-- The characters of a mark. -/
def text (m : Mark) : List Char :=
  '\x7b' :: (m.word ++ ['\x7d'])

/-- The place behind a mark. -/
def stop (m : Mark) : Nat :=
  m.start + m.text.length

/-- The mark stands in a line. -/
def OccursIn (m : Mark) (line : List Char) : Prop :=
  IsWord m.word ∧ m.text <+: line.drop m.start

/-- The mark does not cover a place. -/
def misses (m : Mark) (i : Nat) : Bool :=
  i < m.start || m.stop ≤ i

/-- The mark names none of the four modifiers. -/
def isUnknown (m : Mark) : Bool :=
  !(["abstract", "static", "field", "method"].contains (String.ofList m.word))

end Mark

/-- The characters of a line that no mark covers. -/
def outside (ms : List Mark) (line : List Char) : List Char :=
  (line.zipIdx.filter fun x => ms.all (Mark.misses · x.2)).map Prod.fst

/-! ### Where a mark can stand -/

variable {m : Mark} {w r : List Char} {k : Nat}

/-- Behind a text a mark is found as in what follows the text. -/
theorem Mark.occursIn_append (a : List Char) (v : List Char) :
    Mark.OccursIn ⟨a.length + k, v⟩ (a ++ r) ↔ Mark.OccursIn ⟨k, v⟩ r := by
  unfold Mark.OccursIn
  rw [List.drop_length_add_append]
  rfl

/-- A mark in front is a word in braces. -/
theorem Mark.occursIn_front {v s : List Char} :
    Mark.OccursIn ⟨0, v⟩ s ↔ ∃ t, bracedWord s = some (v, t) := by
  constructor
  · rintro ⟨hv, t, ht⟩
    refine ⟨t, ?_⟩
    rw [← bracedWord_append hv t]
    congr 1
    simpa [Mark.text] using ht.symm
  · rintro ⟨t, ht⟩
    obtain ⟨rfl, hne, hall⟩ := bracedWord_eq_some ht
    exact ⟨⟨hne, hall⟩, t, by simp [Mark.text]⟩

/-- No mark begins inside another one. -/
theorem Mark.not_occursIn_inside (hw : IsWord w) {v : List Char} (hpos : 0 < k)
    (hlt : k < w.length + 2) : ¬Mark.OccursIn ⟨k, v⟩ ('\x7b' :: (w ++ '\x7d' :: r)) := by
  rintro ⟨-, t, ht⟩
  obtain ⟨j, rfl⟩ : ∃ j, k = j + 1 := ⟨k - 1, by omega⟩
  have hhead : ((w ++ ['\x7d']).drop j ++ r).head? = some '\x7b' := by
    have hdrop : (w ++ '\x7d' :: r).drop j = (w ++ ['\x7d']).drop j ++ r := by
      rw [List.append_cons, List.drop_append_of_le_length (by simp; omega)]
    rw [← hdrop]
    exact congrArg List.head? ht.symm
  -- What is behind the first brace begins with a word character or the closing brace.
  have hmem : '\x7b' ∈ w ++ ['\x7d'] := by
    cases hd : (w ++ ['\x7d']).drop j with
    | nil =>
        have := List.drop_eq_nil_iff.mp hd
        simp at this
        omega
    | cons c u =>
        rw [hd] at hhead
        have hc : c ∈ (w ++ ['\x7d']).drop j := by rw [hd]; exact List.mem_cons_self
        cases hhead
        exact List.mem_of_mem_drop hc
  rcases List.mem_append.mp hmem with hmem | hmem
  · exact absurd (hw.chars _ hmem) (by decide)
  · exact absurd (List.mem_singleton.mp hmem) (by decide)

/-! ### The marks of a line -/

/-- The marks among segments, with so many characters in front of the segments. -/
def marksFrom : Nat → List Segment → List Mark
  | _, [] => []
  | i, .text _ :: r => marksFrom (i + 1) r
  | i, .modifier w :: r => ⟨i, w⟩ :: marksFrom (i + (w.length + 2)) r

/-- The marks of a line from left to right. -/
def marks (line : List Char) : List Mark :=
  marksFrom 0 (segments line)

theorem stop_mk (i : Nat) (w : List Char) : Mark.stop ⟨i, w⟩ = i + (w.length + 2) := by
  simp [Mark.stop, Mark.text]

theorem misses_of_lt {i : Nat} (h : i < m.start) : m.misses i = true := by
  simp [Mark.misses, h]

theorem misses_of_le {i : Nat} (h : m.stop ≤ i) : m.misses i = true := by
  simp [Mark.misses, h]

theorem le_start_of_mem_marksFrom {i : Nat} {segs : List Segment} (h : m ∈ marksFrom i segs) :
    i ≤ m.start := by
  induction segs generalizing i with
  | nil => cases h
  | cons x segs ih =>
      cases x with
      | text c => exact Nat.le_of_succ_le (ih h)
      | modifier w =>
          rcases List.mem_cons.mp h with rfl | h
          · exact Nat.le_refl _
          · have := ih h
            omega

/-- Each mark ends before the next one begins. -/
theorem pairwise_marksFrom (i : Nat) (segs : List Segment) :
    (marksFrom i segs).Pairwise fun m n => m.stop ≤ n.start := by
  induction segs generalizing i with
  | nil => exact .nil
  | cons x segs ih =>
      cases x with
      | text c => exact ih (i + 1)
      | modifier w =>
          refine List.pairwise_cons.mpr ⟨fun n hn => ?_, ih _⟩
          rw [stop_mk]
          exact le_start_of_mem_marksFrom hn

theorem pairwise_marks (line : List Char) :
    (marks line).Pairwise fun m n => m.stop ≤ n.start :=
  pairwise_marksFrom 0 (segments line)

/-- The marks among the segments of a line are those that stand in the line. -/
theorem mem_marksFrom_segments (i : Nat) (line : List Char) :
    m ∈ marksFrom i (segments line) ↔ ∃ k, m.start = i + k ∧ Mark.OccursIn ⟨k, m.word⟩ line := by
  fun_induction segments line generalizing i with
  | case1 =>
      refine ⟨fun h => (List.not_mem_nil h).elim, ?_⟩
      rintro ⟨k, -, -, t, ht⟩
      simp [Mark.text] at ht
  | case2 c r w t hw ih =>
      obtain ⟨hline, hne, hall⟩ := bracedWord_eq_some hw
      have hword : IsWord w := ⟨hne, hall⟩
      have hsource : c :: r = ('\x7b' :: (w ++ ['\x7d'])) ++ t := by
        rw [hline]
        simp
      have hlength : ('\x7b' :: (w ++ ['\x7d'])).length = w.length + 2 := by simp
      rw [marksFrom, List.mem_cons, ih]
      constructor
      · rintro (rfl | ⟨k, hk, hm⟩)
        · exact ⟨0, rfl, Mark.occursIn_front.mpr ⟨t, hw⟩⟩
        · refine ⟨w.length + 2 + k, by omega, ?_⟩
          rw [hsource, ← hlength, Mark.occursIn_append]
          exact hm
      · rintro ⟨k, hk, hm⟩
        rcases Nat.eq_zero_or_pos k with rfl | hpos
        · -- Only one word can be read where the line begins.
          obtain ⟨t', ht'⟩ := Mark.occursIn_front.mp hm
          rw [hw] at ht'
          cases m
          cases ht'
          exact Or.inl (by simp_all)
        · rcases Nat.lt_or_ge k (w.length + 2) with hlt | hge
          · rw [hsource, List.cons_append, List.append_assoc] at hm
            exact absurd hm (Mark.not_occursIn_inside hword hpos hlt)
          · obtain ⟨j, rfl⟩ : ∃ j, k = w.length + 2 + j := ⟨k - (w.length + 2), by omega⟩
            rw [hsource, ← hlength, Mark.occursIn_append] at hm
            exact Or.inr ⟨j, by omega, hm⟩
  | case3 c r hw ih =>
      rw [marksFrom, ih]
      constructor
      · rintro ⟨k, hk, hm⟩
        refine ⟨1 + k, by omega, ?_⟩
        exact (Mark.occursIn_append [c] m.word).mpr hm
      · rintro ⟨k, hk, hm⟩
        rcases Nat.eq_zero_or_pos k with rfl | hpos
        · obtain ⟨t', ht'⟩ := Mark.occursIn_front.mp hm
          rw [hw] at ht'
          cases ht'
        · obtain ⟨j, rfl⟩ : ∃ j, k = 1 + j := ⟨k - 1, by omega⟩
          exact ⟨j, by omega, (Mark.occursIn_append [c] m.word).mp hm⟩

/-- **The marks of a line are the words in braces that stand in it**, wherever that is. -/
theorem mem_marks_iff {line : List Char} : m ∈ marks line ↔ m.OccursIn line := by
  rw [marks, mem_marksFrom_segments]
  constructor
  · rintro ⟨k, hk, hm⟩
    rw [Nat.zero_add] at hk
    rw [← hk] at hm
    exact hm
  · exact fun h => ⟨m.start, (Nat.zero_add _).symm, h⟩

/-! ### What is taken out and what is left -/

/-- The words of the marks are the words that the segments record. -/
theorem map_word_marksFrom (i : Nat) (segs : List Segment) :
    (marksFrom i segs).map (fun m => String.ofList m.word) = segs.filterMap Segment.word? := by
  induction segs generalizing i with
  | nil => rfl
  | cons x segs ih =>
      cases x with
      | text c => exact ih (i + 1)
      | modifier w => exact congrArg (String.ofList w :: ·) (ih _)

/-- The characters that the segments keep are those that no mark covers. -/
theorem outside_marksFrom (i : Nat) (segs : List Segment) :
    (((segs.flatMap Segment.source).zipIdx i).filter fun x =>
        (marksFrom i segs).all (Mark.misses · x.2)).map Prod.fst =
      segs.filterMap Segment.char? := by
  induction segs generalizing i with
  | nil => rfl
  | cons x segs ih =>
      cases x with
      | text c =>
          have hfree : (marksFrom (i + 1) segs).all (Mark.misses · i) = true :=
            List.all_eq_true.mpr fun m hm => misses_of_lt (le_start_of_mem_marksFrom hm)
          have hsource : (Segment.text c :: segs).flatMap Segment.source =
              c :: segs.flatMap Segment.source := rfl
          rw [hsource, List.zipIdx_cons, marksFrom, List.filter_cons, if_pos hfree, List.map_cons,
            ih]
          rfl
      | modifier w =>
          have hlength : (Segment.source (.modifier w)).length = w.length + 2 := by
            simp [Segment.source]
          rw [List.flatMap_cons, List.zipIdx_append, List.filter_append, List.map_append, hlength,
            marksFrom]
          have hinside : ((Segment.source (.modifier w)).zipIdx i).filter (fun x =>
              (⟨i, w⟩ :: marksFrom (i + (w.length + 2)) segs).all (Mark.misses · x.2)) = [] := by
            refine List.filter_eq_nil_iff.mpr fun x hx => ?_
            obtain ⟨hle, hlt, -⟩ := List.mem_zipIdx hx
            have hcovers : Mark.misses ⟨i, w⟩ x.2 = false := by
              simp only [Mark.misses, stop_mk, Bool.or_eq_false_iff, decide_eq_false_iff_not]
              omega
            rw [List.all_cons, hcovers, Bool.false_and]
            exact Bool.false_ne_true
          have hbehind :
              (((segs.flatMap Segment.source).zipIdx (i + (w.length + 2))).filter fun x =>
              (⟨i, w⟩ :: marksFrom (i + (w.length + 2)) segs).all (Mark.misses · x.2)) =
              ((segs.flatMap Segment.source).zipIdx (i + (w.length + 2))).filter fun x =>
                (marksFrom (i + (w.length + 2)) segs).all (Mark.misses · x.2) := by
            refine List.filter_congr fun x hx => ?_
            have hle : Mark.stop ⟨i, w⟩ ≤ x.2 := stop_mk i w ▸ (List.mem_zipIdx hx).1
            rw [List.all_cons, misses_of_le hle, Bool.true_and]
          rw [hinside, hbehind, ih]
          rfl

theorem outside_marks (line : List Char) :
    outside (marks line) line = (segments line).filterMap Segment.char? := by
  have h := outside_marksFrom 0 (segments line)
  rw [flatMap_source_segments] at h
  exact h

/-! ### Texts -/

/-- A line as it is written and what it is without its modifiers. -/
structure Stripping where
  /-- The line as it stands between two line feeds. -/
  piece : List Char
  /-- The piece without the carriage return at its end. -/
  bare : List Char
  /-- The words in braces, in order. -/
  marks : List Mark
  line : Line

/-- Everything is taken out that is to be taken out, and nothing else. -/
structure Stripping.Exact (s : Stripping) : Prop where
  oneLine : '\n' ∉ s.piece
  bare : s.piece = s.bare ++ ['\r'] ∨ s.piece = s.bare ∧ s.bare.getLast? ≠ some '\r'
  mem_marks_iff : ∀ m, m ∈ s.marks ↔ m.OccursIn s.bare
  apart : s.marks.Pairwise fun m n => m.stop ≤ n.start
  text : s.line.text = outside s.marks s.bare
  isAbstract : s.line.modifiers.isAbstract = true ↔ ∃ i, Mark.OccursIn ⟨i, "abstract".toList⟩ s.bare
  isStatic : s.line.modifiers.isStatic = true ↔ ∃ i, Mark.OccursIn ⟨i, "static".toList⟩ s.bare
  field : s.line.modifiers.field = true ↔ ∃ i, Mark.OccursIn ⟨i, "field".toList⟩ s.bare
  method : s.line.modifiers.method = true ↔ ∃ i, Mark.OccursIn ⟨i, "method".toList⟩ s.bare

/-- The warnings about a line. -/
def Stripping.warnings (s : Stripping) : List Event :=
  (s.marks.filter Mark.isUnknown).map fun m => .unknownModifier (String.ofList m.word)

/-- What is made of a piece of a text. -/
def strippingOf (piece : List Char) : Stripping where
  piece
  bare := dropReturn piece
  marks := marks (dropReturn piece)
  line := strippedLine piece

/-- A modifier is recorded exactly if it stands somewhere. -/
theorem contains_words_iff (line : List Char) (w : String) :
    ((segments line).filterMap Segment.word?).contains w = true ↔
      ∃ i, Mark.OccursIn ⟨i, w.toList⟩ line := by
  rw [← map_word_marksFrom 0, List.contains_iff_mem, List.mem_map]
  constructor
  · rintro ⟨m, hm, rfl⟩
    rw [String.toList_ofList]
    exact ⟨m.start, mem_marks_iff.mp hm⟩
  · rintro ⟨i, hi⟩
    exact ⟨_, mem_marks_iff.mpr hi, String.ofList_toList⟩

theorem exact_strippingOf {piece : List Char} (h : '\n' ∉ piece) : (strippingOf piece).Exact where
  oneLine := h
  bare := dropReturn_cases piece
  mem_marks_iff := fun _ => mem_marks_iff
  apart := pairwise_marks _
  text := (outside_marks _).symm
  isAbstract := contains_words_iff _ "abstract"
  isStatic := contains_words_iff _ "static"
  field := contains_words_iff _ "field"
  method := contains_words_iff _ "method"

theorem events_ofSegments (piece : List Char) :
    (Line.ofSegments (segments (dropReturn piece))).events = (strippingOf piece).warnings := by
  unfold Line.ofSegments Stripping.warnings
  rw [Traced.events_ofEvents, ← map_word_marksFrom 0, List.filter_map, List.map_map]
  rfl

/-- **Every word in braces is taken out of a text, and nothing else.**  The text is cut at its
line feeds, and each piece has its own modifiers; the words that are none are warned of in the
order of the text. -/
theorem exists_exact_strippings (text : List Char) :
    ∃ ss : List Stripping, ss ≠ [] ∧ List.intercalate ['\n'] (ss.map Stripping.piece) = text ∧
      (∀ s ∈ ss, s.Exact) ∧ (stripModifiers text).value = ss.map Stripping.line ∧
      (stripModifiers text).events = ss.flatMap Stripping.warnings ∧
      ∀ w, (Event.unknownModifier w).level = .warn ∧
        (Event.unknownModifier w).message = "Unknow modifier : " ++ w := by
  refine ⟨(splitOnChar '\n' text).map strippingOf, ?_, ?_, ?_, ?_, ?_, fun w => ⟨rfl, rfl⟩⟩
  · exact fun h => splitOnChar_ne_nil _ _ (List.map_eq_nil_iff.mp h)
  · rw [List.map_map]
    exact (congrArg _ (List.map_id _)).trans (intercalate_splitOnChar '\n' text)
  · intro s hs
    obtain ⟨piece, hpiece, rfl⟩ := List.mem_map.mp hs
    exact exact_strippingOf (not_mem_of_mem_splitOnChar hpiece)
  · rw [value_stripModifiers, List.map_map]
    rfl
  · rw [stripModifiers, Traced.events_mapM, List.flatMap_map]
    exact congrArg (List.flatMap · _) (funext events_ofSegments)

/-- Braces around what is taken out make no word afterwards. -/
example : strippedLine "\x7bab\x7bstatic\x7dc\x7d int".toList =
    { text := "\x7babc\x7d int".toList, modifiers := { isStatic := true } } := by
  decide +kernel

end ClassModel
