/-
Lines and columns as an order of offsets.

The text in front of an offset is cut behind its last line feed.  The line counts the line feeds
before the cut and the column counts the characters behind it, so the way back is to skip as many
lines and then as many characters.  Offsets up to the end of a text and their places are therefore
the same thing, and the places are ordered as the offsets are: a character moves its place one
column to the right or to the beginning of the next line.
-/
import ClassModel.Source.Position
import ClassModel.Text.Bytes
import ClassModel.Proofs.Diagram.Layout

namespace ClassModel.Source

namespace Position

variable {s : List Char} {c : Char} {p q : Position}

/-! ### Places behind texts -/

theorem line_foldl_step (s : List Char) (p : Position) :
    (s.foldl step p).line = p.line + s.count '\n' := by
  induction s generalizing p with
  | nil => rfl
  | cons c r ih =>
      rw [List.foldl_cons, ih, step, List.count_cons]
      by_cases hc : c = '\n'
      · rw [if_pos hc, if_pos (beq_iff_eq.mpr hc)]
        exact Nat.add_right_comm _ _ _
      · rw [if_neg hc, if_neg (mt beq_iff_eq.mp hc)]
        rfl

theorem foldl_step_of_not_mem (h : '\n' ∉ s) (p : Position) :
    s.foldl step p = ⟨p.line, p.column + s.length⟩ := by
  induction s generalizing p with
  | nil => rfl
  | cons c r ih =>
      rw [List.mem_cons, not_or] at h
      rw [List.foldl_cons, step, if_neg (Ne.symm h.1), ih h.2, List.length_cons]
      rw [Nat.add_right_comm, Nat.add_assoc]

/-- A text that is empty or ends with a line feed: what stands behind it begins a line. -/
def EndsLine (s : List Char) : Prop :=
  s = [] ∨ ∃ r, s = r ++ ['\n']

/-- Every text is cut behind its last line feed. -/
theorem exists_endsLine (s : List Char) :
    ∃ front last, s = front ++ last ∧ EndsLine front ∧ '\n' ∉ last := by
  induction s with
  | nil => exact ⟨[], [], rfl, Or.inl rfl, List.not_mem_nil⟩
  | cons c r ih =>
      obtain ⟨front, last, rfl, rfl | ⟨t, rfl⟩, hlast⟩ := ih
      · by_cases hc : c = '\n'
        · subst hc
          exact ⟨['\n'], last, rfl, Or.inr ⟨[], rfl⟩, hlast⟩
        · exact ⟨[], c :: last, rfl, Or.inl rfl,
            List.not_mem_cons_of_ne_of_not_mem (Ne.symm hc) hlast⟩
      · exact ⟨c :: (t ++ ['\n']), last, rfl, Or.inr ⟨c :: t, rfl⟩, hlast⟩

/-- The line counts the line feeds in front, and the column what stands behind the last one. -/
theorem after_append {front last : List Char} (hfront : EndsLine front) (hlast : '\n' ∉ last) :
    after (front ++ last) = ⟨front.count '\n' + 1, last.length + 1⟩ := by
  have hstart : front.foldl step start = ⟨front.count '\n' + 1, 1⟩ := by
    rcases hfront with rfl | ⟨r, rfl⟩
    · rfl
    · rw [List.foldl_append, List.foldl_cons, List.foldl_nil, step, if_pos rfl, line_foldl_step,
        List.count_append, Nat.add_comm start.line]
      rfl
  rw [after, List.foldl_append, hstart, foldl_step_of_not_mem hlast, Nat.add_comm 1]

/-- The text in front of an offset with its last line feed, and the place that comes of it. -/
theorem exists_line (s : List Char) (o : Nat) :
    ∃ front last, s.take o = front ++ last ∧ s = front ++ (last ++ s.drop o) ∧ EndsLine front ∧
      '\n' ∉ last ∧ ofOffset s o = ⟨front.count '\n' + 1, last.length + 1⟩ := by
  obtain ⟨front, last, hcut, hfront, hlast⟩ := exists_endsLine (s.take o)
  refine ⟨front, last, hcut, ?_, hfront, hlast, ?_⟩
  · rw [← List.append_assoc, ← hcut, List.take_append_drop]
  · rw [ofOffset, hcut, after_append hfront hlast]

/-! ### The way back -/

theorem lineOffset_append {front : List Char} (h : EndsLine front) (t : List Char) :
    lineOffset (front ++ t) (front.count '\n') = front.length := by
  rcases h with rfl | ⟨r, rfl⟩
  · rw [List.count_nil, lineOffset]
    rfl
  · rw [List.count_append, List.length_append, List.append_assoc]
    show lineOffset (r ++ '\n' :: t) (r.count '\n' + 1) = r.length + 1
    induction r with
    | nil =>
        rw [List.count_nil, List.nil_append, lineOffset, if_pos rfl, lineOffset]
        rfl
    | cons c r ih =>
        rw [List.count_cons, List.cons_append, lineOffset, List.length_cons]
        by_cases hc : c = '\n'
        · rw [if_pos (beq_iff_eq.mpr hc), if_pos hc, ih, Nat.add_comm]
        · rw [if_neg (mt beq_iff_eq.mp hc), if_neg hc, Nat.add_zero, ih, Nat.add_comm]

/-- **From the place of an offset one comes back to the offset**, by skipping the lines in front
of it and then its columns. -/
theorem offset_ofOffset {o : Nat} (h : o ≤ s.length) : offset s (ofOffset s o) = o := by
  obtain ⟨front, last, hcut, hs, hfront, -, hplace⟩ := exists_line s o
  have hlength : front.length + last.length = o := by
    rw [← List.length_append, ← hcut, List.length_take_of_le h]
  have hskip := lineOffset_append hfront (last ++ s.drop o)
  rw [← hs] at hskip
  rw [hplace, offset, Nat.add_sub_cancel, Nat.add_sub_cancel, hskip, hlength]

/-! ### The order of places -/

/-- A place stands in front of another one: on an earlier line, or on the same line in an earlier
column. -/
def Before (p q : Position) : Prop :=
  p.line < q.line ∨ p.line = q.line ∧ p.column < q.column

instance (p q : Position) : Decidable (Before p q) :=
  inferInstanceAs (Decidable (_ ∨ _))

theorem Before.trans {r : Position} (h : Before p q) (h' : Before q r) : Before p r := by
  unfold Before at *
  omega

theorem before_step (p : Position) (c : Char) : Before p (p.step c) := by
  unfold Before step
  split
  · exact Or.inl (Nat.lt_succ_self _)
  · exact Or.inr ⟨rfl, Nat.lt_succ_self _⟩

theorem before_foldl_step (hs : s ≠ []) (p : Position) : Before p (s.foldl step p) := by
  induction s generalizing p with
  | nil => exact absurd rfl hs
  | cons c r ih =>
      rw [List.foldl_cons]
      by_cases hr : r = []
      · rw [hr]
        exact before_step p c
      · exact (before_step p c).trans (ih hr _)

/-- **Places are ordered as their offsets are.** -/
theorem before_ofOffset {o o' : Nat} (h : o < o') (h' : o' ≤ s.length) :
    Before (ofOffset s o) (ofOffset s o') := by
  have htake : s.take o' = s.take o ++ (s.drop o).take (o' - o) := by
    rw [← List.take_add, Nat.add_sub_cancel' (Nat.le_of_lt h)]
  have hne : (s.drop o).take (o' - o) ≠ [] := by
    refine List.ne_nil_of_length_pos ?_
    rw [List.length_take, List.length_drop]
    omega
  rw [ofOffset, ofOffset, htake, after, after, List.foldl_append]
  exact before_foldl_step hne _

/-! ### Places inside a text -/

/-- The place lies in a text: on one of its lines, and at most behind the last character of that
line. -/
structure Within (s : List Char) (p : Position) : Prop where
  line_pos : 1 ≤ p.line
  line_le : p.line ≤ s.count '\n' + 1
  column_pos : 1 ≤ p.column
  column_le : ∃ l, (splitOnChar '\n' s)[p.line - 1]? = some l ∧ p.column ≤ l.length + 1

theorem length_splitOnChar (c : Char) (s : List Char) :
    (splitOnChar c s).length = s.count c + 1 := by
  induction s with
  | nil => rfl
  | cons d r ih =>
      rw [splitOnChar, List.count_cons]
      by_cases hd : d = c
      · rw [if_pos hd, if_pos (beq_iff_eq.mpr hd), List.length_cons, ih]
      · rw [if_neg hd, if_neg (mt beq_iff_eq.mp hd), Nat.add_zero, ← ih]
        cases hr : splitOnChar c r with
        | nil => exact absurd hr (splitOnChar_ne_nil c r)
        | cons p ps => rfl

/-- A text without line feeds begins the first line of what it stands in front of. -/
theorem exists_splitOnChar_append {last : List Char} (h : '\n' ∉ last) (t : List Char) :
    ∃ l ls, splitOnChar '\n' (last ++ t) = (last ++ l) :: ls := by
  induction last with
  | nil =>
      obtain ⟨l, ls, hl⟩ := List.exists_cons_of_ne_nil (splitOnChar_ne_nil '\n' t)
      exact ⟨l, ls, hl⟩
  | cons c r ih =>
      rw [List.mem_cons, not_or] at h
      obtain ⟨l, ls, hl⟩ := ih h.2
      refine ⟨l, ls, ?_⟩
      rw [List.cons_append, splitOnChar, if_neg (Ne.symm h.1), hl]
      rfl

/-- The line behind a text that ends one. -/
theorem getElem?_splitOnChar_append {front : List Char} (h : EndsLine front) (t : List Char) :
    (splitOnChar '\n' (front ++ t))[front.count '\n']? = (splitOnChar '\n' t)[0]? := by
  rcases h with rfl | ⟨r, rfl⟩
  · rfl
  · have hcount : (r ++ ['\n']).count '\n' = (splitOnChar '\n' r).length := by
      rw [length_splitOnChar, List.count_append]
      rfl
    rw [hcount, List.append_assoc, List.singleton_append, splitOnChar_append_cons,
      List.getElem?_append_right (Nat.le_refl _), Nat.sub_self]

/-- The place of an offset lies in the text. -/
theorem within_ofOffset (s : List Char) (o : Nat) : Within s (ofOffset s o) := by
  obtain ⟨front, last, -, hs, hfront, hlast, hplace⟩ := exists_line s o
  obtain ⟨l, ls, hl⟩ := exists_splitOnChar_append hlast (s.drop o)
  have hline : (splitOnChar '\n' s)[front.count '\n']? = some (last ++ l) := by
    have h := getElem?_splitOnChar_append hfront (last ++ s.drop o)
    rwa [← hs, hl] at h
  rw [hplace]
  refine ⟨Nat.succ_pos _, Nat.succ_le_succ ?_, Nat.succ_pos _, last ++ l, hline, ?_⟩
  · rw [hs, List.count_append]
    exact Nat.le_add_right _ _
  · rw [List.length_append]
    exact Nat.succ_le_succ (Nat.le_add_right _ _)

/-! ### Offsets in bytes -/

/-- The place of an offset that counts bytes. -/
def ofByteOffset (s : List Char) (bytes : Nat) : Position :=
  after (takeBytes bytes s)

/-- Between two characters it makes no difference what is counted. -/
theorem ofByteOffset_byteCount (s : List Char) (o : Nat) :
    ofByteOffset s (byteCount (s.take o)) = ofOffset s o := by
  have htake := takeBytes_byteCount (s.take o) (s.drop o)
  rw [List.take_append_drop] at htake
  rw [ofByteOffset, htake, ofOffset]

end Position

end ClassModel.Source
