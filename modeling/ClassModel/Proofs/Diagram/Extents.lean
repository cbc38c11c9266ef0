/-
How far a declaration reaches.

The body of a declaration is a stretch of text across lines: it begins behind the brace that
opens it, and it ends in front of the first closing brace at which only that one is still open.
Here the search for the body is compared with this description.  The depth behind a text is
counted without regard to order, one and the opening braces less the closing ones, so that the
description says nothing about how the search goes on from one line to the next.

The two meet at `openDepth`.  A text that leaves the body open has so many braces open behind
it, and none of its beginnings has less than one; a text that does not leave it open has a
beginning at which the body ends, and there is no earlier one.  So the counter of the search
never goes below zero, and a body that is not found is not there.

Joining the lines puts line feeds between them, which no count of braces sees.
-/
import ClassModel.Proofs.Diagram.Bodies
import ClassModel.Proofs.Diagram.Layout

namespace ClassModel

/-! ### Depth -/

/-- The braces that are open behind a text if one is open in front of it. -/
def depthBehind (s : List Char) : Int :=
  1 + s.count '\x7b' - s.count '\x7d'

@[simp]
theorem depthBehind_nil : depthBehind [] = 1 := by
  simp [depthBehind]

theorem depthBehind_cons (c : Char) (s : List Char) :
    depthBehind (c :: s) =
      depthBehind s + (if c = '\x7b' then 1 else 0) - (if c = '\x7d' then 1 else 0) := by
  simp only [depthBehind, List.count_cons, beq_iff_eq]
  split <;> split <;> omega

theorem depthBehind_closing (s : List Char) : depthBehind (s ++ ['\x7d']) = depthBehind s - 1 := by
  have hopen : List.count '\x7b' ['\x7d'] = 0 := rfl
  have hclose : List.count '\x7d' ['\x7d'] = 1 := rfl
  simp only [depthBehind, List.count_append, hopen, hclose]
  omega

/-- What is left open is what was opened and not closed. -/
theorem depthBehind_of_openDepth {inner depth : Nat} {s : List Char}
    (h : openDepth inner s = some depth) : inner + depthBehind s = depth + 1 := by
  induction s generalizing inner with
  | nil =>
      rw [openDepth_nil, Option.some.injEq] at h
      rw [depthBehind_nil, h]
  | cons c r ih =>
      rw [openDepth_cons] at h
      split at h
      · cases h
      · rename_i hend
        have hrest := ih h
        rw [depthBehind_cons]
        by_cases hopen : c = '\x7b'
        · have hclose : c ≠ '\x7d' := by rw [hopen]; decide
          rw [if_pos hopen] at hrest
          rw [if_pos hopen, if_neg hclose]
          omega
        · by_cases hclose : c = '\x7d'
          · have hinner : inner ≠ 0 := fun hzero => hend ⟨hclose, hzero⟩
            rw [if_neg hopen, if_pos hclose] at hrest
            rw [if_neg hopen, if_pos hclose]
            omega
          · rw [if_neg hopen, if_neg hclose] at hrest
            rw [if_neg hopen, if_neg hclose]
            omega

/-- A beginning of a text that leaves the body open leaves it open as well. -/
theorem exists_openDepth_of_prefix {inner depth : Nat} {q s : List Char}
    (h : openDepth inner s = some depth) (hq : q <+: s) : ∃ d, openDepth inner q = some d := by
  obtain ⟨t, rfl⟩ := hq
  rw [openDepth_append, Option.bind_eq_some_iff] at h
  obtain ⟨d, hd, -⟩ := h
  exact ⟨d, hd⟩

/-- **The counter never goes below zero**: while the body is open, at least one brace is. -/
theorem one_le_depthBehind {inner depth : Nat} {q s : List Char}
    (h : openDepth inner s = some depth) (hq : q <+: s) : 1 ≤ inner + depthBehind q := by
  obtain ⟨d, hd⟩ := exists_openDepth_of_prefix h hq
  have := depthBehind_of_openDepth hd
  omega

/-- A body ends behind a text that leaves nothing but the body open, at the brace that follows. -/
theorem scanBraces_eq_closed_iff {inner : Nat} {s before : List Char} :
    scanBraces inner s = .closed before ↔
      openDepth inner before = some 0 ∧ ∃ behind, s = before ++ '\x7d' :: behind := by
  constructor
  · intro h
    obtain ⟨behind, rfl⟩ := exists_of_scanBraces_eq_closed h
    refine ⟨?_, behind, rfl⟩
    induction before generalizing inner with
    | nil =>
        rw [List.nil_append, scanBraces_cons] at h
        split at h
        · rename_i hend
          rw [openDepth_nil, hend.2]
        · cases hs : scanBraces (if '\x7d' = '\x7b' then inner + 1
              else if '\x7d' = '\x7d' then inner - 1 else inner) behind with
          | closed b => rw [hs] at h; cases h
          | stillOpen d => rw [hs] at h; cases h
    | cons c r ih =>
        rw [List.cons_append, scanBraces_cons] at h
        rw [openDepth_cons]
        split at h
        · cases h
        · rename_i hend
          rw [if_neg hend]
          refine ih ?_
          cases hs : scanBraces (if c = '\x7b' then inner + 1 else if c = '\x7d' then inner - 1
              else inner) (r ++ '\x7d' :: behind) with
          | closed b => rw [hs] at h; cases h; rfl
          | stillOpen d => rw [hs] at h; cases h
  · rintro ⟨hopen, behind, rfl⟩
    rw [scanBraces_append (openDepth_eq_some_iff.mp hopen)]
    show (BraceScan.closed []).prepend before = .closed before
    rw [BraceScan.prepend, List.append_nil]

/-- A text that does not leave the body open has a beginning at which the body ends. -/
theorem openDepth_eq_none_iff {inner : Nat} {s : List Char} :
    openDepth inner s = none ↔
      ∃ before behind, s = before ++ '\x7d' :: behind ∧ openDepth inner before = some 0 := by
  constructor
  · intro h
    cases hs : scanBraces inner s with
    | closed before =>
        obtain ⟨hopen, behind, hcut⟩ := scanBraces_eq_closed_iff.mp hs
        exact ⟨before, behind, hcut, hopen⟩
    | stillOpen d =>
        rw [openDepth, hs] at h
        cases h
  · rintro ⟨before, behind, hcut, hopen⟩
    rw [openDepth, scanBraces_eq_closed_iff.mpr ⟨hopen, behind, hcut⟩]

/-- The body that a text begins with ends at a brace, the first one that closes it. -/
structure EndsAt (s before : List Char) : Prop where
  closing : before ++ ['\x7d'] <+: s
  depth : depthBehind before = 1
  first : ∀ q, q ++ ['\x7d'] <+: s → depthBehind q = 1 → before.length ≤ q.length

/-- Counting braces in order finds the first brace that closes the body. -/
theorem endsAt_iff {s before : List Char} :
    EndsAt s before ↔ openDepth 0 before = some 0 ∧ before ++ ['\x7d'] <+: s := by
  constructor
  · intro h
    refine ⟨?_, h.closing⟩
    cases hopen : openDepth 0 before with
    | none =>
        obtain ⟨b, behind, rfl, hb⟩ := openDepth_eq_none_iff.mp hopen
        have hdepth := depthBehind_of_openDepth hb
        have hprefix : b ++ ['\x7d'] <+: s := by
          refine List.IsPrefix.trans ⟨behind ++ ['\x7d'], ?_⟩ h.closing
          simp
        have hfirst := h.first b hprefix (by omega)
        simp only [List.length_append, List.length_cons] at hfirst
        omega
    | some d =>
        have hdepth := depthBehind_of_openDepth hopen
        have hone := h.depth
        rw [show d = 0 by omega]
  · rintro ⟨hopen, hclosing⟩
    have hdepth := depthBehind_of_openDepth hopen
    refine ⟨hclosing, by omega, fun q hq hone => ?_⟩
    rcases Nat.lt_or_ge q.length before.length with hlt | hle
    · -- An earlier end would be a beginning with nothing left open.
      have hprefix : q ++ ['\x7d'] <+: before := by
        refine List.prefix_of_prefix_length_le hq ((List.prefix_append _ _).trans hclosing) ?_
        simpa [Nat.succ_le_iff] using hlt
      have hpos := one_le_depthBehind hopen hprefix
      rw [depthBehind_closing] at hpos
      omega
    · exact hle

theorem EndsAt.one_le {s before q : List Char} (h : EndsAt s before) (hq : q <+: before) :
    1 ≤ depthBehind q := by
  have := one_le_depthBehind (endsAt_iff.mp h).1 hq
  omega

/-! ### Gathering lines -/

theorem openDepth_lineFeed (inner : Nat) (s : List Char) :
    openDepth inner ('\n' :: s) = openDepth inner s := by
  have hne : ¬('\n' = '\x7d' ∧ inner = 0) := fun h => absurd h.1 (by decide)
  rw [openDepth_cons, if_neg hne, if_neg (by decide), if_neg (by decide)]

/-- The text of lines. -/
def textOfLines (ls : List Line) : List Char :=
  joinLines (ls.map Line.text)

theorem textOfLines_singleton (l : Line) : textOfLines [l] = l.text := by
  simp [textOfLines, joinLines]

theorem textOfLines_cons {ls : List Line} (h : ls ≠ []) (l : Line) :
    textOfLines (l :: ls) = l.text ++ '\n' :: textOfLines ls := by
  rw [textOfLines, List.map_cons, joinLines_cons (by simpa using h)]
  rfl

theorem braces_textOfLines (ls : List Line) :
    braces (textOfLines ls) = braces (ls.flatMap Line.text) := by
  induction ls with
  | nil => rfl
  | cons l ls ih =>
      cases ls with
      | nil => simp [textOfLines_singleton]
      | cons k ks =>
          rw [textOfLines_cons (List.cons_ne_nil _ _), List.flatMap_cons, braces_append,
            braces_append, braces_cons_of_not rfl, ih]

/-- The line feeds between lines open and close nothing. -/
theorem openDepth_textOfLines (ls : List Line) (inner : Nat) :
    openDepth inner (textOfLines ls) = openDepth inner (ls.flatMap Line.text) :=
  openDepth_congr (braces_textOfLines ls) inner

/-- Lines up to one that is cut in front of a closing brace. -/
structure Cut (ls : List Line) (body after : List Line) (front : List Line) (closing : Line)
    (last behind : List Char) : Prop where
  lines : ls = front ++ closing :: after
  text : closing.text = last ++ '\x7d' :: behind
  body : body = front ++ [{ closing with text := last }]

/-- A line that closes the body is the only one of it. -/
theorem cut_of_closed {inner : Nat} {line : Line} {before : List Char}
    (h : scanBraces inner line.text = .closed before) (rest : List Line) :
    (∃ front closing last behind,
      Cut (line :: rest) [{ line with text := before }] rest front closing last behind) ∧
      openDepth inner (textOfLines [{ line with text := before }]) = some 0 := by
  obtain ⟨hopen, behind, htext⟩ := scanBraces_eq_closed_iff.mp h
  rw [textOfLines_singleton]
  exact ⟨⟨[], line, before, behind, rfl, htext, rfl⟩, hopen⟩

/-- What is gathered are the lines up to the one that closes the body. -/
theorem cut_of_gatherBody {inner : Nat} {line : Line} {rest body after : List Line}
    (h : gatherBody inner line rest = some (body, after)) :
    (∃ front closing last behind, Cut (line :: rest) body after front closing last behind) ∧
      openDepth inner (textOfLines body) = some 0 := by
  induction rest generalizing inner line body with
  | nil =>
      cases hs : scanBraces inner line.text with
      | closed before =>
          rw [gatherBody_of_closed hs] at h
          cases h
          exact cut_of_closed hs []
      | stillOpen depth =>
          rw [gatherBody, hs] at h
          cases h
  | cons next rest ih =>
      cases hs : scanBraces inner line.text with
      | closed before =>
          rw [gatherBody_of_closed hs] at h
          cases h
          exact cut_of_closed hs _
      | stillOpen depth =>
          rw [gatherBody_of_stillOpen hs, Option.map_eq_some_iff] at h
          obtain ⟨⟨body', after'⟩, hgather, he⟩ := h
          cases he
          obtain ⟨⟨front, closing, last, behind, hlines, htext, rfl⟩, hbody⟩ := ih hgather
          refine ⟨⟨line :: front, closing, last, behind, by rw [hlines]; rfl, htext, rfl⟩, ?_⟩
          rw [textOfLines_cons (by simp), openDepth_append, openDepth_eq_some_iff.mpr hs]
          exact (openDepth_lineFeed depth _).trans hbody

/-- Lines up to a brace that closes the body are gathered. -/
theorem gatherBody_of_cut {inner : Nat} {line : Line}
    {rest body after front : List Line} {closing : Line} {last behind : List Char}
    (hcut : Cut (line :: rest) body after front closing last behind)
    (hbody : openDepth inner (textOfLines body) = some 0) :
    gatherBody inner line rest = some (body, after) := by
  obtain ⟨hlines, htext, rfl⟩ := hcut
  induction front generalizing inner line rest with
  | nil =>
      obtain ⟨rfl, rfl⟩ := List.cons.inj hlines
      rw [List.nil_append, textOfLines_singleton] at hbody
      exact gatherBody_of_closed (scanBraces_eq_closed_iff.mpr ⟨hbody, behind, htext⟩) rest
  | cons f front ih =>
      obtain ⟨rfl, rfl⟩ := List.cons.inj hlines
      rw [List.cons_append, textOfLines_cons (by simp), openDepth_append,
        Option.bind_eq_some_iff] at hbody
      obtain ⟨depth, hline, hrest⟩ := hbody
      rw [openDepth_lineFeed] at hrest
      cases hcons : front ++ closing :: after with
      | nil => simp at hcons
      | cons next ls =>
          show gatherBody inner line (front ++ closing :: after) = _
          rw [hcons, gatherBody_of_stillOpen (openDepth_eq_some_iff.mp hline),
            ih hcons.symm hrest]
          rfl

/-- **The lines of a body end where the braces of their text are balanced.** -/
theorem gatherBody_eq_some_iff {inner : Nat} {line : Line} {rest body after : List Line} :
    gatherBody inner line rest = some (body, after) ↔
      (∃ front closing last behind, Cut (line :: rest) body after front closing last behind) ∧
        openDepth inner (textOfLines body) = some 0 := by
  constructor
  · exact cut_of_gatherBody
  · rintro ⟨⟨_, _, _, _, hcut⟩, hbody⟩
    exact gatherBody_of_cut hcut hbody

/-- **A body is not found exactly if all the lines there are leave it open.** -/
theorem gatherBody_eq_none_iff {inner : Nat} {line : Line} {rest : List Line} :
    gatherBody inner line rest = none ↔
      ∃ d, openDepth inner (textOfLines (line :: rest)) = some d := by
  induction rest generalizing inner line with
  | nil =>
      rw [textOfLines_singleton]
      cases hs : scanBraces inner line.text with
      | closed before => simp [gatherBody, openDepth, hs]
      | stillOpen depth => simp [gatherBody, openDepth, hs]
  | cons next rest ih =>
      rw [textOfLines_cons (List.cons_ne_nil _ _), openDepth_append]
      cases hs : scanBraces inner line.text with
      | closed before => simp [gatherBody, openDepth, hs]
      | stillOpen depth =>
          rw [gatherBody_of_stillOpen hs, Option.map_eq_none_iff, ih,
            openDepth_eq_some_iff.mpr hs, Option.bind_some, openDepth_lineFeed]

/-- The text of a body and the brace behind it begin the text of the lines it is cut from. -/
theorem Cut.prefix {ls body after front : List Line} {closing : Line} {last behind : List Char}
    (h : Cut ls body after front closing last behind) :
    textOfLines body ++ ['\x7d'] <+: textOfLines ls := by
  obtain ⟨rfl, htext, rfl⟩ := h
  induction front with
  | nil =>
      have hline : last ++ ['\x7d'] <+: closing.text := ⟨behind, by rw [htext]; simp⟩
      rw [List.nil_append, List.nil_append, textOfLines_singleton]
      cases after with
      | nil => rwa [textOfLines_singleton]
      | cons next after =>
          rw [textOfLines_cons (List.cons_ne_nil _ _)]
          exact hline.trans (List.prefix_append _ _)
  | cons f front ih =>
      rw [List.cons_append, List.cons_append, textOfLines_cons (by simp), textOfLines_cons (by simp),
        List.append_assoc, List.cons_append]
      exact (List.prefix_append_right_inj _).mpr ((List.cons_prefix_cons).mpr ⟨rfl, ih⟩)

/-! ### Openings -/

/-- The body of the declaration on line `i` opens on line `j` with a text behind the brace: on
the header line itself, if the header says so, and else at the start of the next line that is not
blank. -/
inductive OpensAt (lines : List Line) (i : Nat) : Option (List Char) → Nat → List Char → Prop where
  | header (text : List Char) : OpensAt lines i (some text) i text
  | below {j : Nat} {line : Line} {gap text : List Char} (lt : i < j)
      (at_index : lines[j]? = some line)
      (blank : ∀ k, i < k → k < j → ∀ l ∈ lines[k]?, isBlankText l.text = true)
      (gap_blank : isBlankText gap = true) (starts : line.text = gap ++ '\x7b' :: text) :
      OpensAt lines i none j text

/-- The lines from the opening one on, which is cut behind the brace. -/
def openLines (lines : List Line) (j : Nat) (text : List Char) : List Line :=
  match lines.drop j with
  | [] => []
  | line :: rest => { line with text } :: rest

theorem openLines_of_drop {lines rest : List Line} {j : Nat} {line : Line}
    (h : lines.drop j = line :: rest) (text : List Char) :
    openLines lines j text = { line with text } :: rest := by
  rw [openLines, h]

/-- A body opens below its header at the start of the first line that is not blank. -/
theorem openingLine?_eq_some_iff {ls after : List Line} {first : Line} :
    openingLine? ls = some (first, after) ↔
      ∃ blank line gap text, ls = blank ++ line :: after ∧
        (∀ l ∈ blank, isBlankText l.text = true) ∧ isBlankText gap = true ∧
        line.text = gap ++ '\x7b' :: text ∧ first = { line with text } := by
  induction ls with
  | nil => simp [openingLine?]
  | cons l rest ih =>
      by_cases hl : isBlankText l.text = true
      · rw [openingLine?, if_pos hl, ih]
        constructor
        · rintro ⟨blank, line, gap, text, rfl, hblank, h⟩
          refine ⟨l :: blank, line, gap, text, rfl, ?_, h⟩
          simpa [hl] using hblank
        · rintro ⟨blank, line, gap, text, hlines, hblank, hgap, htext, hfirst⟩
          cases blank with
          | nil =>
              -- The brace of the opening line is not blank.
              obtain ⟨rfl, -⟩ := List.cons.inj hlines
              rw [htext, isBlankText, List.all_append, List.all_cons] at hl
              simp [show isBlank '\x7b' = false from rfl] at hl
          | cons b blank =>
              obtain ⟨rfl, rfl⟩ := List.cons.inj hlines
              exact ⟨blank, line, gap, text, rfl, fun x hx => hblank x (by simp [hx]), hgap, htext,
                hfirst⟩
      · rw [openingLine?, if_neg hl]
        constructor
        · intro h
          split at h
          · rename_i r htrim
            cases h
            refine ⟨[], l, l.text.takeWhile isBlank, r, rfl, by simp, ?_, ?_, rfl⟩
            · exact List.all_takeWhile
            · rw [← htrim]
              exact List.takeWhile_append_dropWhile.symm
          · cases h
        · rintro ⟨blank, line, gap, text, hlines, hblank, hgap, htext, rfl⟩
          cases blank with
          | nil =>
              obtain ⟨rfl, rfl⟩ := List.cons.inj hlines
              have htrim : trimStart l.text = '\x7b' :: text := by
                rw [htext, trimStart]
                exact dropWhile_append_of_stops (List.all_eq_true.mp hgap) (stops_cons.mpr rfl)
              rw [htrim]
              rfl
          | cons b blank =>
              obtain ⟨rfl, -⟩ := List.cons.inj hlines
              exact absurd (hblank l (by simp)) hl

/-- The search for the opening line comes to the line on which the body opens. -/
theorem openingLine?_eq_some_iff_opensAt {lines after : List Line} {first : Line} {i : Nat} :
    openingLine? (lines.drop (i + 1)) = some (first, after) ↔
      ∃ j text, OpensAt lines i none j text ∧ openLines lines j text = first :: after := by
  rw [openingLine?_eq_some_iff]
  constructor
  · rintro ⟨blank, line, gap, text, hlines, hblank, hgap, htext, rfl⟩
    have hdrop : lines.drop (i + 1 + blank.length) = line :: after := by
      rw [← List.drop_drop, hlines, List.drop_left]
    refine ⟨i + 1 + blank.length, text, .below (by omega) ?_ ?_ hgap htext,
      openLines_of_drop hdrop text⟩
    · have hhead := congrArg List.head? hdrop
      rwa [List.head?_drop] at hhead
    · intro k hik hkj l hl
      obtain ⟨m, rfl⟩ := Nat.exists_eq_add_of_le hik
      have hm : (lines.drop (i + 1))[m]? = some l := by
        rw [List.getElem?_drop]
        exact hl
      rw [hlines, List.getElem?_append_left (by omega)] at hm
      exact hblank l (List.mem_of_getElem? hm)
  · rintro ⟨j, text, hopens, hlines⟩
    cases hopens with
    | @below _ line gap _ hlt hline hblank hgap htext =>
        obtain ⟨n, rfl⟩ := Nat.exists_eq_add_of_le hlt
        have hdrop : lines.drop (i + 1 + n) = line :: lines.drop (i + 1 + n + 1) := by
          obtain ⟨hj, hget⟩ := List.getElem?_eq_some_iff.mp hline
          rw [List.drop_eq_getElem_cons hj, hget]
        rw [openLines_of_drop hdrop] at hlines
        obtain ⟨rfl, rfl⟩ := List.cons.inj hlines
        refine ⟨(lines.drop (i + 1)).take n, line, gap, text, ?_, ?_, hgap, htext, rfl⟩
        · have hrest := List.take_append_drop n (lines.drop (i + 1))
          rw [List.drop_drop, hdrop] at hrest
          exact hrest.symm
        · intro l hl
          obtain ⟨k, hk, hget⟩ := List.mem_take_iff_getElem.mp hl
          have hsome := List.getElem?_eq_some_iff.mpr ⟨_, hget⟩
          rw [List.getElem?_drop] at hsome
          exact hblank (i + 1 + k) (by omega) (by omega) l hsome

/-- **The body of a declaration is gathered from the line on which it opens.** -/
theorem collectBody_eq_some_iff {lines : List Line} {i : Nat} {header : Line}
    {following : List Line} (hi : lines.drop i = header :: following) {rest : Option (List Char)}
    {x : List Line × List Line} :
    collectBody header rest following = some x ↔
      ∃ j text first after, OpensAt lines i rest j text ∧ openLines lines j text = first :: after ∧
        gatherBody 0 first after = some x := by
  cases rest with
  | some text =>
      rw [collectBody]
      constructor
      · intro h
        exact ⟨i, text, _, _, .header text, openLines_of_drop hi text, h⟩
      · rintro ⟨j, t, first, after, hopens, hlines, h⟩
        cases hopens
        rw [openLines_of_drop hi] at hlines
        obtain ⟨rfl, rfl⟩ := List.cons.inj hlines
        exact h
  | none =>
      have hfollowing : lines.drop (i + 1) = following := by
        rw [← List.drop_drop, hi, List.drop_succ_cons, List.drop_zero]
      rw [collectBody, ← hfollowing, Option.bind_eq_bind, Option.bind_eq_some_iff]
      constructor
      · rintro ⟨⟨first, after⟩, hopen, h⟩
        obtain ⟨j, text, hopens, hlines⟩ := openingLine?_eq_some_iff_opensAt.mp hopen
        exact ⟨j, text, first, after, hopens, hlines, h⟩
      · rintro ⟨j, text, first, after, hopens, hlines, h⟩
        exact ⟨(first, after), openingLine?_eq_some_iff_opensAt.mpr ⟨j, text, hopens, hlines⟩, h⟩

/-! ### Bodies -/

/-- The body that opens on line `j`, behind whose brace there is a text, ends on line `last`. -/
structure IsBody (lines : List Line) (j : Nat) (text : List Char) (last : Nat) (body : List Line) :
    Prop where
  le_last : j ≤ last
  last_lt : last < lines.length
  /-- It is made of the lines from the opening one up to a closing brace on line `last`. -/
  cut : ∃ front closing u v,
    Cut (openLines lines j text) body (lines.drop (last + 1)) front closing u v
  /-- Each of its lines has the modifiers of the line it comes from. -/
  modifiers : body.map Line.modifiers =
    ((lines.drop j).take (last + 1 - j)).map Line.modifiers
  /-- Its text is the text up to the first brace that closes it. -/
  ends : EndsAt (textOfLines (openLines lines j text)) (textOfLines body)
  /-- All along its text there is a brace open. -/
  open_within : ∀ q, q <+: textOfLines body → 1 ≤ depthBehind q

theorem map_modifiers_openLines (lines : List Line) (j : Nat) (text : List Char) :
    (openLines lines j text).map Line.modifiers = (lines.drop j).map Line.modifiers := by
  rw [openLines]
  cases lines.drop j <;> rfl

theorem length_openLines (lines : List Line) (j : Nat) (text : List Char) :
    (openLines lines j text).length = lines.length - j := by
  have h := congrArg List.length (map_modifiers_openLines lines j text)
  simpa using h

theorem drop_openLines (lines : List Line) (j : Nat) (text : List Char) (k : Nat) :
    (openLines lines j text).drop (k + 1) = lines.drop (j + k + 1) := by
  have hdrop : lines.drop (j + k + 1) = (lines.drop j).drop (k + 1) := by
    rw [List.drop_drop, Nat.add_assoc]
  rw [openLines, hdrop]
  cases lines.drop j with
  | nil => rfl
  | cons line rest => rfl

/-- What is gathered from the opening line on is the body. -/
theorem gatherBody_openLines_iff {lines rest body after : List Line} {j : Nat} {text : List Char}
    {first : Line} (hlines : openLines lines j text = first :: rest) :
    gatherBody 0 first rest = some (body, after) ↔
      ∃ last, IsBody lines j text last body ∧ after = lines.drop (last + 1) := by
  rw [gatherBody_eq_some_iff, ← hlines]
  constructor
  · rintro ⟨⟨front, closing, u, v, hcut⟩, hopen⟩
    have hlength := length_openLines lines j text
    have hmodifiers := map_modifiers_openLines lines j text
    rw [hcut.lines] at hlength hmodifiers
    simp only [List.length_append, List.length_cons] at hlength
    obtain rfl : lines.drop (j + front.length + 1) = after := by
      rw [← drop_openLines lines j text, hcut.lines, List.drop_append,
        List.drop_of_length_le (by omega)]
      simp
    have hends := endsAt_iff.mpr ⟨hopen, hcut.prefix⟩
    refine ⟨j + front.length, ⟨by omega, by omega, ⟨front, closing, u, v, hcut⟩, ?_, hends,
      fun q => hends.one_le⟩, rfl⟩
    rw [hcut.body, show j + front.length + 1 - j = front.length + 1 by omega, List.map_take,
      ← hmodifiers]
    simp [List.take_append, List.take_of_length_le]
  · rintro ⟨last, hbody, rfl⟩
    exact ⟨hbody.cut, (endsAt_iff.mp hbody.ends).1⟩

/-! ### The body of a declaration -/

section Declarations

variable {lines following body after : List Line} {header : Line} {i : Nat}
  {rest : Option (List Char)}

theorem OpensAt.le {j : Nat} {text : List Char} (h : OpensAt lines i rest j text) : i ≤ j := by
  cases h with
  | header => exact Nat.le_refl i
  | below hlt => exact Nat.le_of_lt hlt

/-- **What is collected is the body that opens behind the header.** -/
theorem collectBody_iff_isBody (hi : lines.drop i = header :: following) :
    collectBody header rest following = some (body, after) ↔
      ∃ j text last, OpensAt lines i rest j text ∧ IsBody lines j text last body ∧
        i ≤ last ∧ after = lines.drop (last + 1) := by
  rw [collectBody_eq_some_iff hi]
  constructor
  · rintro ⟨j, text, first, more, hopens, hlines, hgather⟩
    obtain ⟨last, hbody, rfl⟩ := (gatherBody_openLines_iff hlines).mp hgather
    exact ⟨j, text, last, hopens, hbody, Nat.le_trans hopens.le hbody.le_last, rfl⟩
  · rintro ⟨j, text, last, hopens, hbody, -, rfl⟩
    cases hlines : openLines lines j text with
    | nil =>
        obtain ⟨front, closing, u, v, hcut⟩ := hbody.cut
        have hnil := hcut.lines
        rw [hlines] at hnil
        simp at hnil
    | cons first more =>
        exact ⟨j, text, first, more, hopens, hlines,
          (gatherBody_openLines_iff hlines).mpr ⟨last, hbody, rfl⟩⟩

/-- A body that is not found stays open to the end. -/
theorem one_le_of_collectBody_eq_none (hi : lines.drop i = header :: following)
    (h : collectBody header rest following = none) {j : Nat} {text : List Char}
    (hopens : OpensAt lines i rest j text) {q : List Char}
    (hq : q <+: textOfLines (openLines lines j text)) : 1 ≤ depthBehind q := by
  cases hlines : openLines lines j text with
  | nil =>
      rw [hlines] at hq
      simp [List.prefix_nil.mp hq]
  | cons first more =>
      cases hgather : gatherBody 0 first more with
      | none =>
          obtain ⟨d, hd⟩ := gatherBody_eq_none_iff.mp hgather
          rw [hlines] at hq
          have := one_le_depthBehind hd hq
          omega
      | some x =>
          have hsome :=
            (collectBody_eq_some_iff hi).mpr ⟨j, text, first, more, hopens, hlines, hgather⟩
          rw [h] at hsome
          cases hsome

/-- **A body is collected exactly if it opens and some brace closes it.** -/
theorem isSome_collectBody_iff (hi : lines.drop i = header :: following) :
    (collectBody header rest following).isSome = true ↔
      ∃ j text before, OpensAt lines i rest j text ∧
        before ++ ['\x7d'] <+: textOfLines (openLines lines j text) ∧ depthBehind before = 1 := by
  constructor
  · intro h
    obtain ⟨⟨body, after⟩, hsome⟩ := Option.isSome_iff_exists.mp h
    obtain ⟨j, text, last, hopens, hbody, -⟩ := (collectBody_iff_isBody hi).mp hsome
    exact ⟨j, text, _, hopens, hbody.ends.closing, hbody.ends.depth⟩
  · rintro ⟨j, text, before, hopens, hclosing, hdepth⟩
    cases h : collectBody header rest following with
    | some x => rfl
    | none =>
        have hpos := one_le_of_collectBody_eq_none hi h hopens hclosing
        rw [depthBehind_closing] at hpos
        omega

end Declarations

end ClassModel
