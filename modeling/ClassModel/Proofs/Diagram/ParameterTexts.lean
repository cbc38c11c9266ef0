/-
Texts that list parameters.

A text is cut at the commas outside all brackets, and how deep inside brackets a place lies
is a count from the left: opening brackets of both kinds count up, closing ones count down,
and nothing counts below zero.  `CutAtOuterCommas` says what the pieces of a text are in
terms of that count alone, without following the reader through the text.  The texts need
not be well bracketed for it.

The reader carries the depth along and begins again with zero behind a comma that cuts.  Both
counts agree, since a comma only cuts where the count is zero already.  So cutting the text
in front of such a comma and the text behind it gives the pieces of the whole text, and the
places between two pieces are exactly these commas.

A list of parameters is read back from a text if its types lead nowhere, which they do if
their square brackets match.  Each parameter may be written in either of two layouts.
-/
import ClassModel.Text.Split
import ClassModel.Proofs.Diagram.Parameters

namespace ClassModel

open LineParser

/-! ### The depth of a place -/

/-- The count behind a character: an opening bracket adds one to it and a closing bracket takes
one away, unless there is none to take. -/
def countBracket (count : Nat) (c : Char) : Nat :=
  count + "<[".toList.count c - ">]".toList.count c

/-- How many brackets are open behind a text, brackets of both kinds counted together. -/
def bracketDepth (s : List Char) : Nat :=
  s.foldl countBracket 0

/-- The pieces of a text that is cut at the commas outside all brackets. -/
structure CutAtOuterCommas (s : List Char) (pieces : List (List Char)) : Prop where
  /-- A text without such a comma is a piece itself. -/
  ne_nil : pieces ≠ []
  /-- Nothing is lost. -/
  lossless : List.intercalate [','] pieces = s
  /-- The places between two pieces are the commas at which no bracket is open. -/
  cuts : ∀ x y, (∃ front back, front ≠ [] ∧ back ≠ [] ∧ pieces = front ++ back ∧
      x = List.intercalate [','] front ∧ y = List.intercalate [','] back) ↔
    s = x ++ ',' :: y ∧ bracketDepth x = 0
  /-- No bracket is open where a piece begins. -/
  begins : ∀ front piece back, pieces = front ++ piece :: back →
    ∃ x, s = x ++ List.intercalate [','] (piece :: back) ∧ bracketDepth x = 0

theorem depthAfter_eq_countBracket (depth : Nat) (c : Char) :
    depthAfter depth c = countBracket depth c := by
  rw [depthAfter, countBracket]
  split
  · rename_i h
    rcases h with rfl | rfl <;> rfl
  · rename_i h
    rw [not_or] at h
    have hopen : "<[".toList.count c = 0 := by simp [List.count_eq_zero, h]
    split
    · rename_i hclose
      rcases hclose with rfl | rfl <;> rfl
    · rename_i hclose
      rw [not_or] at hclose
      have hnone : ">]".toList.count c = 0 := by simp [List.count_eq_zero, hclose]
      rw [hopen, hnone]
      rfl

/-- The count is the depth that the reader follows. -/
theorem bracketDepth_eq (s : List Char) : bracketDepth s = s.foldl depthAfter 0 := by
  have hstep : depthAfter = countBracket :=
    funext fun depth => funext fun c => depthAfter_eq_countBracket depth c
  rw [bracketDepth, hstep]

/-! ### Where a text is cut -/

/-- Between two pieces the depth is zero. -/
theorem foldl_depthAfter_of_splitAtCommas {depth : Nat} {s : List Char}
    {front back : List (List Char)} (h : splitAtCommas depth s = front ++ back)
    (hfront : front ≠ []) (hback : back ≠ []) :
    (List.intercalate [','] front).foldl depthAfter depth = 0 := by
  induction front generalizing depth s with
  | nil => exact absurd rfl hfront
  | cons p front ih =>
      rcases splitAtCommas_cases depth s with ⟨hs, -⟩ | ⟨x, r, -, hx, hs⟩
      · -- There is only one piece, so none is left behind it.
        rw [hs, List.cons_append, List.cons.injEq] at h
        exact absurd (List.append_eq_nil_iff.mp h.2.symm).2 hback
      · rw [hs, List.cons_append, List.cons.injEq] at h
        obtain ⟨rfl, hr⟩ := h
        have hdepth := foldl_depthAfter_of_depthThrough hx
        by_cases hnil : front = []
        · rw [hnil, List.intercalate_singleton]
          exact hdepth
        · have hjoin := intercalate_append [','] (List.cons_ne_nil x []) hnil
          rw [List.singleton_append, List.intercalate_singleton] at hjoin
          rw [hjoin, List.foldl_append, List.foldl_append, hdepth]
          exact ih hr hnil

/-- A text is cut at its commas outside all brackets and nowhere else. -/
theorem cutAtOuterCommas_splitAtCommas (s : List Char) :
    CutAtOuterCommas s (splitAtCommas 0 s) where
  ne_nil := splitAtCommas_ne_nil 0 s
  lossless := intercalate_splitAtCommas 0 s
  cuts := by
    intro x y
    constructor
    · rintro ⟨front, back, hfront, hback, hs, rfl, rfl⟩
      have hjoin := intercalate_append [','] hfront hback
      rw [← hs, intercalate_splitAtCommas, List.append_assoc] at hjoin
      refine ⟨hjoin, ?_⟩
      rw [bracketDepth_eq]
      exact foldl_depthAfter_of_splitAtCommas hs hfront hback
    · rintro ⟨rfl, hx⟩
      rw [bracketDepth_eq] at hx
      exact ⟨splitAtCommas 0 x, splitAtCommas 0 y, splitAtCommas_ne_nil 0 x,
        splitAtCommas_ne_nil 0 y, splitAtCommas_append hx y,
        (intercalate_splitAtCommas 0 x).symm, (intercalate_splitAtCommas 0 y).symm⟩
  begins := by
    intro front piece back hs
    have hs' := intercalate_splitAtCommas 0 s
    rw [hs] at hs'
    by_cases hnil : front = []
    · exact ⟨[], by rw [← hs', hnil]; rfl, rfl⟩
    · refine ⟨List.intercalate [','] front ++ [','], ?_, ?_⟩
      · rw [← hs', intercalate_append [','] hnil (List.cons_ne_nil piece back)]
      · rw [bracketDepth_eq, List.foldl_append,
          foldl_depthAfter_of_splitAtCommas hs hnil (List.cons_ne_nil piece back)]
        rfl

/-! ### Written parameters -/

/-- The layouts in which a parameter may be written. -/
inductive ParameterLayout where
  | nameFirst
  | typeFirst
  deriving DecidableEq, Repr

/-- The text of a parameter in a layout. -/
def ParameterLayout.text : ParameterLayout → Parameter → List Char
  | nameFirst, p => p.name.toList ++ " : ".toList ++ p.type.toList
  | typeFirst, p => p.type.toList ++ " ".toList ++ p.name.toList

section Layouts

variable {p : Parameter}

/-- A parameter with its type in front is read at the first attempt. -/
theorem describes_typeFirst (hname : IsWord p.name.toList)
    (htype : IsType TypeSuffix.Readable p.type.toList) :
    Describes (ParameterLayout.typeFirst.text p) p where
  accepted := by
    intro w hw
    have hstart : Stops isSpace (p.type.toList ++ ' ' :: p.name.toList) :=
      htype.stops (fun _ => isSpace_of_isWordChar) _
    have hspace : Stops isSpace p.name.toList := by
      simpa using hname.stops (fun _ => isSpace_of_isWordChar) []
    have htypeText : typeText (p.type.toList ++ ' ' :: p.name.toList) =
        some (p.type, ' ' :: p.name.toList) :=
      typeText_append htype (stops_cons.mpr rfl) (stops_cons.mpr rfl)
    have hnameText : name p.name.toList = some (p.name, []) := by
      simpa using name_append hname (stops_nil _)
    have htext : ParameterLayout.typeFirst.text p = p.type.toList ++ ' ' :: p.name.toList := by
      simp [ParameterLayout.text]
    rw [htext, accept_fullLine_eq_some_iff, dropWhile_append_of_stops hw hstart]
    refine ⟨[], ?_, by simp⟩
    rw [parameter]
    refine orElse_of_some ?_
    rw [bind_of_some htypeText, bind_of_some (spaces1_space hspace), bind_of_some hnameText]
    rfl
  depth := by
    intro depth
    have hn : ∀ c ∈ " ".toList ++ p.name.toList, isNeutral c = true := by
      intro c hc
      rcases List.mem_append.mp hc with hc | hc
      · rw [List.mem_singleton.mp hc]
        rfl
      · exact isNeutral_of_isWordChar (hname.chars c hc)
    rw [ParameterLayout.text, List.append_assoc, depthThrough_append_neutral depth _ hn]

theorem describes_text (layout : ParameterLayout) (hname : IsWord p.name.toList)
    (htype : IsType TypeSuffix.Readable p.type.toList) : Describes (layout.text p) p := by
  cases layout with
  | nameFirst =>
      have htext : ParameterLayout.nameFirst.text p = (Diagram.parameter p).toList := by
        rw [toList_parameter]
        simp [ParameterLayout.text]
      rw [htext]
      exact describes_parameter hname htype
  | typeFirst => exact describes_typeFirst hname htype

end Layouts

/-- **A text is cut exactly at its commas outside all brackets, and parameters that are written
in a list, each in one of the layouts, are read back from it.** -/
theorem cutAtOuterCommas_and_readParameters (s : List Char) :
    CutAtOuterCommas s (splitAtCommas 0 s) ∧
      ∀ (ps : List Parameter) (layout : Parameter → ParameterLayout),
        (∀ p ∈ ps, IsWord p.name.toList ∧ IsNestedType p.type) →
          readParameters (List.intercalate ", ".toList (ps.map fun p => (layout p).text p)) =
            ps := by
  refine ⟨cutAtOuterCommas_splitAtCommas s, fun ps layout hps => ?_⟩
  have hlisted : Listed ps := listed_of_forall fun p hp => (hps p hp).2.depthThrough
  exact readParameters_intercalate hlisted
    (fun p hp => describes_text (layout p) (hps p hp).1 (hps p hp).2.readable) (w := []) (by simp)

/-- Parameters whose types hold commas and brackets of both kinds. -/
def scoreParameters : List Parameter :=
  [⟨"scores", "Map<K[k], V>[]"⟩, ⟨"ids", "int[2]"⟩, ⟨"last", "bool"⟩]

theorem cutAtOuterCommas_and_readParameters_scores :
    CutAtOuterCommas "a>, b[<c,d>,e], f".toList
        ["a>".toList, " b[<c,d>,e]".toList, " f".toList] ∧
      (∀ p ∈ scoreParameters, IsWord p.name.toList ∧ IsNestedType p.type) ∧
      readParameters "scores : Map<K[k], V>[], ids : int[2], last : bool".toList =
        scoreParameters ∧
      readParameters "Map<K[k], V>[] scores, int[2] ids, bool last".toList =
        scoreParameters := by
  have hpieces : splitAtCommas 0 "a>, b[<c,d>,e], f".toList =
      ["a>".toList, " b[<c,d>,e]".toList, " f".toList] := by decide
  have hscores : IsNestedType "Map<K[k], V>[]" :=
    ⟨"Map".toList, [.arguments "K[k], V".toList, .array []], by decide, by decide, rfl⟩
  have hids : IsNestedType "int[2]" :=
    ⟨"int".toList, [.array "2".toList], by decide, by decide, rfl⟩
  have hlast : IsNestedType "bool" := IsType.of_isWord (by decide)
  have hall : ∀ p ∈ scoreParameters, IsWord p.name.toList ∧ IsNestedType p.type := by
    intro p hp
    rcases List.mem_cons.mp hp with rfl | hp
    · exact ⟨by decide, hscores⟩
    · rcases (List.mem_cons.mp hp).imp_right List.mem_singleton.mp with rfl | rfl
      · exact ⟨by decide, hids⟩
      · exact ⟨by decide, hlast⟩
  obtain ⟨hcut, hread⟩ := cutAtOuterCommas_and_readParameters "a>, b[<c,d>,e], f".toList
  rw [hpieces] at hcut
  exact ⟨hcut, hall, hread scoreParameters (fun _ => .nameFirst) hall,
    hread scoreParameters (fun _ => .typeFirst) hall⟩

end ClassModel
