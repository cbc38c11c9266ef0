/-
Lines put in and taken out.

Where the visits of a diagram fall depends on its braces and on which line comes first behind a
header.  So a line without braces can be put between two visits, and taken out of a body, without
any other visit falling differently.

One thing has to be seen to.  A header without a body has looked for one through all the lines
behind it and found none, and it must not find one now.  It does not: the braces are what they
were, and a line that is put in can only stop the search for the line on which a body opens.  A
line that is taken out cannot help it, because the header that it stood behind has stopped the
search already.
-/
import ClassModel.Proofs.Diagram.Visits

namespace ClassModel

/-- A line that says something, but opens and closes nothing. -/
structure Line.Inert (l : Line) : Prop where
  braces : ∀ c ∈ l.text, isBrace c = false
  not_blank : isBlankText l.text = false

/-! ### Braces of lines -/

theorem openDepth_textOfLines_congr {ls ls' : List Line}
    (h : braces (ls.flatMap Line.text) = braces (ls'.flatMap Line.text)) (inner : Nat) :
    openDepth inner (textOfLines ls) = openDepth inner (textOfLines ls') := by
  rw [openDepth_textOfLines, openDepth_textOfLines, openDepth_congr h]

theorem braces_flatMap_insert {x : Line} (hx : x.Inert) (ls ls' : List Line) :
    braces ((ls ++ x :: ls').flatMap Line.text) = braces ((ls ++ ls').flatMap Line.text) := by
  simp only [List.flatMap_append, List.flatMap_cons, braces_append, braces_of_forall hx.braces,
    List.nil_append]

/-- Whether a body is found in some lines depends on their braces. -/
theorem gatherBody_eq_none_congr {inner : Nat} {line : Line} {rest rest' : List Line}
    (h : braces (rest.flatMap Line.text) = braces (rest'.flatMap Line.text)) :
    gatherBody inner line rest = none ↔ gatherBody inner line rest' = none := by
  have hlines : braces ((line :: rest).flatMap Line.text) =
      braces ((line :: rest').flatMap Line.text) := by
    rw [List.flatMap_cons, List.flatMap_cons, braces_append, braces_append, h]
  rw [gatherBody_eq_none_iff, gatherBody_eq_none_iff, openDepth_textOfLines_congr hlines]

/-! ### Where a body opens -/

/-- Lines that are not all blank decide where a body opens. -/
theorem openingLine?_append {ls : List Line} (h : ∃ l ∈ ls, isBlankText l.text = false)
    (rest : List Line) :
    openingLine? (ls ++ rest) = (openingLine? ls).map fun x => (x.1, x.2 ++ rest) := by
  induction ls with
  | nil =>
      obtain ⟨l, hl, -⟩ := h
      cases hl
  | cons l ls ih =>
      rw [List.cons_append, openingLine?, openingLine?]
      by_cases hl : isBlankText l.text = true
      · rw [if_pos hl, if_pos hl]
        refine ih ?_
        obtain ⟨k, hk, hblank⟩ := h
        rcases List.mem_cons.mp hk with rfl | hk
        · rw [hl] at hblank
          cases hblank
        · exact ⟨k, hk, hblank⟩
      · rw [if_neg hl, if_neg hl]
        split <;> rfl

/-- Blank lines decide nothing about it. -/
theorem openingLine?_append_of_blank {ls : List Line}
    (h : ¬∃ l ∈ ls, isBlankText l.text = false) (rest : List Line) :
    openingLine? (ls ++ rest) = openingLine? rest := by
  induction ls with
  | nil => rfl
  | cons l ls ih =>
      have hl : isBlankText l.text = true := by
        cases hl : isBlankText l.text with
        | true => rfl
        | false => exact absurd ⟨l, by simp, hl⟩ h
      rw [List.cons_append, openingLine?, if_pos hl]
      refine ih ?_
      rintro ⟨k, hk, hblank⟩
      exact h ⟨k, by simp [hk], hblank⟩

/-- No body opens on a line without braces. -/
theorem Line.Inert.openingLine? {x : Line} (hx : x.Inert) (rest : List Line) :
    openingLine? (x :: rest) = none := by
  cases hopen : ClassModel.openingLine? (x :: rest) with
  | none => rfl
  | some y =>
      obtain ⟨blank, line, gap, text, hlines, hblank, -, htext, -⟩ :=
        openingLine?_eq_some_iff.mp (show ClassModel.openingLine? (x :: rest) = some (y.1, y.2) from
          hopen)
      cases blank with
      | nil =>
          obtain ⟨rfl, -⟩ := List.cons.inj hlines
          have hbrace := hx.braces '\x7b' (by rw [htext]; simp)
          exact absurd hbrace (by decide)
      | cons b blank =>
          obtain ⟨rfl, -⟩ := List.cons.inj hlines
          have hfirst := hblank x (by simp)
          rw [hx.not_blank] at hfirst
          cases hfirst

/-! ### Headers without a body -/

/-- A header that finds no body in the first lines finds none in the second. -/
def Masks (ls ls' : List Line) : Prop :=
  ∀ header rest, collectBody header rest ls = none → collectBody header rest ls' = none

/-- Behind a line that is not blank only the braces count. -/
theorem masks_append {ls rest rest' : List Line} (h : ∃ l ∈ ls, isBlankText l.text = false)
    (hbraces : braces (rest.flatMap Line.text) = braces (rest'.flatMap Line.text)) :
    Masks (ls ++ rest) (ls ++ rest') := by
  have hjoin : ∀ k : List Line, braces ((k ++ rest).flatMap Line.text) =
      braces ((k ++ rest').flatMap Line.text) := by
    intro k
    rw [List.flatMap_append, List.flatMap_append, braces_append, braces_append, hbraces]
  intro header body hnone
  cases body with
  | some text => exact (gatherBody_eq_none_congr (hjoin ls)).mp hnone
  | none =>
      rw [collectBody, openingLine?_append h] at hnone ⊢
      cases hopen : openingLine? ls with
      | none => rfl
      | some x =>
          rw [hopen] at hnone
          exact (gatherBody_eq_none_congr (hjoin x.2)).mp hnone

/-- Putting a line in gives no header a body. -/
theorem masks_insert {x : Line} (hx : x.Inert) (ls rest : List Line) :
    Masks (ls ++ rest) (ls ++ x :: rest) := by
  have hbraces : braces (rest.flatMap Line.text) = braces ((x :: rest).flatMap Line.text) :=
    (braces_flatMap_insert hx [] rest).symm
  by_cases h : ∃ l ∈ ls, isBlankText l.text = false
  · exact masks_append h hbraces
  · intro header body hnone
    cases body with
    | some text =>
        exact (gatherBody_eq_none_congr (braces_flatMap_insert hx ls rest).symm).mp hnone
    | none =>
        rw [collectBody, openingLine?_append_of_blank h, hx.openingLine?]
        rfl

/-! ### Bodies without a line -/

/-- A line that is whole in a body can be left out of it. -/
theorem gatherBody_remove {inner : Nat} {first x closing : Line} {ls body : List Line}
    (hx : x.Inert) (h : gatherBody inner first (ls ++ [x, closing]) = some (body, [])) :
    ∃ front tail, body = front ++ [x, tail] ∧
      gatherBody inner first (ls ++ [closing]) = some (front ++ [tail], []) := by
  obtain ⟨⟨front, closing', u, v, hlines, htext, rfl⟩, hbody⟩ := gatherBody_eq_some_iff.mp h
  have hsplit : first :: ls ++ [x] ++ [closing] = front ++ [closing'] := by
    rw [← hlines]
    simp
  obtain ⟨rfl, hclosing⟩ := List.append_inj' hsplit rfl
  obtain rfl : closing = closing' := (List.cons.inj hclosing).1
  refine ⟨first :: ls, { closing with text := u }, by simp, ?_⟩
  have hcut : Cut (first :: (ls ++ [closing])) (first :: ls ++ [{ closing with text := u }]) []
      (first :: ls) closing u v := ⟨by simp, htext, rfl⟩
  refine gatherBody_of_cut hcut ?_
  rw [← hbody]
  refine openDepth_textOfLines_congr ?_ inner
  have hremove := braces_flatMap_insert hx (first :: ls) [{ closing with text := u }]
  rw [← hremove, List.append_assoc]
  rfl

theorem collectBody_remove {header x closing : Line} {rest : Option (List Char)}
    {ls body : List Line} (hx : x.Inert)
    (h : collectBody header rest (ls ++ [x, closing]) = some (body, [])) :
    ∃ front tail, body = front ++ [x, tail] ∧
      collectBody header rest (ls ++ [closing]) = some (front ++ [tail], []) := by
  cases rest with
  | some text => exact gatherBody_remove hx h
  | none =>
      rw [collectBody] at h
      by_cases hls : ∃ l ∈ ls, isBlankText l.text = false
      · rw [openingLine?_append hls] at h
        rw [collectBody, openingLine?_append hls]
        cases hopen : openingLine? ls with
        | none =>
            rw [hopen] at h
            cases h
        | some y =>
            rw [hopen] at h
            exact gatherBody_remove hx h
      · rw [openingLine?_append_of_blank hls, hx.openingLine?] at h
        cases h

/-! ### Visits -/

section Visits

variable {α : Type} {view : α → Line} {a m x closing : α} {items used after after' : List α}
  {o : Outline}

/-- A visit is the same in front of lines that give no header a body. -/
theorem Visit.of_masks (h : Visit view a used after o)
    (hmasks : Masks (after.map view) (after'.map view)) : Visit view a used after' o := by
  cases h with
  | standalone h => exact .standalone h
  | bare h hbody => exact .bare h (hmasks _ _ hbody)
  | declaration h hbody => exact .declaration h hbody

/-- The visits to some items go on with the visits to what is behind them. -/
theorem visits_of_append {cs ds : List (List α)} (h : visits view items = cs ++ ds) :
    visits view ds.flatten = ds := by
  induction cs generalizing items with
  | nil =>
      rw [List.nil_append] at h
      have hitems := flatten_visits view items
      rw [h] at hitems
      rw [hitems, h]
  | cons c cs ih =>
      obtain ⟨_, _, _, _, -, -, -, hafter⟩ := visits_eq_cons_iff.mp h
      exact ih hafter

/-- **The visits do not change where only lines behind them change**, as long as these give no
header a body. -/
theorem visits_append_of_masks {cs ds ds' : List (List α)} (h : visits view items = cs ++ ds)
    (hds' : visits view ds'.flatten = ds')
    (hmasks : ∀ k : List α, Masks ((k ++ ds.flatten).map view) ((k ++ ds'.flatten).map view)) :
    visits view (cs ++ ds').flatten = cs ++ ds' := by
  induction cs generalizing items with
  | nil => exact hds'
  | cons c cs ih =>
      obtain ⟨a, used, after, o, rfl, -, hvisit, hafter⟩ := visits_eq_cons_iff.mp h
      have hitems := flatten_visits view after
      rw [hafter, show cs.append ds = cs ++ ds from rfl, List.flatten_append] at hitems
      refine visits_eq_cons_iff.mpr ⟨a, used, (cs ++ ds').flatten, o, rfl, by simp, ?_, ih hafter⟩
      refine hvisit.of_masks ?_
      rw [← hitems, List.flatten_append]
      exact hmasks cs.flatten

/-- The declaration without its last whole line. -/
theorem Visit.remove {opening : List α} (h : Visit view a (opening ++ [m, closing]) after o)
    (hm : (view m).Inert) :
    ∃ header front tail, header? (view a).text = some header ∧
      o = { blocks := [⟨header, (view a).modifiers, front ++ [view m, tail]⟩] } ∧
      ∀ after', Visit view a (opening ++ [closing]) after'
        { blocks := [⟨header, (view a).modifiers, front ++ [tail]⟩] } := by
  generalize hused : opening ++ [m, closing] = used at h
  cases h with
  | standalone => simp at hused
  | bare => simp at hused
  | @declaration header _ _ body hheader hbody =>
      subst hused
      have hclosed := hbody []
      rw [List.append_nil, List.map_append] at hclosed
      obtain ⟨front, tail, rfl, hremoved⟩ := collectBody_remove hm hclosed
      refine ⟨header, front, tail, hheader, rfl, fun after' => .declaration hheader ?_⟩
      obtain ⟨all, hall, hmore⟩ := exists_used_of_collectBody hremoved
      rw [List.append_nil] at hall
      subst hall
      intro more
      rw [List.map_append]
      exact hmore more

/-- **A line moved out of a body.**  It is visited for itself, and no other visit changes. -/
theorem visits_moved {before behind front back : List (List α)} {opening : List α}
    (hvisits : visits view items = before ++ (a :: (opening ++ [m, closing])) :: behind)
    (hsame : front ++ back = before ++ (a :: (opening ++ [closing])) :: behind)
    (hm : (view m).Inert) (hx : (view x).Inert) (hsilent : header? (view x).text = none) :
    visits view (front ++ [x] :: back).flatten = front ++ [x] :: back := by
  have hchunk := visits_of_append hvisits
  obtain ⟨_, _, after, o, hcons, -, hvisit, hbehind⟩ := visits_eq_cons_iff.mp hchunk
  obtain ⟨rfl, rfl⟩ := List.cons.inj hcons
  obtain ⟨header, _, _, hheader, -, hremoved⟩ := hvisit.remove hm
  have hafter : after = behind.flatten := by
    rw [← flatten_visits view after, hbehind]
  subst hafter
  have hbody : visits view ((a :: (opening ++ [closing])) :: behind).flatten =
      (a :: (opening ++ [closing])) :: behind :=
    visits_eq_cons_iff.mpr ⟨a, _, behind.flatten, _, rfl, rfl, hremoved _, hbehind⟩
  -- The line is taken out behind its header, which is not blank.
  have hwithout : visits view (front ++ back).flatten = front ++ back := by
    rw [hsame]
    refine visits_append_of_masks hvisits hbody fun k => ?_
    have hmasks : Masks ((k ++ a :: opening).map view ++ (m :: closing :: behind.flatten).map view)
        ((k ++ a :: opening).map view ++ (closing :: behind.flatten).map view) := masks_append
      ⟨view a, by simp, isBlankText_of_header? hheader⟩ (braces_flatMap_insert hm [] _)
    simpa using hmasks
  have hback := visits_of_append hwithout
  refine visits_append_of_masks hwithout ?_ fun k => ?_
  · refine visits_eq_cons_iff.mpr ⟨x, [], back.flatten, _, rfl, rfl, .standalone hsilent, hback⟩
  · have hmasks := masks_insert hx (k.map view) (back.flatten.map view)
    simpa using hmasks

end Visits

end ClassModel
