/-
The visits of a diagram.

The outline of a diagram is found in a single walk down its lines.  Each visit is to one line,
which stands alone or is a header, and a header takes the lines of its body with it; the next
visit is to the line behind those.  So the visits cut the lines into chunks, and the outline is
read off the chunks one by one.

A chunk does not need the lines behind it to be read.  A body ends at its closing brace whatever
follows, and where no body was found among all the lines behind a header, none is found among
none.  What the lines behind a header do decide is only whether a body is there at all.

The items that are walked may carry more than a line, an index for example: then the chunks say
which lines of the diagram a declaration has taken.
-/
import ClassModel.Proofs.Diagram.Extents
import ClassModel.Proofs.Diagram.Outlines

namespace ClassModel

/-! ### What a body takes -/

/-- A body takes the lines up to the one that closes it, whatever follows. -/
theorem exists_used_of_gatherBody {inner : Nat} {line : Line} {rest body after : List Line}
    (h : gatherBody inner line rest = some (body, after)) :
    ∃ used, rest = used ++ after ∧
      ∀ more, gatherBody inner line (used ++ more) = some (body, more) := by
  obtain ⟨⟨front, closing, u, v, hlines, htext, rfl⟩, hbody⟩ := gatherBody_eq_some_iff.mp h
  cases front with
  | nil =>
      obtain ⟨rfl, rfl⟩ := List.cons.inj hlines
      have hcut : ∀ more, Cut (line :: more) [{ line with text := u }] more [] line u v := fun _ =>
        ⟨rfl, htext, rfl⟩
      exact ⟨[], rfl, fun more => gatherBody_of_cut (hcut more) hbody⟩
  | cons f front =>
      obtain ⟨rfl, rfl⟩ := List.cons.inj hlines
      have hcut : ∀ more, Cut (line :: (front ++ [closing] ++ more))
          (line :: front ++ [{ closing with text := u }]) more (line :: front) closing u v :=
        fun _ => ⟨by simp, htext, rfl⟩
      exact ⟨front ++ [closing], by simp, fun more => gatherBody_of_cut (hcut more) hbody⟩

/-- A declaration takes the lines up to the one that closes its body, whatever follows. -/
theorem exists_used_of_collectBody {header : Line} {rest : Option (List Char)}
    {following body after : List Line} (h : collectBody header rest following = some (body, after)) :
    ∃ used, following = used ++ after ∧
      ∀ more, collectBody header rest (used ++ more) = some (body, more) := by
  cases rest with
  | some text => exact exists_used_of_gatherBody h
  | none =>
      simp only [collectBody, Option.bind_eq_bind, Option.bind_eq_some_iff] at h
      obtain ⟨⟨first, mid⟩, hopen, hgather⟩ := h
      obtain ⟨blank, line, gap, text, rfl, hblank, hgap, htext, rfl⟩ :=
        openingLine?_eq_some_iff.mp hopen
      obtain ⟨used, rfl, hused⟩ := exists_used_of_gatherBody hgather
      refine ⟨blank ++ line :: used, by simp, fun more => ?_⟩
      have hopen' : openingLine? (blank ++ line :: used ++ more) =
          some ({ line with text }, used ++ more) :=
        openingLine?_eq_some_iff.mpr
          ⟨blank, line, gap, text, by simp, hblank, hgap, htext, rfl⟩
      rw [collectBody, hopen']
      exact hused more

/-- Where no body is found, none is found in front of nothing. -/
theorem collectBody_nil_of_eq_none {header : Line} {rest : Option (List Char)}
    {following : List Line} (h : collectBody header rest following = none) :
    collectBody header rest [] = none := by
  cases hnil : collectBody header rest [] with
  | none => rfl
  | some x =>
      obtain ⟨used, hused, hmore⟩ := exists_used_of_collectBody hnil
      have hempty : used = [] := (List.append_eq_nil_iff.mp hused.symm).1
      have hsome := hmore following
      rw [hempty, List.nil_append, h] at hsome
      cases hsome

/-! ### Walking down the lines -/

section Walking

variable {α : Type} (view : α → Line)

/-- How many of the items behind an item go with its line. -/
def extent (a : α) (rest : List α) : Nat :=
  match header? (view a).text with
  | none => 0
  | some header =>
      match collectBody (view a) header.body (rest.map view) with
      | some (_, after) => rest.length - after.length
      | none => 0

/-- The chunks into which the visits cut a list of items with lines. -/
def visits : List α → List (List α)
  | [] => []
  | a :: rest =>
      (a :: rest.take (extent view a rest)) :: visits (rest.drop (extent view a rest))
termination_by items => items.length
decreasing_by
  rw [List.length_drop, List.length_cons]
  omega

@[simp]
theorem visits_nil : visits view [] = [] := by
  rw [visits]

theorem visits_cons (a : α) (rest : List α) :
    visits view (a :: rest) =
      (a :: rest.take (extent view a rest)) :: visits view (rest.drop (extent view a rest)) := by
  rw [visits]

/-- The visits leave no item out and come in order. -/
theorem flatten_visits (items : List α) : (visits view items).flatten = items := by
  fun_induction visits view items with
  | case1 => rfl
  | case2 a rest ih => rw [List.flatten_cons, ih, List.cons_append, List.take_append_drop]

/-- What a visit to an item is like: the items that it takes along, and the outline of their
lines. -/
inductive Visit (a : α) : List α → List α → Outline → Prop where
  | standalone {after : List α} (h : header? (view a).text = none) :
      Visit a [] after { standalone := [view a] }
  | bare {header : Header} {after : List α} (h : header? (view a).text = some header)
      (hbody : collectBody (view a) header.body (after.map view) = none) :
      Visit a [] after { blocks := [⟨header, (view a).modifiers, []⟩] }
  | declaration {header : Header} {used after : List α} {body : List Line}
      (h : header? (view a).text = some header)
      (hbody : ∀ more, collectBody (view a) header.body (used.map view ++ more) =
        some (body, more)) :
      Visit a used after { blocks := [⟨header, (view a).modifiers, body⟩] }

/-- One outline behind the other. -/
def Outline.append (o p : Outline) : Outline where
  blocks := o.blocks ++ p.blocks
  standalone := o.standalone ++ p.standalone

variable {view} {a : α} {used after : List α} {o : Outline}

/-- There is always a visit to the first item. -/
theorem exists_visit (view : α → Line) (a : α) (rest : List α) :
    ∃ used after o, rest = used ++ after ∧ Visit view a used after o := by
  cases h : header? (view a).text with
  | none => exact ⟨[], rest, _, rfl, .standalone h⟩
  | some header =>
      cases hbody : collectBody (view a) header.body (rest.map view) with
      | none => exact ⟨[], rest, _, rfl, .bare h hbody⟩
      | some x =>
          obtain ⟨lines, hlines, hmore⟩ := exists_used_of_collectBody hbody
          obtain ⟨used, after, rfl, rfl, -⟩ := List.map_eq_append_iff.mp hlines
          exact ⟨used, after, _, rfl, .declaration h hmore⟩

theorem Visit.extent_eq (h : Visit view a used after o) :
    extent view a (used ++ after) = used.length := by
  cases h with
  | standalone h => rw [extent, h, List.length_nil]
  | bare h hbody =>
      rw [List.nil_append, extent, h, List.length_nil]
      simp only [hbody]
  | declaration h hbody =>
      rw [extent, h, List.map_append]
      simp [hbody]

/-- The visit is the one that is made. -/
theorem Visit.visits_eq (h : Visit view a used after o) :
    visits view (a :: (used ++ after)) = (a :: used) :: visits view after := by
  rw [visits_cons, h.extent_eq, List.take_left, List.drop_left]

/-- The visit finds what the outline begins with. -/
theorem Visit.ofLines_eq (h : Visit view a used after o) :
    Outline.ofLines ((a :: (used ++ after)).map view) =
      o.append (Outline.ofLines (after.map view)) := by
  rw [List.map_cons]
  cases h with
  | standalone h => exact ofLines_standalone h _
  | bare h hbody => exact ofLines_bare h hbody
  | declaration h hbody =>
      rw [List.map_append]
      exact ofLines_block h (hbody _)

/-- A visit is the same in front of nothing. -/
theorem Visit.alone (h : Visit view a used after o) : Visit view a used [] o := by
  cases h with
  | standalone h => exact .standalone h
  | bare h hbody => exact .bare h (collectBody_nil_of_eq_none hbody)
  | declaration h hbody => exact .declaration h hbody

/-- The outline of the lines of a visit. -/
theorem Visit.ofLines_used (h : Visit view a used after o) :
    Outline.ofLines ((a :: used).map view) = o := by
  have halone := h.alone.ofLines_eq
  rw [List.append_nil, List.map_nil, ofLines_nil] at halone
  rw [halone, Outline.append, List.append_nil, List.append_nil]

/-- The first of the visits, and those that follow it. -/
theorem visits_eq_cons_iff {items c : List α} {cs : List (List α)} :
    visits view items = c :: cs ↔ ∃ a used after o, c = a :: used ∧ items = a :: (used ++ after) ∧
      Visit view a used after o ∧ visits view after = cs := by
  constructor
  · intro h
    cases items with
    | nil =>
        rw [visits_nil] at h
        cases h
    | cons a rest =>
        obtain ⟨used, after, o, rfl, hvisit⟩ := exists_visit view a rest
        rw [hvisit.visits_eq] at h
        obtain ⟨rfl, rfl⟩ := List.cons.inj h
        exact ⟨a, used, after, o, rfl, rfl, hvisit, rfl⟩
  · rintro ⟨a, used, after, o, rfl, rfl, hvisit, rfl⟩
    exact hvisit.visits_eq

/-- Outlines one behind the other. -/
def Outline.join (os : List Outline) : Outline where
  blocks := os.flatMap Outline.blocks
  standalone := os.flatMap Outline.standalone

/-- **The outline of lines is read off the visits, each by itself.** -/
theorem ofLines_map_view (view : α → Line) (items : List α) :
    Outline.ofLines (items.map view) =
      Outline.join ((visits view items).map fun c => Outline.ofLines (c.map view)) := by
  induction h : visits view items generalizing items with
  | nil =>
      have hitems := flatten_visits view items
      rw [h] at hitems
      rw [← hitems, List.flatten_nil, List.map_nil, ofLines_nil]
      rfl
  | cons c cs ih =>
      obtain ⟨a, used, after, o, rfl, rfl, hvisit, hafter⟩ := visits_eq_cons_iff.mp h
      rw [hvisit.ofLines_eq, ih after hafter, List.map_cons, hvisit.ofLines_used]
      rfl

/-- Each chunk of the visits is taken by a visit. -/
theorem exists_visit_of_mem {items c : List α} (h : c ∈ visits view items) :
    ∃ before a used after o, c = a :: used ∧ items = before ++ a :: (used ++ after) ∧
      Visit view a used after o := by
  induction hvisits : visits view items generalizing items with
  | nil =>
      rw [hvisits] at h
      cases h
  | cons d ds ih =>
      obtain ⟨a, used, after, o, rfl, rfl, hvisit, hafter⟩ := visits_eq_cons_iff.mp hvisits
      rw [hvisits] at h
      rcases List.mem_cons.mp h with rfl | h
      · exact ⟨[], a, used, after, o, rfl, rfl, hvisit⟩
      · obtain ⟨before, b, us, more, p, hc, hitems, hp⟩ := ih (hafter ▸ h) hafter
        refine ⟨a :: (used ++ before), b, us, more, p, hc, ?_, hp⟩
        rw [hitems]
        simp

end Walking

/-! ### The lines of a diagram -/

/-- What becomes of the lines from `first` to `last`, which are visited together. -/
inductive Becomes (lines : List Line) (first : Nat) : Nat → Outline → Prop where
  | standalone {line : Line} (at_first : lines[first]? = some line)
      (silent : header? line.text = none) :
      Becomes lines first first { standalone := [line] }
  | bare {line : Line} {header : Header} (at_first : lines[first]? = some line)
      (declares : header? line.text = some header)
      (unclosed : ∀ j text before, OpensAt lines first header.body j text →
        before ++ ['\x7d'] <+: textOfLines (openLines lines j text) → depthBehind before ≠ 1) :
      Becomes lines first first { blocks := [⟨header, line.modifiers, []⟩] }
  | declaration {line : Line} {header : Header} {j last : Nat} {text : List Char}
      {body : List Line} (at_first : lines[first]? = some line)
      (declares : header? line.text = some header) (opens : OpensAt lines first header.body j text)
      (is_body : IsBody lines j text last body) :
      Becomes lines first last { blocks := [⟨header, line.modifiers, body⟩] }

/-- The indexes of the lines that are visited. -/
def visitedIndexes (lines : List Line) : List Nat :=
  (visits Prod.fst lines.zipIdx).filterMap fun c => c.head?.map Prod.snd

/-- No line comes into two visits, and the visits go down. -/
theorem pairwise_visits (lines : List Line) :
    (visits Prod.fst lines.zipIdx).Pairwise fun c d => ∀ x ∈ c, ∀ y ∈ d, x.2 < y.2 := by
  have hindexes : lines.zipIdx.Pairwise fun x y => x.2 < y.2 := by
    have hrange : (List.range' 0 lines.length).Pairwise (· < ·) := List.pairwise_lt_range' 1
    rwa [← List.zipIdx_map_snd, List.pairwise_map] at hrange
  rw [← flatten_visits Prod.fst lines.zipIdx, List.pairwise_flatten] at hindexes
  exact hindexes.2

theorem pairwise_visitedIndexes (lines : List Line) :
    (visitedIndexes lines).Pairwise (· < ·) := by
  rw [visitedIndexes, List.pairwise_filterMap]
  refine (pairwise_visits lines).imp ?_
  intro c d hcd i hi j hj
  obtain ⟨x, hx, rfl⟩ := Option.map_eq_some_iff.mp hi
  obtain ⟨y, hy, rfl⟩ := Option.map_eq_some_iff.mp hj
  exact hcd x (List.mem_of_mem_head? hx) y (List.mem_of_mem_head? hy)

/-- A line is taken by one visit only. -/
theorem eq_of_mem_visits {lines : List Line} {c d : List (Line × Nat)}
    (hc : c ∈ visits Prod.fst lines.zipIdx) (hd : d ∈ visits Prod.fst lines.zipIdx)
    {x : Line × Nat} (hxc : x ∈ c) (hxd : x ∈ d) : c = d := by
  have hpairwise := pairwise_visits lines
  have hsame := List.Pairwise.forall_of_forall_of_flip
    (R := fun c d : List (Line × Nat) => ∀ x ∈ c, x ∈ d → c = d)
    (fun c _ x _ _ => rfl)
    (hpairwise.imp fun h x hx hx' => absurd (h x hx x hx') (Nat.lt_irrefl _))
    (hpairwise.imp fun h x hx hx' => absurd (h x hx' x hx) (Nat.lt_irrefl _))
  exact hsame hc hd x hxc hxd

/-- A visit takes neighbouring lines, and it is known what becomes of them. -/
theorem becomes_of_mem_visits {lines : List Line} {c : List (Line × Nat)}
    (h : c ∈ visits Prod.fst lines.zipIdx) :
    ∃ first last, first ≤ last ∧ c.map Prod.snd = List.range' first (last + 1 - first) ∧
      Becomes lines first last (Outline.ofLines (c.map Prod.fst)) := by
  obtain ⟨before, a, used, after, o, rfl, hitems, hvisit⟩ := exists_visit_of_mem h
  have hlines := congrArg (List.map Prod.fst) hitems
  rw [List.zipIdx_map_fst, List.map_append, List.map_cons] at hlines
  have hdrop : lines.drop before.length = a.1 :: (used ++ after).map Prod.fst := by
    rw [hlines, List.drop_left' (List.length_map _)]
  have hfirst : lines[before.length]? = some a.1 := by
    rw [← List.head?_drop, hdrop, List.head?_cons]
  have hlength := congrArg List.length hlines
  simp only [List.length_append, List.length_cons, List.length_map] at hlength
  -- The indexes of the items in front are those below the first one.
  have hindexes : (a :: used).map Prod.snd = List.range' before.length (used.length + 1) := by
    have hall := congrArg (List.map Prod.snd) hitems
    rw [List.zipIdx_map_snd, ← List.cons_append, List.map_append, List.map_append,
      List.range'_eq_append_iff] at hall
    obtain ⟨n, -, hbefore, hrest⟩ := hall
    obtain ⟨k, -, hused, -⟩ := List.range'_eq_append_iff.mp hrest.symm
    have hn := congrArg List.length hbefore
    have hk := congrArg List.length hused
    simp only [List.length_map, List.length_range', List.length_cons] at hn hk
    rw [hused, ← hn, ← hk, Nat.zero_add, Nat.mul_one]
  refine ⟨before.length, before.length + used.length, by omega, ?_, ?_⟩
  · rw [hindexes]
    congr 1
    omega
  rw [hvisit.ofLines_used]
  cases hvisit with
  | standalone hsilent => exact .standalone hfirst hsilent
  | bare hheader hnone =>
      refine .bare hfirst hheader fun j text q hopens hclosing hone => ?_
      have hsome := (isSome_collectBody_iff hdrop).mpr ⟨j, text, q, hopens, hclosing, hone⟩
      rw [List.nil_append, hnone] at hsome
      cases hsome
  | declaration hheader hbody =>
      have hsome := hbody (after.map Prod.fst)
      rw [← List.map_append] at hsome
      obtain ⟨j, text, last, hopens, hisbody, -, hafter⟩ := (collectBody_iff_isBody hdrop).mp hsome
      have hlast := hisbody.last_lt
      have hlen := congrArg List.length hafter
      rw [List.length_map, List.length_drop] at hlen
      obtain rfl : last = before.length + used.length := by omega
      exact .declaration hfirst hheader hopens hisbody

/-- No line of a declaration stands alone. -/
theorem not_mem_of_standalone {lines : List Line} {c d : List (Line × Nat)}
    (hc : c ∈ visits Prod.fst lines.zipIdx) (hd : d ∈ visits Prod.fst lines.zipIdx)
    (hblocks : (Outline.ofLines (c.map Prod.fst)).blocks ≠ [])
    (hstandalone : (Outline.ofLines (d.map Prod.fst)).standalone ≠ []) :
    ∀ x ∈ c, x ∉ d := by
  intro x hxc hxd
  obtain rfl := eq_of_mem_visits hc hd hxc hxd
  obtain ⟨first, last, -, -, hbecomes⟩ := becomes_of_mem_visits hc
  generalize Outline.ofLines (c.map Prod.fst) = o at hblocks hstandalone hbecomes
  cases hbecomes with
  | standalone => exact hblocks rfl
  | bare => exact hstandalone rfl
  | declaration => exact hstandalone rfl

/-- **Where a body ends is what its braces say, and no line has two uses.**

The body of a declaration is collected exactly if it opens and some brace closes it, it is then
the text up to the first such brace, and the count of open braces stays positive all along.  The
visits go down the lines without leaving one out or taking one twice, each makes a standalone line
or a declaration out of its lines, and together they are the outline. -/
theorem bodies_exact (lines : List Line) :
    (∀ (i : Fin lines.length) (rest : Option (List Char)),
      (∀ body after, collectBody lines[i] rest (lines.drop (i + 1)) = some (body, after) ↔
        ∃ j text last, OpensAt lines i rest j text ∧ IsBody lines j text last body ∧
          i ≤ last ∧ after = lines.drop (last + 1)) ∧
      ((collectBody lines[i] rest (lines.drop (i + 1))).isSome = true ↔
        ∃ j text before, OpensAt lines i rest j text ∧
          before ++ ['\x7d'] <+: textOfLines (openLines lines j text) ∧ depthBehind before = 1) ∧
      (collectBody lines[i] rest (lines.drop (i + 1)) = none →
        ∀ j text q, OpensAt lines i rest j text → q <+: textOfLines (openLines lines j text) →
          1 ≤ depthBehind q)) ∧
    (visitedIndexes lines).Pairwise (· < ·) ∧
    (visits Prod.fst lines.zipIdx).flatten = lines.zipIdx ∧
    (visits Prod.fst lines.zipIdx).Pairwise (fun c d => ∀ x ∈ c, ∀ y ∈ d, x.2 < y.2) ∧
    (∀ c ∈ visits Prod.fst lines.zipIdx, ∃ first last, first ≤ last ∧
      c.map Prod.snd = List.range' first (last + 1 - first) ∧
      Becomes lines first last (Outline.ofLines (c.map Prod.fst))) ∧
    (∀ c ∈ visits Prod.fst lines.zipIdx, ∀ d ∈ visits Prod.fst lines.zipIdx,
      (Outline.ofLines (c.map Prod.fst)).blocks ≠ [] →
      (Outline.ofLines (d.map Prod.fst)).standalone ≠ [] → ∀ x ∈ c, x ∉ d) ∧
    Outline.ofLines lines =
      Outline.join ((visits Prod.fst lines.zipIdx).map fun c => Outline.ofLines (c.map Prod.fst)) := by
  refine ⟨fun i rest => ?_, pairwise_visitedIndexes lines, flatten_visits _ _, pairwise_visits lines,
    fun c hc => becomes_of_mem_visits hc, fun c hc d hd => not_mem_of_standalone hc hd, ?_⟩
  · have hi : lines.drop i = lines[i] :: lines.drop (i + 1) := List.drop_eq_getElem_cons i.isLt
    exact ⟨fun body after => collectBody_iff_isBody hi, isSome_collectBody_iff hi,
      fun h j text q hopens hq => one_le_of_collectBody_eq_none hi h hopens hq⟩
  · rw [← ofLines_map_view, List.zipIdx_map_fst]

/-- A class whose body is closed once too few. -/
def unclosedLines : List Line :=
  [{ text := "class Room".toList }, { text := " \x7b int seats \x7b".toList },
    { text := " \x7d".toList }]

/-- All the text behind its opening brace leaves the body open. -/
theorem bodies_exact_unclosedLines :
    collectBody unclosedLines[0] none (unclosedLines.drop 1) = none ∧
      ∀ q, q <+: " int seats \x7b\n \x7d".toList → 1 ≤ depthBehind q := by
  have hnone : collectBody unclosedLines[0] none (unclosedLines.drop 1) = none := by decide
  have hgap : " \x7b int seats \x7b".toList = [' '] ++ '\x7b' :: " int seats \x7b".toList := rfl
  have hopens : OpensAt unclosedLines 0 none 1 " int seats \x7b".toList :=
    .below (by omega) rfl (fun k _ _ => by omega) (by decide) hgap
  exact ⟨hnone, fun q hq =>
    ((bodies_exact unclosedLines).1 ⟨0, by decide⟩ none).2.2 hnone 1 _ q hopens hq⟩

end ClassModel
