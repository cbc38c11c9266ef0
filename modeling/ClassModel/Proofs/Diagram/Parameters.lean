/-
Reading parameter lists.

A parameter list is cut at the commas outside all brackets.  `depthThrough` follows the
depth through a text and fails at a comma that would cut it, so it says at once that a text
stays in one piece and at which depth it ends.  A written list is cut back into the
parameters it was made of if every type stays in one piece and every type but the last
ends at the depth where it began; `Listed` says that of a list of parameters.  How the
single parameters are written does not matter, as long as each text `Describes` its
parameter.

Both directions are needed.  Written parameters are read back, and what is read from any
text at all is `Listed`, because a piece is only followed by another one behind a comma at
depth zero.
-/
import ClassModel.Diagram.Printer
import ClassModel.Proofs.Diagram.Types

namespace ClassModel

/-! ### The depth through a text -/

/-- The depth behind a text that is read from a depth, unless a comma cuts the text. -/
def depthThrough : Nat → List Char → Option Nat
  | depth, [] => some depth
  | depth, c :: r => if c = ',' ∧ depth = 0 then none else depthThrough (depthAfter depth c) r

theorem depthThrough_append (depth : Nat) (x y : List Char) :
    depthThrough depth (x ++ y) = (depthThrough depth x).bind fun d => depthThrough d y := by
  induction x generalizing depth with
  | nil => rfl
  | cons c r ih =>
      rw [List.cons_append, depthThrough, depthThrough]
      by_cases hc : c = ',' ∧ depth = 0
      · rw [if_pos hc, if_pos hc]
        rfl
      · rw [if_neg hc, if_neg hc]
        exact ih _

/-- A character that neither cuts a list nor changes the depth. -/
def isNeutral (c : Char) : Bool :=
  c != ',' && c != '<' && c != '>' && c != '[' && c != ']'

theorem isNeutral_of_isWordChar {c : Char} (h : isWordChar c = true) : isNeutral c = true := by
  have hne : ∀ d : Char, isWordChar d = false → (c != d) = true := fun d hd =>
    bne_iff_ne.mpr (ne_of_isWordChar h hd)
  simp only [isNeutral, hne _ (show isWordChar ',' = false by decide),
    hne _ (show isWordChar '<' = false by decide), hne _ (show isWordChar '>' = false by decide),
    hne _ (show isWordChar '[' = false by decide), hne _ (show isWordChar ']' = false by decide),
    Bool.and_self]

theorem isNeutral_of_isSpace {c : Char} (h : LineParser.isSpace c = true) :
    isNeutral c = true := by
  simp only [LineParser.isSpace, Bool.or_eq_true, beq_iff_eq] at h
  rcases h with rfl | rfl <;> rfl

/-- Neutral characters lead nowhere. -/
theorem depthThrough_neutral (depth : Nat) {x : List Char} (h : ∀ c ∈ x, isNeutral c = true) :
    depthThrough depth x = some depth := by
  induction x with
  | nil => rfl
  | cons c r ih =>
      have hc : c ≠ ',' ∧ c ≠ '<' ∧ c ≠ '>' ∧ c ≠ '[' ∧ c ≠ ']' := by
        simpa [isNeutral, and_assoc] using h c (by simp)
      rw [depthThrough, if_neg fun hcut => hc.1 hcut.1]
      rw [depthAfter, if_neg (by simp [hc]), if_neg (by simp [hc])]
      exact ih fun d hd => h d (by simp [hd])

theorem depthThrough_neutral_append (depth : Nat) {x : List Char}
    (h : ∀ c ∈ x, isNeutral c = true) (y : List Char) :
    depthThrough depth (x ++ y) = depthThrough depth y := by
  rw [depthThrough_append, depthThrough_neutral depth h, Option.bind_some]

theorem depthThrough_append_neutral (depth : Nat) (x : List Char) {y : List Char}
    (h : ∀ c ∈ y, isNeutral c = true) :
    depthThrough depth (x ++ y) = depthThrough depth x := by
  rw [depthThrough_append]
  rcases depthThrough depth x with _ | d
  · rfl
  · exact depthThrough_neutral d h

theorem splitAtCommas_of_depthThrough {depth e : Nat} {x : List Char}
    (h : depthThrough depth x = some e) : splitAtCommas depth x = [x] := by
  induction x generalizing depth with
  | nil => rfl
  | cons c r ih =>
      rw [depthThrough] at h
      split at h
      · cases h
      · rw [splitAtCommas, if_neg ‹_›, ih h]
        rfl

/-- Where no comma cuts, the depth is followed character by character. -/
theorem foldl_depthAfter_of_depthThrough {depth e : Nat} {x : List Char}
    (h : depthThrough depth x = some e) : x.foldl depthAfter depth = e := by
  induction x generalizing depth with
  | nil => exact Option.some.inj h
  | cons c r ih =>
      rw [depthThrough] at h
      split at h
      · cases h
      · exact ih h

theorem consPiece_append (c : Char) {ps : List (List Char)} (h : ps ≠ []) (qs : List (List Char)) :
    consPiece c (ps ++ qs) = consPiece c ps ++ qs := by
  obtain ⟨p, ps, rfl⟩ := List.exists_cons_of_ne_nil h
  rfl

/-- A comma at depth zero cuts, wherever the text in front of it is cut. -/
theorem splitAtCommas_append {depth : Nat} {x : List Char} (h : x.foldl depthAfter depth = 0)
    (y : List Char) :
    splitAtCommas depth (x ++ ',' :: y) = splitAtCommas depth x ++ splitAtCommas 0 y := by
  induction x generalizing depth with
  | nil =>
      have hzero : depth = 0 := h
      subst hzero
      rfl
  | cons c r ih =>
      rw [List.cons_append, splitAtCommas, splitAtCommas]
      by_cases hc : c = ',' ∧ depth = 0
      · obtain ⟨rfl, rfl⟩ := hc
        have hr : splitAtCommas 0 (r ++ ',' :: y) = splitAtCommas 0 r ++ splitAtCommas 0 y := ih h
        rw [if_pos ⟨rfl, rfl⟩, if_pos ⟨rfl, rfl⟩, hr]
        rfl
      · rw [if_neg hc, if_neg hc, ih h, consPiece_append c (splitAtCommas_ne_nil _ r)]

/-- A comma behind a piece that ends at depth zero ends the piece. -/
theorem splitAtCommas_append_comma {depth : Nat} {x : List Char}
    (h : depthThrough depth x = some 0) (y : List Char) :
    splitAtCommas depth (x ++ ',' :: y) = x :: splitAtCommas 0 y := by
  rw [splitAtCommas_append (foldl_depthAfter_of_depthThrough h), splitAtCommas_of_depthThrough h]
  rfl

/-- A text stays in one piece, or it is cut at its first comma of depth zero. -/
theorem splitAtCommas_cases (depth : Nat) (s : List Char) :
    (splitAtCommas depth s = [s] ∧ (depthThrough depth s).isSome = true) ∨
      ∃ x r, s = x ++ ',' :: r ∧ depthThrough depth x = some 0 ∧
        splitAtCommas depth s = x :: splitAtCommas 0 r := by
  induction s generalizing depth with
  | nil => exact Or.inl ⟨rfl, rfl⟩
  | cons c r ih =>
      by_cases hc : c = ',' ∧ depth = 0
      · obtain ⟨rfl, rfl⟩ := hc
        exact Or.inr ⟨[], r, rfl, rfl, rfl⟩
      · have hd : ∀ x, depthThrough depth (c :: x) = depthThrough (depthAfter depth c) x := by
          intro x
          rw [depthThrough, if_neg hc]
        rcases ih (depthAfter depth c) with ⟨hs, hsome⟩ | ⟨x, t, rfl, hx, hs⟩
        · refine Or.inl ⟨?_, by rw [hd]; exact hsome⟩
          rw [splitAtCommas, if_neg hc, hs]
          rfl
        · refine Or.inr ⟨c :: x, t, rfl, by rw [hd]; exact hx, ?_⟩
          rw [splitAtCommas, if_neg hc, hs]
          rfl

/-! ### Types that end where they began -/

/-- Square brackets that match, with so many of them open in front of the text. -/
def matchedSquares : Nat → List Char → Bool
  | depth, [] => depth == 0
  | depth, c :: r =>
      if c = '[' then matchedSquares (depth + 1) r
      else if c = ']' then depth != 0 && matchedSquares (depth - 1) r
      else matchedSquares depth r

/-- Below the first angle bracket, matched square brackets lead back to where they began. -/
theorem depthThrough_matchedSquares {s : List Char} (hs : ∀ c ∈ s, c ≠ '<' ∧ c ≠ '>') {d : Nat}
    (h : matchedSquares d s = true) : depthThrough (d + 1) s = some 1 := by
  induction s generalizing d with
  | nil =>
      rw [matchedSquares, beq_iff_eq] at h
      rw [h]
      rfl
  | cons c r ih =>
      have hc := hs c (by simp)
      have hr : ∀ e ∈ r, e ≠ '<' ∧ e ≠ '>' := fun e he => hs e (by simp [he])
      rw [depthThrough, if_neg (by simp)]
      rw [matchedSquares] at h
      by_cases ho : c = '['
      · rw [if_pos ho] at h
        have hd : depthAfter (d + 1) c = d + 1 + 1 := by simp [depthAfter, ho]
        rw [hd]
        exact ih hr h
      · rw [if_neg ho] at h
        by_cases hclose : c = ']'
        · rw [if_pos hclose, Bool.and_eq_true, bne_iff_ne] at h
          have hd : depthAfter (d + 1) c = d - 1 + 1 := by
            have hpos : d - 1 + 1 = d := Nat.sub_add_cancel (Nat.one_le_iff_ne_zero.mpr h.1)
            rw [hpos]
            simp [depthAfter, hclose]
          rw [hd]
          exact ih hr h.2
        · rw [if_neg hclose] at h
          have hd : depthAfter (d + 1) c = d + 1 := by simp [depthAfter, hc, ho, hclose]
          rw [hd]
          exact ih hr h

/-- A suffix whose square brackets match, besides what the grammar asks of it. -/
def TypeSuffix.Nested : TypeSuffix → Prop
  | arguments inner => inner ≠ [] ∧ (∀ c ∈ inner, c ≠ '<' ∧ c ≠ '>') ∧
      matchedSquares 0 inner = true
  | array size => ∀ c ∈ size, isWordChar c = true

instance : (x : TypeSuffix) → Decidable x.Nested
  | .arguments inner =>
      inferInstanceAs (Decidable (inner ≠ [] ∧ (∀ c ∈ inner, c ≠ '<' ∧ c ≠ '>') ∧
        matchedSquares 0 inner = true))
  | .array size => inferInstanceAs (Decidable (∀ c ∈ size, isWordChar c = true))

/-- A type of which every suffix is nested. -/
abbrev IsNestedType (type : String) : Prop :=
  IsType TypeSuffix.Nested type.toList

namespace TypeSuffix

variable {x : TypeSuffix}

theorem Nested.readable (h : x.Nested) : x.Readable := by
  cases x with
  | arguments inner => exact ⟨h.1, h.2.1⟩
  | array size => exact h

/-- A nested suffix ends at the depth where it began. -/
theorem Nested.depthThrough (h : x.Nested) : depthThrough 0 x.text = some 0 := by
  cases x with
  | arguments inner =>
      have hinner := depthThrough_matchedSquares h.2.1 h.2.2
      have hopen : depthAfter 0 '<' = 1 := rfl
      rw [text, List.cons_append, ClassModel.depthThrough, if_neg (by simp), hopen,
        depthThrough_append, hinner]
      rfl
  | array size =>
      have hsize := depthThrough_neutral 1 fun c hc => isNeutral_of_isWordChar (h c hc)
      have hopen : depthAfter 0 '[' = 1 := rfl
      rw [text, List.cons_append, ClassModel.depthThrough, if_neg (by simp), hopen,
        depthThrough_append, hsize]
      rfl

end TypeSuffix

section NestedTypes

variable {type : String}

theorem IsNestedType.readable (h : IsNestedType type) :
    IsType TypeSuffix.Readable type.toList :=
  h.mono fun _ => TypeSuffix.Nested.readable

/-- A nested type ends at the depth where it began. -/
theorem IsNestedType.depthThrough (h : IsNestedType type) :
    depthThrough 0 type.toList = some 0 := by
  obtain ⟨head, xs, hhead, hxs, he⟩ := h
  have hsuffixes : ClassModel.depthThrough 0 (xs.flatMap TypeSuffix.text) = some 0 := by
    clear he
    induction xs with
    | nil => rfl
    | cons x xs ih =>
        rw [List.flatMap_cons, depthThrough_append, (hxs x (by simp)).depthThrough, Option.bind_some]
        exact ih fun y hy => hxs y (by simp [hy])
  rw [he, depthThrough_neutral_append 0 fun c hc => isNeutral_of_isWordChar (hhead.chars c hc)]
  exact hsuffixes

end NestedTypes

/-! ### A single parameter -/

namespace LineParser

theorem colon_of_spaces {w v r : List Char} (hw : ∀ c ∈ w, isSpace c = true)
    (hv : ∀ c ∈ v, isSpace c = true) (hr : Stops isSpace r) :
    colon (w ++ ':' :: v ++ r) = some ((), r) := by
  have hcolon : Stops isSpace (':' :: (v ++ r)) := stops_cons.mpr rfl
  have hspaces : spaces (w ++ ':' :: (v ++ r)) = some ((), ':' :: (v ++ r)) := by
    rw [spaces_apply, dropWhile_append_of_stops hw hcolon]
  rw [List.append_assoc, List.cons_append, colon, bind_of_some hspaces,
    bind_of_some (char_cons ':' _), spaces_apply, dropWhile_append_of_stops hv hr]

theorem colon_eq_none {s : List Char} (h : Stops (· == ':') (s.dropWhile isSpace)) :
    colon s = none := by
  rw [colon, bind_of_some (spaces_apply s), bind_of_none (char_eq_none h)]

/-- A colon was read together with the spaces around it. -/
theorem colon_eq_some {s r : List Char} {u : Unit} (h : colon s = some (u, r)) :
    ∃ w v, (∀ c ∈ w, isSpace c = true) ∧ (∀ c ∈ v, isSpace c = true) ∧
      s = w ++ ':' :: v ++ r ∧ Stops isSpace r := by
  rw [colon, bind_of_some (spaces_apply s), bind_apply, Option.bind_eq_some_iff] at h
  obtain ⟨⟨d, t⟩, hc, hr⟩ := h
  obtain ⟨-, ht⟩ := char_eq_some_iff.mp hc
  cases hr
  refine ⟨s.takeWhile isSpace, t.takeWhile isSpace, fun _ => of_mem_takeWhile,
    fun _ => of_mem_takeWhile, ?_, stops_dropWhile isSpace t⟩
  rw [List.append_assoc, List.cons_append, run_append isSpace t, ← ht, run_append isSpace s]

end LineParser

open LineParser

/-- The text of a parameter, as a list of characters. -/
theorem toList_parameter (p : Parameter) :
    (Diagram.parameter p).toList = p.name.toList ++ ' ' :: ':' :: ' ' :: p.type.toList := by
  simp [Diagram.parameter, String.toList_append]

/-- A written parameter is read back, with spaces in front or without. -/
theorem accept_parameter {p : Parameter} {w : List Char} (hw : ∀ c ∈ w, isSpace c = true)
    (hname : IsWord p.name.toList) (htype : IsType TypeSuffix.Readable p.type.toList) :
    accept (fullLine parameter) (w ++ (Diagram.parameter p).toList) = some p := by
  have hstart : Stops isSpace ((Diagram.parameter p).toList) := by
    rw [toList_parameter]
    exact hname.stops (fun _ => isSpace_of_isWordChar) _
  have hspace : Stops isSpace p.type.toList := by
    simpa using htype.stops (fun _ => isSpace_of_isWordChar) []
  rw [accept_fullLine_eq_some_iff, dropWhile_append_of_stops hw hstart, toList_parameter]
  refine ⟨[], ?_, by simp⟩
  -- The layout with the type in front gets stuck at the colon.
  have hfirst : (do
      let type ← typeText
      spaces1
      let name ← name
      return ({ name, type } : Parameter))
        (p.name.toList ++ ' ' :: ':' :: ' ' :: p.type.toList) = none := by
    rw [bind_of_some (typeText_append (IsType.of_isWord hname) (stops_cons.mpr rfl)
      (stops_cons.mpr rfl)), bind_of_some (spaces1_space (stops_cons.mpr rfl)),
      bind_of_none (name_eq_none (stops_cons.mpr rfl))]
  have hcolon : colon (' ' :: ':' :: ' ' :: p.type.toList) = some ((), p.type.toList) :=
    colon_of_spaces (w := [' ']) (v := [' ']) (by simp [isSpace]) (by simp [isSpace]) hspace
  have htail : typeText p.type.toList = some (p.type, []) := by
    simpa using typeText_append htype (stops_nil _) (stops_nil _)
  rw [parameter, orElse_of_none hfirst, bind_of_some (name_append hname (stops_cons.mpr rfl)),
    bind_of_some hcolon, bind_of_some htail]
  rfl

/-- A text that is read as a parameter, with spaces in front or without, and leads as deep as
the type of the parameter. -/
structure Describes (t : List Char) (p : Parameter) : Prop where
  accepted : ∀ {w : List Char}, (∀ c ∈ w, isSpace c = true) →
    accept (fullLine parameter) (w ++ t) = some p
  depth : ∀ depth, depthThrough depth t = depthThrough depth p.type.toList

theorem describes_parameter {p : Parameter} (hname : IsWord p.name.toList)
    (htype : IsType TypeSuffix.Readable p.type.toList) :
    Describes (Diagram.parameter p).toList p where
  accepted := fun hw => accept_parameter hw hname htype
  depth := by
    intro depth
    have hn : ∀ c ∈ p.name.toList, isNeutral c = true := fun c hc =>
      isNeutral_of_isWordChar (hname.chars c hc)
    rw [toList_parameter, depthThrough_neutral_append depth hn]
    exact depthThrough_neutral_append depth (x := [' ', ':', ' ']) (by decide) p.type.toList

/-- What a parameter parser returns: a word and a type from the text, in either order. -/
theorem accept_parameter_eq_some {x : List Char} {p : Parameter}
    (h : accept (fullLine parameter) x = some p) :
    IsWord p.name.toList ∧ IsType TypeSuffix.Readable p.type.toList ∧
      p.type.toList <:+: x ∧ ∀ depth, depthThrough depth x = depthThrough depth p.type.toList := by
  obtain ⟨r, hp, hr⟩ := accept_fullLine_eq_some_iff.mp h
  have hrn : ∀ c ∈ r, isNeutral c = true := fun c hc => isNeutral_of_isSpace (hr c hc)
  have hlead : ∀ c ∈ x.takeWhile isSpace, isNeutral c = true := fun c hc =>
    isNeutral_of_isSpace (of_mem_takeWhile hc)
  have hx := run_append isSpace x
  rw [parameter, orElse_apply, Option.or_eq_some_iff] at hp
  simp only [bind_apply, Option.bind_eq_some_iff, pure_apply, Option.some.injEq,
    Prod.mk.injEq] at hp
  rcases hp with ⟨⟨type, s₁⟩, ht, ⟨u, s₂⟩, hs, ⟨n, s₃⟩, hn, rfl, rfl⟩ |
    ⟨-, ⟨n, s₁⟩, hn, ⟨u, s₂⟩, hc, ⟨type, s₃⟩, ht, rfl, rfl⟩
  · obtain ⟨hcut, htype⟩ := typeText_eq_some ht
    obtain ⟨⟨w, -, hw, rfl⟩, -⟩ := spaces1_eq_some hs
    obtain ⟨rfl, hword, -⟩ := name_eq_some_iff.mp hn
    rw [hcut] at hx
    refine ⟨hword, htype, ⟨x.takeWhile isSpace, w ++ (n.toList ++ s₃), by simpa using hx⟩,
      fun depth => ?_⟩
    rw [← hx, depthThrough_neutral_append depth hlead, depthThrough_append_neutral]
    intro c hc
    rcases List.mem_append.mp hc with hc | hc
    · exact isNeutral_of_isSpace (hw c hc)
    · rcases List.mem_append.mp hc with hc | hc
      · exact isNeutral_of_isWordChar (hword.chars c hc)
      · exact hrn c hc
  · obtain ⟨hcut, hword, -⟩ := name_eq_some_iff.mp hn
    obtain ⟨w, v, hw, hv, rfl, -⟩ := colon_eq_some hc
    obtain ⟨rfl, htype⟩ := typeText_eq_some ht
    have hfront : ∀ c ∈ n.toList ++ (w ++ ':' :: v), isNeutral c = true := by
      intro c hc
      simp only [List.mem_append, List.mem_cons] at hc
      rcases hc with hc | hc | rfl | hc
      · exact isNeutral_of_isWordChar (hword.chars c hc)
      · exact isNeutral_of_isSpace (hw c hc)
      · rfl
      · exact isNeutral_of_isSpace (hv c hc)
    have he : x = x.takeWhile isSpace ++ ((n.toList ++ (w ++ ':' :: v)) ++
        (type.toList ++ s₃)) := by
      rw [hcut] at hx
      simpa using hx.symm
    refine ⟨hword, htype, ⟨x.takeWhile isSpace ++ (n.toList ++ (w ++ ':' :: v)), s₃, ?_⟩,
      fun depth => ?_⟩
    · rw [List.append_assoc, List.append_assoc, List.append_assoc]
      simpa using he.symm
    · rw [he, depthThrough_neutral_append depth hlead, depthThrough_neutral_append depth hfront,
        depthThrough_append_neutral depth _ hrn]

/-! ### Lists of parameters -/

/-- Parameters whose types stay in one piece when they are written one behind the other. -/
def Listed : List Parameter → Prop
  | [] => True
  | [p] => (depthThrough 0 p.type.toList).isSome = true
  | p :: q :: r => depthThrough 0 p.type.toList = some 0 ∧ Listed (q :: r)

/-- Types that end where they began may stand anywhere in a list. -/
theorem listed_of_forall {ps : List Parameter}
    (h : ∀ p ∈ ps, depthThrough 0 p.type.toList = some 0) : Listed ps := by
  induction ps with
  | nil => trivial
  | cons p ps ih =>
      cases ps with
      | nil =>
          show (depthThrough 0 p.type.toList).isSome = true
          rw [h p (by simp)]
          rfl
      | cons q r => exact ⟨h p (by simp), ih fun t ht => h t (by simp [ht])⟩

/-- The text of a parameter list. -/
def parametersText (ps : List Parameter) : List Char :=
  List.intercalate [',', ' '] (ps.map fun p => (Diagram.parameter p).toList)

/-- A list of texts is read as the parameters that they describe, one after the other. -/
theorem readParameters_intercalate {text : Parameter → List Char} {ps : List Parameter}
    (hlisted : Listed ps) (htext : ∀ p ∈ ps, Describes (text p) p) :
    ∀ {w : List Char}, (∀ c ∈ w, isSpace c = true) →
      readParameters (w ++ List.intercalate [',', ' '] (ps.map text)) = ps := by
  induction ps with
  | nil =>
      intro w hw
      have hnone : accept (fullLine parameter) w = none := by
        refine accept_fullLine_eq_none ?_
        have : w.dropWhile isSpace = [] := by
          simpa using dropWhile_append_of_stops hw (stops_nil _)
        rw [this]
        rfl
      have hsplit : splitAtCommas 0 w = [w] :=
        splitAtCommas_of_depthThrough (depthThrough_neutral 0 fun c hc =>
          isNeutral_of_isSpace (hw c hc))
      simp [readParameters, hsplit, hnone]
  | cons p ps ih =>
      intro w hw
      have hp : accept (fullLine parameter) (w ++ text p) = some p :=
        (htext p (by simp)).accepted hw
      have hdepth : depthThrough 0 (w ++ text p) = depthThrough 0 p.type.toList := by
        rw [depthThrough_neutral_append 0 fun c hc => isNeutral_of_isSpace (hw c hc)]
        exact (htext p (by simp)).depth 0
      cases ps with
      | nil =>
          obtain ⟨e, he⟩ := Option.isSome_iff_exists.mp hlisted
          have hsplit := splitAtCommas_of_depthThrough (hdepth.trans he)
          simp [readParameters, hsplit, hp]
      | cons q r =>
          obtain ⟨hzero, hrest⟩ := hlisted
          have hr := ih hrest (fun t ht => htext t (by simp [ht])) (w := [' ']) (by simp [isSpace])
          have hsplit := splitAtCommas_append_comma (hdepth.trans hzero)
            ([' '] ++ List.intercalate [',', ' '] ((q :: r).map text))
          have hlist : w ++ List.intercalate [',', ' '] ((p :: q :: r).map text) =
              w ++ text p ++ ',' :: ([' '] ++ List.intercalate [',', ' '] ((q :: r).map text)) := by
            simp [List.intercalate_cons_cons]
          rw [readParameters, hlist, hsplit, List.filterMap_cons, hp]
          exact congrArg _ hr

/-- Written parameters are read back. -/
theorem readParameters_parametersText {ps : List Parameter} (hlisted : Listed ps)
    (hname : ∀ p ∈ ps, IsWord p.name.toList)
    (htype : ∀ p ∈ ps, IsType TypeSuffix.Readable p.type.toList) :
    readParameters (parametersText ps) = ps :=
  readParameters_intercalate hlisted
    (fun p hp => describes_parameter (hname p hp) (htype p hp)) (w := []) (by simp)

/-- Whatever text they are read from, parameters can be written as a list.  Their types stand
in the text one behind the other. -/
theorem listed_readParameters (s : List Char) :
    Listed (readParameters s) ∧ ((readParameters s).flatMap fun p => p.type.toList).Sublist s ∧
      ∀ p ∈ readParameters s, IsWord p.name.toList ∧
        IsType TypeSuffix.Readable p.type.toList := by
  induction hn : s.length using Nat.strongRecOn generalizing s with
  | _ n ih =>
      rcases splitAtCommas_cases 0 s with ⟨hs, hsome⟩ | ⟨x, r, rfl, hx, hs⟩
      · rcases hp : accept (fullLine parameter) s with _ | p
        · have : readParameters s = [] := by simp [readParameters, hs, hp]
          rw [this]
          exact ⟨trivial, List.nil_sublist s, by simp⟩
        · obtain ⟨hword, htype, hinfix, hdepth⟩ := accept_parameter_eq_some hp
          have : readParameters s = [p] := by simp [readParameters, hs, hp]
          rw [this]
          refine ⟨by rw [Listed, ← hdepth 0]; exact hsome, by simpa using hinfix.sublist, ?_⟩
          intro q hq
          rcases List.mem_singleton.mp hq with rfl
          exact ⟨hword, htype⟩
      · obtain ⟨hlisted, hsub, hall⟩ := ih r.length (by rw [← hn]; simp; omega) r rfl
        rcases hp : accept (fullLine parameter) x with _ | p
        · have : readParameters (x ++ ',' :: r) = readParameters r := by
            simp [readParameters, hs, hp]
          rw [this]
          have hsuffix : r.Sublist (x ++ ',' :: r) :=
            (List.sublist_cons_self ',' r).trans (List.sublist_append_right x _)
          exact ⟨hlisted, hsub.trans hsuffix, hall⟩
        · obtain ⟨hword, htype, hinfix, hdepth⟩ := accept_parameter_eq_some hp
          have : readParameters (x ++ ',' :: r) = p :: readParameters r := by
            simp [readParameters, hs, hp]
          rw [this]
          refine ⟨?_, ?_, ?_⟩
          · have hzero : depthThrough 0 p.type.toList = some 0 := by rw [← hdepth 0, hx]
            rcases hr : readParameters r with _ | ⟨q, t⟩
            · rw [Listed, hzero]
              rfl
            · exact ⟨hzero, hr ▸ hlisted⟩
          · rw [List.flatMap_cons]
            exact hinfix.sublist.append (hsub.trans (List.sublist_cons_self ',' r))
          · intro q hq
            rcases List.mem_cons.mp hq with rfl | hq
            · exact ⟨hword, htype⟩
            · exact hall q hq

end ClassModel
