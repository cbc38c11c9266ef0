/-
What a line outside all bodies says.

Three grammars are tried on such a line one after the other, but their order decides nothing.
Behind the first name of the line, and perhaps a multiplicity, stands a colon, the operator of a
composition or the operator of a plain association.  No two of them can stand in one place, so a
line says at most one of the three things.
-/
import ClassModel.Diagram.Outline
import ClassModel.Proofs.Diagram.Relations

namespace ClassModel

open LineParser

namespace LineParser

/-- What stands in front of the operator of a relation: a name and perhaps a multiplicity, each
with spaces behind it. -/
def beforeOperator : LineParser (Option String) := do
  let _ ← name
  spaces1
  optional do
    let m ← quotedMultiplicity
    spaces1
    return m

/-- A relation has its operator in that place, and a space behind the operator. -/
theorem operator_of_relation {operator : LineParser String} {line : List Char} {r : Relation}
    (h : accept (relation operator) line = some r) :
    ∃ m s separator t, beforeOperator (line.dropWhile isSpace) = some (m, s) ∧
      operator s = some (separator, t) ∧ ¬Stops isSpace t := by
  rw [relation, accept_fullLine_eq_some_iff] at h
  obtain ⟨_, h, -⟩ := h
  simp only [bind_apply, Option.bind_eq_some_iff] at h
  obtain ⟨⟨left, s₁⟩, hleft, ⟨_, s₂⟩, hspaces, ⟨m, s₃⟩, hmultiplicity, ⟨separator, t⟩, hoperator,
    ⟨n, s₄⟩, hright, ⟨_, s₅⟩, hbehind, -⟩ := h
  refine ⟨m, s₃, separator, t, ?_, hoperator, fun hstops => ?_⟩
  · rw [beforeOperator, bind_of_some hleft, bind_of_some hspaces]
    exact hmultiplicity
  · have hnone : spaces1 t = none := spaces1_eq_none hstops
    rcases optional_eq_some_iff.mp hright with ⟨q, -, hq⟩ | ⟨-, -, rfl⟩
    · simp only [bind_apply, hnone] at hq
      cases hq
    · rw [hnone] at hbehind
      cases hbehind

/-- A marker of visibility is no word character, so a word has none in front of it. -/
theorem visibility_of_word {w r : List Char} (hw : IsWord w) :
    visibility (w ++ r) = some (none, w ++ r) := by
  obtain ⟨c, t, rfl, hc⟩ := hw.exists_cons
  have hmark : ∀ d, isWordChar d = false → (c == d) = false := fun d hd =>
    beq_false_of_isWordChar hc hd
  have hnone : satisfy (fun c => c == '+' || c == '-' || c == '#' || c == '~') (c :: t ++ r) =
      none := by
    rw [List.cons_append, satisfy_cons, hmark '+' (by decide), hmark '-' (by decide),
      hmark '#' (by decide), hmark '~' (by decide)]
    rfl
  rw [visibility, bind_of_some (optional_eq_none hnone)]
  rfl

/-- Where an inline member has its colon, a relation would have its operator. -/
theorem colon_of_inlineTarget {s t r : List Char} {m : Option String}
    {x : String × Option Visibility} (hbefore : beforeOperator s = some (m, t))
    (htarget : inlineTarget s = some (x, r)) : ∃ u, t = ':' :: u := by
  simp only [beforeOperator, bind_apply, Option.bind_eq_some_iff] at hbefore
  obtain ⟨⟨left, s₁⟩, hleft, ⟨_, s₂⟩, hspaces, hmultiplicity⟩ := hbefore
  obtain ⟨rfl, hword, -⟩ := name_eq_some_iff.mp hleft
  have hstart : Stops isSpace (left.toList ++ s₁) :=
    hword.stops (fun _ => isSpace_of_isWordChar) s₁
  rw [inlineTarget, bind_of_some (visibility_of_word hword), bind_of_some (spaces_of_stops hstart),
    bind_of_some hleft] at htarget
  simp only [colon, bind_apply, Option.bind_eq_some_iff, spaces_apply] at htarget
  obtain ⟨_, ⟨⟨_, s₃⟩, hdrop, ⟨_, s₄⟩, hcolon, -⟩, -⟩ := htarget
  cases hdrop
  obtain ⟨-, hcolon⟩ := char_eq_some_iff.mp hcolon
  obtain ⟨⟨w, -, hw, rfl⟩, hstops⟩ := spaces1_eq_some hspaces
  rw [dropWhile_append_of_stops hw hstops] at hcolon
  subst hcolon
  have hquote : quotedMultiplicity (':' :: s₄) = none :=
    quotedMultiplicity_eq_none (stops_cons.mpr rfl)
  rcases optional_eq_some_iff.mp hmultiplicity with ⟨q, -, hq⟩ | ⟨-, -, rfl⟩
  · rw [bind_of_none hquote] at hq
    cases hq
  · exact ⟨s₄, rfl⟩

/-- Behind the dashes of a plain association there is no diamond. -/
theorem stops_of_operators {s t u : List Char} {x y : String}
    (hcomposition : compositionOperator s = some (x, t)) (hplain : plainOperator s = some (y, u)) :
    Stops isSpace u := by
  simp only [plainOperator, bind_apply, Option.bind_eq_some_iff] at hplain
  obtain ⟨⟨dashes, v⟩, hdashes, hplain⟩ := hplain
  cases hplain
  obtain ⟨rfl, hne, hall, -⟩ := run1_eq_some hdashes
  obtain ⟨c, w, rfl⟩ := List.exists_cons_of_ne_nil hne
  obtain rfl : c = '-' := by simpa using hall c List.mem_cons_self
  have hleft : leftOwned ('-' :: w ++ v) = none := rfl
  have hhead : optional (char '<') ('-' :: w ++ v) = some (none, '-' :: w ++ v) := rfl
  rw [compositionOperator, bind_apply, orElse_of_none hleft, rightOwned, bind_of_some hhead,
    bind_of_some hdashes] at hcomposition
  cases hdiamond : diamond v with
  | none =>
      rw [bind_of_none hdiamond] at hcomposition
      cases hcomposition
  | some found =>
      obtain ⟨d, r⟩ := found
      obtain ⟨rfl, hd⟩ := satisfy_eq_some_iff.mp hdiamond
      rw [Bool.or_eq_true, beq_iff_eq, beq_iff_eq] at hd
      rcases hd with rfl | rfl
      · exact stops_cons.mpr rfl
      · exact stops_cons.mpr rfl

/-- No operator begins with a colon. -/
theorem operators_colon (u : List Char) :
    compositionOperator (':' :: u) = none ∧ plainOperator (':' :: u) = none :=
  ⟨rfl, rfl⟩

end LineParser

/-! ### Lines that relate two types -/

/-- A line with the operator of a relation attaches no member, unless the operator may begin with
a colon. -/
theorem inlineMember?_of_relation {operator : LineParser String}
    (hoperator : ∀ u, operator (':' :: u) = none) {line : List Char} {r : Relation}
    (h : accept (relation operator) line = some r) : inlineMember? line = none := by
  obtain ⟨m, s, separator, t, hbefore, hread, -⟩ := operator_of_relation h
  have htarget : inlineTarget (line.dropWhile isSpace) = none := by
    cases htarget : inlineTarget (line.dropWhile isSpace) with
    | none => rfl
    | some x =>
        obtain ⟨u, rfl⟩ := colon_of_inlineTarget hbefore htarget
        rw [hoperator u] at hread
        cases hread
  have hfield : accept (fullLine inlineAttribute) line = none :=
    accept_fullLine_eq_none (bind_of_none htarget _)
  have hmethod : accept (fullLine inlineMethod) line = none :=
    accept_fullLine_eq_none (bind_of_none htarget _)
  rw [inlineMember?, inlineMethod?, hfield, hmethod]
  rfl

/-- A composition is no plain association. -/
theorem plainAssociation?_of_composition? {line : List Char} {r : Relation}
    (h : composition? line = some r) : plainAssociation? line = none := by
  obtain ⟨m, s, separator, t, hbefore, hcomposition, -⟩ := operator_of_relation h
  cases hplain : plainAssociation? line with
  | none => rfl
  | some q =>
      obtain ⟨m', s', separator', t', hbefore', hplain, hspace⟩ := operator_of_relation hplain
      rw [hbefore] at hbefore'
      cases hbefore'
      exact absurd (stops_of_operators hcomposition hplain) hspace

/-- **A line that reads as a composition says just that.** -/
theorem ofLine_of_composition? {l : Line} {r : Relation} (h : composition? l.text = some r) :
    Standalone.ofLine l = .composition r := by
  have hinline : inlineMember? l.text = none :=
    inlineMember?_of_relation (fun u => (operators_colon u).1) h
  simp only [Standalone.ofLine, hinline, h]

/-- **A line that reads as a plain association says just that.** -/
theorem ofLine_of_plainAssociation? {l : Line} {r : Relation}
    (h : plainAssociation? l.text = some r) : Standalone.ofLine l = .plain r := by
  have hinline : inlineMember? l.text = none :=
    inlineMember?_of_relation (fun u => (operators_colon u).2) h
  have hcomposition : composition? l.text = none := by
    cases hcomposition : composition? l.text with
    | none => rfl
    | some q =>
        rw [plainAssociation?_of_composition? hcomposition] at h
        cases h
  simp only [Standalone.ofLine, hinline, hcomposition, h]

namespace Standalone

/-- The composition that a line says. -/
def composition? : Standalone → Option Relation
  | composition r => some r
  | _ => none

/-- The plain association that a line says. -/
def plain? : Standalone → Option Relation
  | plain r => some r
  | _ => none

theorem composition?_ofLine (l : Line) : (ofLine l).composition? = ClassModel.composition? l.text := by
  cases h : ClassModel.composition? l.text with
  | some r => rw [ofLine_of_composition? h, composition?]
  | none =>
      unfold ofLine
      rw [h]
      cases inlineMember? l.text with
      | some m => rfl
      | none => cases plainAssociation? l.text <;> rfl

theorem plain?_ofLine (l : Line) : (ofLine l).plain? = plainAssociation? l.text := by
  cases h : plainAssociation? l.text with
  | some r => rw [ofLine_of_plainAssociation? h, plain?]
  | none =>
      unfold ofLine
      rw [h]
      cases inlineMember? l.text with
      | some m => rfl
      | none => cases ClassModel.composition? l.text <;> rfl

end Standalone

end ClassModel
