/-
Which class gets the field.

A composition has a diamond at the class that owns the other one.  The grammar of lines reads
the operator and keeps its text, and when the association becomes a field that text is looked
at again: dashes with a diamond behind them, anywhere in it, mean that the right class is the
owner.

The two agree.  In an operator that was read the diamond stands on one side of the dashes.  If
it stands behind them it is found.  If it stands in front of them, then behind them there is
an arrow head or nothing at all, so however many dashes there are, nothing is found.
-/
import ClassModel.Proofs.Diagram.RelationTexts
import ClassModel.Proofs.Schema.Fields

namespace ClassModel

namespace Schema

/-! ### The search in a text -/

/-- The text contains one or more dashes with a diamond directly behind them. -/
def HoldsDashedDiamond (s : List Char) : Prop :=
  ∃ dashes mark, IsDashes dashes ∧ (mark = '*' ∨ mark = 'o') ∧ dashes ++ [mark] <:+: s

/-- A dash in front is followed by dashes and a diamond, or the rest contains them. -/
theorem endsInDiamond_cons {c : Char} {r : List Char} :
    endsInDiamond (c :: r) = true ↔
      (c = '-' ∧ ∃ mark ∈ (r.dropWhile (· == '-')).head?, mark = '*' ∨ mark = 'o') ∨
        endsInDiamond r = true := by
  rw [endsInDiamond]
  cases r.dropWhile (· == '-') <;> simp

/-- A text begins with dashes and a diamond if its first character is a dash and the first
other one a diamond. -/
theorem exists_dashes_prefix_iff {c : Char} {r : List Char} :
    (∃ dashes mark, IsDashes dashes ∧ (mark = '*' ∨ mark = 'o') ∧ dashes ++ [mark] <+: c :: r) ↔
      c = '-' ∧ ∃ mark ∈ (r.dropWhile (· == '-')).head?, mark = '*' ∨ mark = 'o' := by
  constructor
  · rintro ⟨dashes, mark, hdashes, hmark, t, ht⟩
    obtain ⟨ds, rfl⟩ := hdashes.exists_cons
    obtain ⟨rfl, rfl⟩ := List.cons.inj ht
    have hstop : Stops (· == '-') ([mark] ++ t) :=
      stops_cons.mpr (by rcases hmark with rfl | rfl <;> rfl)
    have hds : ∀ d ∈ ds, (d == '-') = true := fun d hd =>
      hdashes.chars d (List.mem_cons_of_mem _ hd)
    refine ⟨rfl, mark, ?_, hmark⟩
    show mark ∈ (List.dropWhile _ (ds ++ [mark] ++ t)).head?
    rw [List.append_assoc, dropWhile_append_of_stops hds hstop]
    rfl
  · rintro ⟨rfl, mark, hhead, hmark⟩
    obtain ⟨t, ht⟩ := List.head?_eq_some_iff.mp hhead
    refine ⟨'-' :: r.takeWhile (· == '-'), mark, ⟨by simp, ?_⟩, hmark, t, ?_⟩
    · intro d hd
      rcases List.mem_cons.mp hd with rfl | hd
      · rfl
      · exact of_mem_takeWhile (p := (· == '-')) hd
    · have hr := LineParser.run_append (· == '-') r
      rw [ht] at hr
      simpa using hr

/-- **The search finds dashes and a diamond behind them wherever they stand.** -/
theorem endsInDiamond_iff (s : List Char) : endsInDiamond s = true ↔ HoldsDashedDiamond s := by
  induction s with
  | nil =>
      refine ⟨fun h => absurd h (by decide), ?_⟩
      rintro ⟨dashes, mark, -, -, h⟩
      exact absurd (List.infix_nil.mp h) (by simp)
  | cons c r ih =>
      rw [endsInDiamond_cons, ih, ← exists_dashes_prefix_iff]
      constructor
      · rintro (⟨dashes, mark, hdashes, hmark, h⟩ | ⟨dashes, mark, hdashes, hmark, h⟩)
        · exact ⟨dashes, mark, hdashes, hmark, h.isInfix⟩
        · exact ⟨dashes, mark, hdashes, hmark, List.infix_cons h⟩
      · rintro ⟨dashes, mark, hdashes, hmark, h⟩
        rcases List.infix_cons_iff.mp h with h | h
        · exact Or.inl ⟨dashes, mark, hdashes, hmark, h⟩
        · exact Or.inr ⟨dashes, mark, hdashes, hmark, h⟩

/-! ### The search in an operator -/

/-- In dashes the search finds what stands directly behind them, and otherwise goes on there. -/
theorem endsInDiamond_dashes_append {dashes r : List Char}
    (hdashes : ∀ c ∈ dashes, (c == '-') = true) (hr : Stops (· == '-') r) :
    endsInDiamond (dashes ++ r) = true ↔
      (dashes ≠ [] ∧ ∃ mark ∈ r.head?, mark = '*' ∨ mark = 'o') ∨ endsInDiamond r = true := by
  induction dashes with
  | nil => simp
  | cons c dashes ih =>
      have hrest : ∀ d ∈ dashes, (d == '-') = true := fun d hd =>
        hdashes d (List.mem_cons_of_mem _ hd)
      obtain rfl := eq_of_beq (hdashes c List.mem_cons_self)
      rw [List.cons_append, endsInDiamond_cons, dropWhile_append_of_stops hrest hr, ih hrest]
      by_cases hnil : dashes = [] <;> simp [hnil]

/-- Dashes with an arrow head or nothing behind them. -/
def IsPlainOperator (w : List Char) : Prop :=
  ∃ (dashes : List Char) (head : Option Char), IsDashes dashes ∧ (∀ c ∈ head, c = '>') ∧
    w = dashes ++ head.toList

/-- Nothing is found in dashes and an arrow head. -/
theorem IsPlainOperator.endsInDiamond {w : List Char} (h : IsPlainOperator w) :
    endsInDiamond w = false := by
  obtain ⟨dashes, head, hdashes, hhead, rfl⟩ := h
  have hstop : Stops (· == '-') head.toList := by
    have := stops_dash_of_mem hhead rfl (stops_nil (· == '-'))
    rwa [List.append_nil] at this
  rw [← Bool.not_eq_true, endsInDiamond_dashes_append hdashes.chars hstop]
  cases head with
  | none => simp [Schema.endsInDiamond]
  | some c =>
      obtain rfl := hhead c rfl
      have hhead : ¬Schema.endsInDiamond ['>'] = true := by decide
      simp [hhead]

theorem isPlainOperator_of_isDashes {w : List Char} (h : IsDashes w) : IsPlainOperator w :=
  ⟨w, none, h, by simp, by simp⟩

/-- An operator begins with a diamond. -/
def BeginsInDiamond (w : List Char) : Prop :=
  ∃ mark ∈ w.head?, mark = '*' ∨ mark = 'o'

/-- An operator has a diamond behind its dashes. -/
def ClosesInDiamond (w : List Char) : Prop :=
  ∃ mark ∈ w.getLast?, mark = '*' ∨ mark = 'o'

/-- **In the operator of a composition a diamond is found exactly if it is not in front.** -/
theorem endsInDiamond_operator {w : List Char} (h : IsCompositionOperator w) :
    (BeginsInDiamond w ∧ ¬ClosesInDiamond w ∧ endsInDiamond w = false) ∨
      (ClosesInDiamond w ∧ ¬BeginsInDiamond w ∧ endsInDiamond w = true) := by
  cases h with
  | @left mark dashes head hmark hdashes hhead =>
      refine Or.inl ⟨⟨mark, rfl, hmark⟩, ?_, ?_⟩
      · rintro ⟨last, hlast, hdiamond⟩
        obtain ⟨t, rfl⟩ := hdashes.exists_cons
        cases head with
        | none =>
            rw [Option.toList_none, List.append_nil, List.getLast?_cons_cons] at hlast
            obtain rfl := eq_of_beq (hdashes.chars last (List.mem_of_getLast? hlast))
            exact absurd hdiamond (by decide)
        | some c =>
            obtain rfl := hhead c rfl
            have hend : (mark :: '-' :: t ++ ['>']).getLast? = some '>' := List.getLast?_concat
            obtain rfl : '>' = last := Option.some.inj (hend.symm.trans hlast)
            exact absurd hdiamond (by decide)
      · have hplain : IsPlainOperator (dashes ++ head.toList) := ⟨dashes, head, hdashes, hhead, rfl⟩
        have hnone := hplain.endsInDiamond
        rw [← Bool.not_eq_true, endsInDiamond_cons, hnone]
        rcases hmark with rfl | rfl <;> simp
  | @right head dashes mark hhead hdashes hmark =>
      refine Or.inr ⟨⟨mark, by simp, hmark⟩, ?_, ?_⟩
      · rintro ⟨first, hfirst, hdiamond⟩
        obtain ⟨t, rfl⟩ := hdashes.exists_cons
        cases head with
        | none =>
            obtain rfl : '-' = first := Option.some.inj hfirst
            exact absurd hdiamond (by decide)
        | some c =>
            obtain rfl := hhead c rfl
            obtain rfl : '<' = first := Option.some.inj hfirst
            exact absurd hdiamond (by decide)
      · rw [endsInDiamond_iff]
        exact ⟨dashes, mark, hdashes, hmark, head.toList, [], by simp⟩

end Schema

/-! ### The side of the diamond -/

open Schema

/-- The field for an association goes to the class of a name and has the type of the other
end. -/
structure Model.FoldsInto (m : Model) (a : Association) (owner target : String) : Prop where
  /-- When the turn of the association comes, the class gets the field, nothing else changes
  and nothing is reported. -/
  step : m.foldAssociation a =
    pure (m.addClassAttribute owner { name := a.label, type := target })
  /-- When all associations are folded the field is there, unless a later association of the
  same owner and label has put its own in its place. -/
  run : ∀ before after, m.associations = before ++ a :: after →
    (∀ b ∈ after, b.place ≠ ⟨owner, a.label⟩) →
      m.folded.field? ⟨owner, a.label⟩ = some { name := a.label, type := target }

namespace Model

variable {m : Model} {a : Association}

/-- The field goes to the owner, if that is a class. -/
theorem foldsInto_owner (h : (m.class? a.owner).isSome) : m.FoldsInto a a.owner a.target where
  step := by
    unfold foldAssociation addAttribute?
    rw [if_pos h]
    rfl
  run := by
    intro before after hassociations hlast
    obtain ⟨b, hfind, hplace, hb⟩ := OrderedMap.exists_findRev?_append_cons
      (p := fun b : Association => decide (b.place = ⟨a.owner, a.label⟩)) (v := a) before after
      (decide_eq_true rfl)
    have hba : b = a := hb.resolve_right fun hmem =>
      hlast b hmem (of_decide_eq_true hplace)
    rw [field?_folded (p := ⟨a.owner, a.label⟩) h, hassociations, hfind, hba]
    rfl

theorem foldsInto_left (hnone : a.ownedByRight = false) (h : (m.class? a.left).isSome) :
    m.FoldsInto a a.left a.right := by
  have howner : a.owner = a.left := by rw [Association.owner, hnone]; rfl
  have htarget : a.target = a.right := by rw [Association.target, hnone]; rfl
  have hfolds := foldsInto_owner (m := m) (a := a) (by rw [howner]; exact h)
  rwa [howner, htarget] at hfolds

theorem foldsInto_right (hfound : a.ownedByRight = true) (h : (m.class? a.right).isSome) :
    m.FoldsInto a a.right a.left := by
  have howner : a.owner = a.right := by rw [Association.owner, hfound]; rfl
  have htarget : a.target = a.left := by rw [Association.target, hfound]; rfl
  have hfolds := foldsInto_owner (m := m) (a := a) (by rw [howner]; exact h)
  rwa [howner, htarget] at hfolds

end Model

/-- **The field for a composition goes to the class at the diamond.**  The search for a diamond
behind dashes finds exactly the texts that contain one.  So of the classes on a composition line
the one at the diamond gets the field, and the left one does for every association without a
diamond. -/
theorem foldsInto_side_of_diamond :
    (∀ s : String, endsInDiamond s.toList = true ↔ HoldsDashedDiamond s.toList) ∧
    (∀ (line : List Char) (r : Relation), composition? line = some r →
      ∃ x : RelationText, x.Spells IsCompositionOperator line ∧ r = x.relation String.ofList ∧
        ∀ m : Model, (m.class? r.left).isSome → (m.class? r.right).isSome →
          (BeginsInDiamond x.operator ∧ ¬ClosesInDiamond x.operator ∧
              m.FoldsInto r.association r.left r.right) ∨
            (ClosesInDiamond x.operator ∧ ¬BeginsInDiamond x.operator ∧
              m.FoldsInto r.association r.right r.left)) ∧
    (∀ (line : List Char) (r : Relation), plainAssociation? line = some r →
      ∀ m : Model, (m.class? r.left).isSome → m.FoldsInto r.association r.left r.right) ∧
    ∀ a : Association, IsPlainOperator a.separator.toList →
      ∀ m : Model, (m.class? a.left).isSome → m.FoldsInto a a.left a.right := by
  refine ⟨fun s => endsInDiamond_iff s.toList, ?_, ?_, ?_⟩
  · intro line r hr
    obtain ⟨x, hx, rfl⟩ := exists_spells_of_accept readsOperators_composition hr
    refine ⟨x, hx, rfl, fun m hleft hright => ?_⟩
    have hoperator : (x.relation String.ofList).association.ownedByRight =
        endsInDiamond x.operator := by
      show endsInDiamond (String.ofList x.operator).toList = _
      rw [String.toList_ofList]
    refine (endsInDiamond_operator hx.operator).imp ?_ ?_
    · rintro ⟨hbegins, hcloses, hnone⟩
      exact ⟨hbegins, hcloses, Model.foldsInto_left (hoperator.trans hnone) hleft⟩
    · rintro ⟨hcloses, hbegins, hfound⟩
      exact ⟨hcloses, hbegins, Model.foldsInto_right (hoperator.trans hfound) hright⟩
  · intro line r hr m hleft
    obtain ⟨x, hx, rfl⟩ := exists_spells_of_accept readsOperators_plain hr
    have hdashes : IsDashes "--".toList := by decide
    exact Model.foldsInto_left (isPlainOperator_of_isDashes hdashes).endsInDiamond hleft
  · intro a ha m hleft
    exact Model.foldsInto_left ha.endsInDiamond hleft

/-- A wheel that is owned by its car, with a long operator. -/
def rimLine : List Char :=
  "Wheel <---o Car : wheels".toList

/-- A car and the wheel next to it. -/
def trackLine : List Char :=
  "Car --- Wheel : track".toList

/-- The classes of the two lines, with a field that the first line writes over. -/
def rimModel : Model :=
  Model.empty
    |>.addClass { name := "Wheel" }
    |>.addClass (Class.addAttribute { name := "Car" } { name := "wheels", type := "int" })
    |>.addAssociation { left := "Wheel", right := "Car", separator := "<---o", label := "wheels" }

theorem foldsInto_side_of_diamond_rimModel :
    (∃ r, composition? rimLine = some r ∧ (rimModel.class? r.left).isSome ∧
      (rimModel.class? r.right).isSome ∧ rimModel.FoldsInto r.association "Car" "Wheel") ∧
    (∃ r, plainAssociation? trackLine = some r ∧ (rimModel.class? r.left).isSome ∧
      rimModel.FoldsInto r.association "Car" "Wheel") ∧
    IsPlainOperator "-->".toList ∧ (rimModel.class? "Wheel").isSome ∧
      rimModel.FoldsInto { left := "Wheel", right := "Hub", separator := "-->" } "Wheel" "Hub" := by
  obtain ⟨-, hcomposition, hplain, harrow⟩ := foldsInto_side_of_diamond
  refine ⟨?_, ?_, ?_⟩
  · have hr : composition? rimLine = some
        { left := "Wheel", leftMultiplicity := none, separator := "<---o",
          rightMultiplicity := none, right := "Car", label := some "wheels" } := by
      decide +kernel
    have hleft : (rimModel.class? "Wheel").isSome := by decide
    have hright : (rimModel.class? "Car").isSome := by decide
    obtain ⟨x, hx, hrx, hsides⟩ := hcomposition rimLine _ hr
    have hseparator : String.ofList x.operator = "<---o" :=
      (congrArg Relation.separator hrx).symm
    have hoperator : x.operator = "<---o".toList := by
      rw [← hseparator, String.toList_ofList]
    refine ⟨_, hr, hleft, hright, ?_⟩
    rcases hsides rimModel hleft hright with ⟨⟨mark, hmark, hdiamond⟩, -, -⟩ | ⟨-, -, hfolds⟩
    · rw [hoperator] at hmark
      obtain rfl : '<' = mark := Option.some.inj hmark
      exact absurd hdiamond (by decide)
    · exact hfolds
  · have hr : plainAssociation? trackLine = some
        { left := "Car", leftMultiplicity := none, separator := "--", rightMultiplicity := none,
          right := "Wheel", label := some "track" } := by
      decide +kernel
    have hleft : (rimModel.class? "Car").isSome := by decide
    exact ⟨_, hr, hleft, hplain trackLine _ hr rimModel hleft⟩
  · have hoperator : IsPlainOperator "-->".toList :=
      ⟨"--".toList, some '>', by decide, by simp, rfl⟩
    have hleft : (rimModel.class? "Wheel").isSome := by decide
    exact ⟨hoperator, hleft, harrow _ hoperator rimModel hleft⟩

end ClassModel
