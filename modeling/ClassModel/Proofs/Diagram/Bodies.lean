/-
Finding the end of a body.

Where a body ends depends on nothing but its braces.  `openDepth` follows them through a
text and says how many are left open, unless one of them closes the body.  It takes texts
one behind the other, so the depth behind a line follows from the depth in front of it, and
a body of several lines ends where it should exactly if its braces, all taken together, are
balanced.

The braces of a written member are the braces of its types.
-/
import ClassModel.Diagram.Body
import ClassModel.Proofs.Diagram.Members

namespace ClassModel

/-! ### Braces -/

/-- A brace of either kind. -/
def isBrace (c : Char) : Bool :=
  c == '\x7b' || c == '\x7d'

/-- The braces of a text. -/
def braces (s : List Char) : List Char :=
  s.filter isBrace

@[simp]
theorem braces_nil : braces [] = [] := rfl

@[simp]
theorem braces_append (s t : List Char) : braces (s ++ t) = braces s ++ braces t :=
  List.filter_append s t

theorem braces_cons_of_not {c : Char} (h : isBrace c = false) (s : List Char) :
    braces (c :: s) = braces s :=
  List.filter_cons_of_neg (by simp [h])

theorem isBrace_of_isWordChar {c : Char} (h : isWordChar c = true) : isBrace c = false := by
  rw [isBrace, beq_false_of_isWordChar h (by decide), beq_false_of_isWordChar h (by decide)]
  rfl

theorem braces_of_forall {s : List Char} (h : ∀ c ∈ s, isBrace c = false) : braces s = [] :=
  List.filter_eq_nil_iff.mpr fun c hc => by simp [h c hc]

theorem braces_of_isWord {w : List Char} (h : IsWord w) : braces w = [] :=
  braces_of_forall fun c hc => isBrace_of_isWordChar (h.chars c hc)

/-- The braces that are open behind a text, unless the text closes the body. -/
def openDepth (inner : Nat) (s : List Char) : Option Nat :=
  match scanBraces inner s with
  | .closed _ => none
  | .stillOpen depth => some depth

theorem openDepth_eq_some_iff {inner depth : Nat} {s : List Char} :
    openDepth inner s = some depth ↔ scanBraces inner s = .stillOpen depth := by
  unfold openDepth
  cases scanBraces inner s <;> simp

@[simp]
theorem openDepth_nil (inner : Nat) : openDepth inner [] = some inner :=
  openDepth_eq_some_iff.mpr (scanBraces_nil inner)

/-- Putting a character in front of the text of a scan changes no depth. -/
theorem openDepth_cons (inner : Nat) (c : Char) (s : List Char) :
    openDepth inner (c :: s) =
      if c = '\x7d' ∧ inner = 0 then none
      else openDepth (if c = '\x7b' then inner + 1 else if c = '\x7d' then inner - 1 else inner) s := by
  rw [openDepth, scanBraces_cons]
  by_cases hc : c = '\x7d' ∧ inner = 0
  · rw [if_pos hc, if_pos hc]
  · rw [if_neg hc, if_neg hc, openDepth]
    cases scanBraces _ s <;> rfl

theorem openDepth_append (inner : Nat) (s t : List Char) :
    openDepth inner (s ++ t) = (openDepth inner s).bind fun depth => openDepth depth t := by
  induction s generalizing inner with
  | nil => rw [List.nil_append, openDepth_nil, Option.bind_some]
  | cons c r ih =>
      rw [List.cons_append, openDepth_cons, openDepth_cons]
      split
      · rfl
      · exact ih _

/-- Nothing but its braces decides where a body ends. -/
theorem openDepth_braces (inner : Nat) (s : List Char) :
    openDepth inner (braces s) = openDepth inner s := by
  induction s generalizing inner with
  | nil => rfl
  | cons c r ih =>
      by_cases hc : isBrace c = true
      · rw [braces, List.filter_cons_of_pos hc, openDepth_cons, openDepth_cons]
        split
        · rfl
        · exact ih _
      · have hne : c ≠ '\x7b' ∧ c ≠ '\x7d' := by simpa [isBrace] using hc
        rw [braces_cons_of_not (by simpa using hc), openDepth_cons, if_neg fun h => hne.2 h.1,
          if_neg hne.1, if_neg hne.2]
        exact ih inner

theorem openDepth_congr {s t : List Char} (h : braces s = braces t) (inner : Nat) :
    openDepth inner s = openDepth inner t := by
  rw [← openDepth_braces, h, openDepth_braces]

/-! ### Gathering a body -/

/-- A line that consists of a closing brace. -/
def closingLine : Line :=
  { text := ['\x7d'] }

theorem gatherBody_of_closed {inner : Nat} {line : Line} {before : List Char}
    (h : scanBraces inner line.text = .closed before) (following : List Line) :
    gatherBody inner line following = some ([{ line with text := before }], following) := by
  cases following <;> rw [gatherBody, h]

theorem gatherBody_of_stillOpen {inner depth : Nat} {line : Line}
    (h : scanBraces inner line.text = .stillOpen depth) (next : Line) (rest : List Line) :
    gatherBody inner line (next :: rest) =
      (gatherBody depth next rest).map fun x => (line :: x.1, x.2) := by
  rw [gatherBody, h]

/-- **A body whose braces are balanced ends at its closing line.** -/
theorem gatherBody_closingLine {inner : Nat} {line : Line} {ls : List Line}
    (h : openDepth inner ((line :: ls).flatMap Line.text) = some 0) (after : List Line) :
    gatherBody inner line (ls ++ closingLine :: after) =
      some (line :: (ls ++ [{ text := [] }]), after) := by
  induction ls generalizing inner line with
  | nil =>
      rw [List.flatMap_cons, List.flatMap_nil, List.append_nil] at h
      have hclose : scanBraces 0 closingLine.text = .closed [] := rfl
      rw [List.nil_append, gatherBody_of_stillOpen (openDepth_eq_some_iff.mp h),
        gatherBody_of_closed hclose]
      rfl
  | cons next ls ih =>
      rw [List.flatMap_cons, openDepth_append, Option.bind_eq_some_iff] at h
      obtain ⟨depth, hline, hrest⟩ := h
      rw [List.cons_append, gatherBody_of_stillOpen (openDepth_eq_some_iff.mp hline), ih hrest]
      rfl

/-! ### The braces of members -/

/-- The texts of the types of a method, one behind the other. -/
def Method.typesText (m : Method) : List Char :=
  m.returnType.toList ++ m.parameters.flatMap fun p => p.type.toList

theorem braces_modifierGap (b : Bool) : braces (modifierGap b) = [] := by
  cases b <;> rfl

theorem isBrace_marker (v : Visibility) : isBrace v.marker = false := by
  cases v <;> rfl

theorem braces_attributeText {a : Attribute} (hname : IsWord a.name.toList) :
    braces (attributeText a) = braces a.type.toList := by
  rw [attributeText, braces_cons_of_not rfl, braces_cons_of_not (isBrace_marker _), braces_append,
    braces_modifierGap, braces_append, braces_cons_of_not rfl, braces_of_isWord hname]
  exact List.append_nil _

theorem braces_parametersText {ps : List Parameter} (hname : ∀ p ∈ ps, IsWord p.name.toList) :
    braces (parametersText ps) = braces (ps.flatMap fun p => p.type.toList) := by
  have hone : ∀ p ∈ ps, braces (Diagram.parameter p).toList = braces p.type.toList := by
    intro p hp
    rw [toList_parameter, braces_append, braces_of_isWord (hname p hp), braces_cons_of_not rfl,
      braces_cons_of_not rfl, braces_cons_of_not rfl, List.nil_append]
  induction ps with
  | nil => rfl
  | cons p ps ih =>
      have hrest := ih (fun q hq => hname q (by simp [hq])) (fun q hq => hone q (by simp [hq]))
      rw [List.flatMap_cons, braces_append, ← hrest, ← hone p (by simp)]
      cases ps with
      | nil => simp [parametersText]
      | cons q r =>
          have hcomma : braces [',', ' '] = [] := rfl
          simp only [parametersText, List.map_cons, List.intercalate_cons_cons, braces_append, hcomma,
            List.append_nil]

/-- The braces of a method line are the braces of its types. -/
theorem braces_methodText {m : Method} (hm : m.Writable) :
    braces (methodText m) = braces m.typesText := by
  have hmark : braces (if m.isAbstract then "abstract".toList ++ [' '] else []) = [] := by
    cases m.isAbstract <;> rfl
  rw [methodText, braces_cons_of_not rfl, braces_cons_of_not (isBrace_marker _), braces_append,
    braces_modifierGap, methodRest, braces_append, hmark, braces_append, braces_cons_of_not rfl,
    signatureText, braces_append, braces_of_isWord hm.name, braces_cons_of_not rfl, braces_append,
    braces_parametersText hm.parameterName, Method.typesText, braces_append, List.nil_append,
    List.nil_append, List.nil_append]
  exact congrArg _ (List.append_nil _)

end ClassModel
