/-
Reading types.

A type is a word with suffixes behind it, and `TypeSuffix` describes one suffix.  What may
stand between angle brackets differs from place to place: the grammar asks only that there
is something and that no angle bracket is in it, and a text that is to survive being
written into a list asks for more.  So a type is described relative to a condition on its
suffixes, and `TypeSuffix.Readable` is the condition of the grammar.

The type parser returns exactly the types: it reads every type that is followed by neither
a word character nor a bracket, and whatever it returns is one.
-/
import ClassModel.Proofs.Diagram.Words

namespace ClassModel

/-- A suffix of a type: arguments in angle brackets, or the mark of an array. -/
inductive TypeSuffix where
  | arguments (inner : List Char)
  | array (size : List Char)
  deriving DecidableEq, Repr

namespace TypeSuffix

/-- The text of a suffix. -/
def text : TypeSuffix → List Char
  | arguments inner => '<' :: inner ++ ['>']
  | array size => '[' :: size ++ [']']

/-- A suffix as the grammar reads it. -/
def Readable : TypeSuffix → Prop
  | arguments inner => inner ≠ [] ∧ ∀ c ∈ inner, c ≠ '<' ∧ c ≠ '>'
  | array size => ∀ c ∈ size, isWordChar c = true

end TypeSuffix

/-- A word with suffixes that satisfy a condition. -/
def IsType (P : TypeSuffix → Prop) (s : List Char) : Prop :=
  ∃ (head : List Char) (suffixes : List TypeSuffix), IsWord head ∧ (∀ x ∈ suffixes, P x) ∧
    s = head ++ suffixes.flatMap TypeSuffix.text

namespace IsType

variable {P Q : TypeSuffix → Prop} {s : List Char}

theorem mono (h : ∀ x, P x → Q x) : IsType P s → IsType Q s := by
  rintro ⟨head, suffixes, hw, hs, rfl⟩
  exact ⟨head, suffixes, hw, fun x hx => h x (hs x hx), rfl⟩

theorem of_isWord (h : IsWord s) : IsType P s :=
  ⟨s, [], h, by simp, by simp⟩

theorem ne_nil : IsType P s → s ≠ [] := by
  rintro ⟨head, suffixes, hw, -, rfl⟩ h
  exact hw.ne_nil (List.append_eq_nil_iff.mp h).1

/-- Where a type stands, nothing goes on that no word begins with. -/
theorem stops (h : IsType P s) {p : Char → Bool} (hp : ∀ c, isWordChar c = true → p c = false)
    (r : List Char) : Stops p (s ++ r) := by
  obtain ⟨head, suffixes, hw, -, rfl⟩ := h
  rw [List.append_assoc]
  exact hw.stops hp _

/-- A type ends with a word character or a closing bracket. -/
theorem getLast?_eq (h : IsType P s) :
    ∃ t c, s = t ++ [c] ∧ (isWordChar c = true ∨ c = '>' ∨ c = ']') := by
  obtain ⟨head, suffixes, hw, -, rfl⟩ := h
  rcases List.eq_nil_or_concat suffixes with rfl | ⟨init, x, rfl⟩
  · have hc := hw.chars _ (List.getLast_mem hw.ne_nil)
    exact ⟨head.dropLast, head.getLast hw.ne_nil,
      by simp [List.dropLast_concat_getLast], Or.inl hc⟩
  · cases x with
    | arguments inner =>
        exact ⟨head ++ init.flatMap TypeSuffix.text ++ '<' :: inner, '>',
          by simp [TypeSuffix.text], Or.inr (Or.inl rfl)⟩
    | array size =>
        exact ⟨head ++ init.flatMap TypeSuffix.text ++ '[' :: size, ']',
          by simp [TypeSuffix.text], Or.inr (Or.inr rfl)⟩

end IsType

namespace LineParser

/-- A parser of a suffix. -/
abbrev suffix : LineParser (List Char) :=
  typeArguments <|> arrayMark

/-- Nothing goes on that a suffix begins with. -/
def opensSuffix (c : Char) : Bool :=
  c == '<' || c == '['

theorem typeArguments_append {inner r : List Char} (h : (TypeSuffix.arguments inner).Readable) :
    typeArguments ((TypeSuffix.arguments inner).text ++ r) =
      some ((TypeSuffix.arguments inner).text, r) := by
  obtain ⟨hne, hall⟩ := h
  have hrun : run1 (fun c => c != '<' && c != '>') (inner ++ '>' :: r) = some (inner, '>' :: r) :=
    run1_append hne (fun c hc => by simp [hall c hc]) (stops_cons.mpr rfl)
  simp [typeArguments, TypeSuffix.text, bind_apply, map_apply, char_cons, hrun]

theorem typeArguments_eq_none {s : List Char} (h : Stops (· == '<') s) :
    typeArguments s = none := by
  rw [typeArguments, bind_of_none (char_eq_none h)]

theorem arrayMark_append {size r : List Char} (h : (TypeSuffix.array size).Readable) :
    arrayMark ((TypeSuffix.array size).text ++ r) = some ((TypeSuffix.array size).text, r) := by
  have hclose : Stops isWordChar (']' :: r) := stops_cons.mpr rfl
  by_cases hne : size = []
  · subst hne
    simp [arrayMark, TypeSuffix.text, bind_apply, map_apply, char_cons,
      optional_eq_none (word_eq_none hclose)]
  · have hword : word (size ++ ']' :: r) = some (size, ']' :: r) := word_append ⟨hne, h⟩ hclose
    simp [arrayMark, TypeSuffix.text, bind_apply, map_apply, char_cons, optional_eq_some hword]

theorem arrayMark_eq_none {s : List Char} (h : Stops (· == '[') s) : arrayMark s = none := by
  rw [arrayMark, bind_of_none (char_eq_none h)]

theorem suffix_append {x : TypeSuffix} {r : List Char} (h : x.Readable) :
    suffix (x.text ++ r) = some (x.text, r) := by
  rw [suffix, orElse_apply]
  cases x with
  | arguments inner =>
      rw [typeArguments_append h]
      rfl
  | array size =>
      have hnone : typeArguments ((TypeSuffix.array size).text ++ r) = none :=
        typeArguments_eq_none (stops_cons.mpr rfl)
      rw [hnone, arrayMark_append h]
      rfl

theorem suffix_eq_none {s : List Char} (h : Stops opensSuffix s) : suffix s = none := by
  have hs : Stops (· == '<') s ∧ Stops (· == '[') s := by
    cases s with
    | nil => simp
    | cons c r => simpa [opensSuffix] using h
  rw [suffix, orElse_apply, typeArguments_eq_none hs.1, arrayMark_eq_none hs.2]
  rfl

/-- A suffix parser returns a suffix. -/
theorem suffix_eq_some {s t r : List Char} (h : suffix s = some (t, r)) :
    s = t ++ r ∧ ∃ x : TypeSuffix, x.Readable ∧ t = x.text := by
  rw [suffix, orElse_apply, Option.or_eq_some_iff] at h
  rcases h with h | ⟨-, h⟩
  · simp only [typeArguments, bind_apply, Option.bind_eq_some_iff, pure_apply, Option.some.injEq,
      Prod.mk.injEq] at h
    obtain ⟨⟨a, s₁⟩, ha, ⟨inner, s₂⟩, hi, ⟨b, s₃⟩, hb, rfl, rfl⟩ := h
    obtain ⟨rfl, rfl⟩ := char_eq_some_iff.mp ha
    obtain ⟨rfl, hne, hall, -⟩ := run1_eq_some hi
    obtain ⟨rfl, rfl⟩ := char_eq_some_iff.mp hb
    refine ⟨by simp, .arguments inner, ⟨hne, fun c hc => ?_⟩, by simp [TypeSuffix.text]⟩
    simpa using hall c hc
  · simp only [arrayMark, bind_apply, Option.bind_eq_some_iff, pure_apply, Option.some.injEq,
      Prod.mk.injEq] at h
    obtain ⟨⟨a, s₁⟩, ha, ⟨o, s₂⟩, ho, ⟨b, s₃⟩, hb, rfl, rfl⟩ := h
    obtain ⟨rfl, rfl⟩ := char_eq_some_iff.mp ha
    obtain ⟨rfl, rfl⟩ := char_eq_some_iff.mp hb
    rcases optional_eq_some_iff.mp ho with ⟨size, rfl, hsize⟩ | ⟨rfl, -, rfl⟩
    · obtain ⟨rfl, hw, -⟩ := word_eq_some_iff.mp hsize
      exact ⟨by simp, .array size, hw.chars, by simp [TypeSuffix.text]⟩
    · exact ⟨by simp, .array [], by simp [TypeSuffix.Readable], by simp [TypeSuffix.text]⟩

theorem suffixes_append {xs : List TypeSuffix} {r : List Char} (h : ∀ x ∈ xs, x.Readable)
    (hr : Stops opensSuffix r) :
    many suffix (xs.flatMap TypeSuffix.text ++ r) = some (xs.map TypeSuffix.text, r) := by
  induction xs with
  | nil => exact many_eq_nil (suffix_eq_none hr)
  | cons x xs ih =>
      rw [List.flatMap_cons, List.append_assoc]
      refine many_eq_cons (suffix_append (h x (by simp))) ?_ (ih fun y hy => h y (by simp [hy]))
      cases x <;> simp [TypeSuffix.text] <;> omega

theorem suffixes_eq_some {s r : List Char} {ts : List (List Char)}
    (h : many suffix s = some (ts, r)) :
    s = ts.flatten ++ r ∧ ∃ xs : List TypeSuffix, (∀ x ∈ xs, x.Readable) ∧
      ts.flatten = xs.flatMap TypeSuffix.text := by
  refine many_induct (motive := fun s ts r => s = ts.flatten ++ r ∧
    ∃ xs : List TypeSuffix, (∀ x ∈ xs, x.Readable) ∧ ts.flatten = xs.flatMap TypeSuffix.text)
    ?_ ?_ h
  · intro s _
    exact ⟨rfl, [], by simp, rfl⟩
  · rintro s t r ts u hs ⟨rfl, xs, hxs, he⟩
    obtain ⟨rfl, x, hx, rfl⟩ := suffix_eq_some hs
    refine ⟨by simp, x :: xs, ?_, by simp [he]⟩
    intro y hy
    rcases List.mem_cons.mp hy with rfl | hy
    · exact hx
    · exact hxs y hy

/-- A type is read in front of anything that neither lengthens its word nor opens a suffix. -/
theorem typeText_append {t : String} {r : List Char} (ht : IsType TypeSuffix.Readable t.toList)
    (hw : Stops isWordChar r) (hr : Stops opensSuffix r) :
    typeText (t.toList ++ r) = some (t, r) := by
  obtain ⟨head, xs, hhead, hxs, he⟩ := ht
  have hstop : Stops isWordChar (xs.flatMap TypeSuffix.text ++ r) := by
    rcases xs with _ | ⟨_ | _, xs⟩
    · exact hw
    · exact stops_cons.mpr rfl
    · exact stops_cons.mpr rfl
  rw [he, List.append_assoc, typeText, bind_of_some (word_append hhead hstop),
    bind_of_some (suffixes_append hxs hr), pure_apply, ← List.flatMap_def, ← he,
    String.ofList_toList]

/-- The type parser returns a type. -/
theorem typeText_eq_some {s r : List Char} {t : String} (h : typeText s = some (t, r)) :
    s = t.toList ++ r ∧ IsType TypeSuffix.Readable t.toList := by
  simp only [typeText, bind_apply, Option.bind_eq_some_iff, pure_apply, Option.some.injEq,
    Prod.mk.injEq] at h
  obtain ⟨⟨head, s₁⟩, hw, ⟨ts, s₂⟩, hs, rfl, rfl⟩ := h
  obtain ⟨rfl, hhead, -⟩ := word_eq_some_iff.mp hw
  obtain ⟨rfl, xs, hxs, he⟩ := suffixes_eq_some hs
  rw [String.toList_ofList]
  exact ⟨by simp, head, xs, hhead, hxs, by rw [he]⟩

/-! ### Whole lines -/

section FullLine

variable {α : Type} {p : LineParser α} {s : List Char} {a : α}

theorem fullLine_apply (s : List Char) :
    fullLine p s = (p (s.dropWhile isSpace)).bind fun x =>
      if x.2.all isSpace then some (x.1, []) else none := by
  rw [fullLine, bind_of_some (spaces_apply s)]
  rcases hp : p (s.dropWhile isSpace) with _ | ⟨a, r⟩
  · rw [bind_of_none hp]
    rfl
  · rw [bind_of_some hp, Option.bind_some, bind_of_some (spaces_apply r)]
    by_cases hr : r.all isSpace = true
    · have hnil : r.dropWhile isSpace = [] := by
        have h : (r ++ []).dropWhile isSpace = [].dropWhile isSpace :=
          List.dropWhile_append_of_pos (List.all_eq_true.mp hr)
        simpa using h
      rw [hnil, if_pos hr]
      rfl
    · rw [if_neg hr]
      rcases hd : r.dropWhile isSpace with _ | ⟨c, t⟩
      · refine absurd (List.all_eq_true.mpr fun c hc => ?_) hr
        have := run_append isSpace r
        rw [hd, List.append_nil] at this
        rw [← this] at hc
        exact of_mem_takeWhile hc
      · rfl

theorem accept_fullLine (s : List Char) :
    accept (fullLine p) s = (p (s.dropWhile isSpace)).bind fun x =>
      if x.2.all isSpace then some x.1 else none := by
  rw [accept, fullLine_apply]
  rcases p (s.dropWhile isSpace) with _ | ⟨a, r⟩
  · rfl
  · rw [Option.bind_some, Option.bind_some]
    by_cases hr : r.all isSpace = true
    · rw [if_pos hr, if_pos hr]
      rfl
    · rw [if_neg hr, if_neg hr]
      rfl

/-- A line means what its part means, if nothing but spaces is left of it. -/
theorem accept_fullLine_eq_some_iff :
    accept (fullLine p) s = some a ↔
      ∃ r, p (s.dropWhile isSpace) = some (a, r) ∧ ∀ c ∈ r, isSpace c = true := by
  rw [accept_fullLine, Option.bind_eq_some_iff]
  constructor
  · rintro ⟨⟨b, r⟩, hp, hr⟩
    by_cases hall : r.all isSpace = true
    · rw [if_pos hall] at hr
      cases hr
      exact ⟨r, hp, List.all_eq_true.mp hall⟩
    · rw [if_neg hall] at hr
      cases hr
  · rintro ⟨r, hp, hr⟩
    exact ⟨(a, r), hp, if_pos (List.all_eq_true.mpr hr)⟩

theorem accept_fullLine_eq_none (h : p (s.dropWhile isSpace) = none) :
    accept (fullLine p) s = none := by
  rw [accept_fullLine, h]
  rfl

/-- A line means nothing if something other than spaces is left of it. -/
theorem accept_fullLine_eq_none_of_rest {c : Char} {r : List Char}
    (h : p (s.dropWhile isSpace) = some (a, r)) (hc : c ∈ r) (hs : isSpace c = false) :
    accept (fullLine p) s = none := by
  rw [accept_fullLine, h, Option.bind_some, if_neg]
  intro hall
  rw [List.all_eq_true.mp hall c hc] at hs
  cases hs

end FullLine

end LineParser

end ClassModel
