/-
Attribute lines of source types.

What stands between angle brackets is taken by a diagram as it is, but only up to the next
angle bracket.  So of a type whose arguments have arguments themselves it reads the name and
no more, and the line of an attribute with such a type is no member at all.  Of any other type
it reads the whole text.

Which of the two it is shows at the first angle bracket between the outer ones.  The text of
a type begins with a name, so if there is one it opens.
-/
import ClassModel.Proofs.Diagram.Drawable
import ClassModel.Proofs.Source.Drawn

namespace ClassModel

open LineParser

namespace Source

/-! ### Types whose arguments have none -/

/-- A segment without arguments. -/
def TypeSegment.isPlain : TypeSegment → Bool
  | .plain _ => true
  | .applied _ _ => false

/-- An argument without arguments of its own. -/
def TypeArgument.isPlain : TypeArgument → Bool
  | .type (.reference segments _) => segments.all TypeSegment.isPlain
  | .type (.primitive _ _) => true
  | .wildcard => true

/-- A segment whose arguments have none of their own. -/
def TypeSegment.isFlat : TypeSegment → Bool
  | .plain _ => true
  | .applied _ arguments => arguments.all TypeArgument.isPlain

/-- A type whose arguments have none of their own. -/
def TypeExpr.isFlat : TypeExpr → Bool
  | .primitive _ _ => true
  | .reference segments _ => segments.all TypeSegment.isFlat

mutual

/-- A type whose class types have one segment each, and no angle brackets without arguments. -/
def TypeExpr.isSimple : TypeExpr → Bool
  | .primitive _ _ => true
  | .reference segments _ => simpleSegments segments

/-- A single segment that is simple. -/
def simpleSegments : List TypeSegment → Bool
  | [s] => s.isSimple
  | _ => false

/-- A segment with simple arguments, if there are angle brackets. -/
def TypeSegment.isSimple : TypeSegment → Bool
  | .plain _ => true
  | .applied _ arguments => !arguments.isEmpty && simpleArguments arguments

/-- Arguments that are simple. -/
def simpleArguments : List TypeArgument → Bool
  | [] => true
  | a :: r => a.isSimple && simpleArguments r

/-- An argument that is simple. -/
def TypeArgument.isSimple : TypeArgument → Bool
  | .type t => t.isSimple
  | .wildcard => true

end

/-- Names that a diagram takes for words. -/
def Wordy (names : List String) : Prop :=
  ∀ w ∈ names, IsWord w.toList

/-! ### The first angle bracket -/

/-- An angle bracket. -/
def isAngle (c : Char) : Bool :=
  c == '<' || c == '>'

/-- The angle bracket that a text without another kind of part begins with. -/
def firstAngle (isPlain : Bool) : Option Char :=
  if isPlain then none else some '<'

theorem firstAngle_or (b c : Bool) : (firstAngle b).or (firstAngle c) = firstAngle (b && c) := by
  cases b <;> rfl

theorem find?_isAngle_word {w : List Char} (hw : IsWord w) : w.find? isAngle = none := by
  refine List.find?_eq_none.mpr fun c hc => ?_
  have hword := hw.chars c hc
  simp [isAngle, ne_of_isWordChar hword (d := '<') (by decide),
    ne_of_isWordChar hword (d := '>') (by decide)]

theorem toList_dimsText (n : Nat) :
    (dimsText n).toList = (List.replicate n (TypeSuffix.array [])).flatMap TypeSuffix.text := by
  induction n with
  | zero => rfl
  | succ n ih =>
      rw [dimsText, String.toList_append, ih, List.replicate_succ, List.flatMap_cons]
      rfl

theorem find?_isAngle_dimsText (n : Nat) : (dimsText n).toList.find? isAngle = none := by
  induction n with
  | zero => rfl
  | succ n ih =>
      rw [dimsText, String.toList_append, List.find?_append, ih]
      rfl

theorem TypeSegment.find?_isAngle_text {s : TypeSegment} (hs : Wordy s.identifiers) :
    s.text.toList.find? isAngle = firstAngle s.isPlain := by
  cases s with
  | plain name =>
      rw [TypeSegment.identifiers] at hs
      rw [TypeSegment.text]
      exact find?_isAngle_word (hs name (by simp))
  | applied name arguments =>
      rw [TypeSegment.identifiers] at hs
      rw [TypeSegment.text, String.toList_append, String.toList_append, String.toList_append,
        List.append_assoc, List.append_assoc, List.find?_append,
        find?_isAngle_word (hs name (by simp))]
      rfl

theorem find?_isAngle_classTypeText {segments : List TypeSegment}
    (h : Wordy (segmentsIdentifiers segments)) :
    (classTypeText segments).toList.find? isAngle = firstAngle (segments.all TypeSegment.isPlain) := by
  have hmore : ∀ r : List TypeSegment, Wordy (segmentsIdentifiers r) →
      (segmentsText r).toList.find? isAngle = firstAngle (r.all TypeSegment.isPlain) := by
    intro r hr
    induction r with
    | nil =>
        rw [segmentsText]
        rfl
    | cons s r ih =>
        rw [segmentsIdentifiers] at hr
        obtain ⟨hs, hr⟩ := List.forall_mem_append.mp hr
        have hdot : ".".toList.find? isAngle = none := by decide
        rw [segmentsText, String.toList_append, String.toList_append, List.find?_append,
          List.find?_append, hdot, s.find?_isAngle_text hs, ih hr, Option.none_or, firstAngle_or,
          List.all_cons]
  cases segments with
  | nil =>
      rw [classTypeText]
      rfl
  | cons s r =>
      rw [segmentsIdentifiers] at h
      obtain ⟨hs, hr⟩ := List.forall_mem_append.mp h
      rw [classTypeText, String.toList_append, List.find?_append, s.find?_isAngle_text hs, hmore r hr,
        firstAngle_or, List.all_cons]

theorem TypeArgument.find?_isAngle_text {a : TypeArgument} (ha : Wordy a.identifiers) :
    a.text.toList.find? isAngle = firstAngle a.isPlain := by
  cases a with
  | wildcard =>
      rw [TypeArgument.text]
      decide
  | type t =>
      rw [TypeArgument.identifiers] at ha
      rw [TypeArgument.text]
      cases t with
      | primitive name dims =>
          rw [TypeExpr.identifiers] at ha
          rw [TypeExpr.text, String.toList_append, List.find?_append,
            find?_isAngle_word (ha name (by simp)), find?_isAngle_dimsText]
          rfl
      | reference segments dims =>
          rw [TypeExpr.identifiers] at ha
          rw [TypeExpr.text, String.toList_append, List.find?_append,
            find?_isAngle_classTypeText ha, find?_isAngle_dimsText, Option.or_none]
          rfl

/-- The first angle bracket among arguments is the one of the first argument that has some. -/
theorem find?_isAngle_argumentsText {arguments : List TypeArgument}
    (h : Wordy (argumentsIdentifiers arguments)) :
    (argumentsText arguments).toList.find? isAngle =
      firstAngle (arguments.all TypeArgument.isPlain) := by
  have hmore : ∀ r : List TypeArgument, Wordy (argumentsIdentifiers r) →
      (moreArgumentsText r).toList.find? isAngle = firstAngle (r.all TypeArgument.isPlain) := by
    intro r hr
    induction r with
    | nil =>
        rw [moreArgumentsText]
        rfl
    | cons a r ih =>
        rw [argumentsIdentifiers] at hr
        obtain ⟨ha, hr⟩ := List.forall_mem_append.mp hr
        have hcomma : ", ".toList.find? isAngle = none := by decide
        rw [moreArgumentsText, String.toList_append, String.toList_append, List.find?_append,
          List.find?_append, hcomma, a.find?_isAngle_text ha, ih hr, Option.none_or, firstAngle_or,
          List.all_cons]
  cases arguments with
  | nil =>
      rw [argumentsText]
      rfl
  | cons a r =>
      rw [argumentsIdentifiers] at h
      obtain ⟨ha, hr⟩ := List.forall_mem_append.mp h
      rw [argumentsText, String.toList_append, List.find?_append, a.find?_isAngle_text ha, hmore r hr,
        firstAngle_or, List.all_cons]

end Source

/-! ### Arguments of a diagram -/

namespace LineParser

/-- Between angle brackets no other one opens. -/
theorem typeArguments_eq_none_of_find? {inner : List Char} (h : inner.find? Source.isAngle = some '<')
    (r : List Char) : typeArguments ('<' :: (inner ++ r)) = none := by
  obtain ⟨-, x, y, rfl, hx⟩ := List.find?_eq_some_iff_append.mp h
  have hplain : ∀ c ∈ x, (c != '<' && c != '>') = true := by
    intro c hc
    simpa [Source.isAngle] using hx c hc
  have hstop : Stops (fun c => c != '<' && c != '>') ('<' :: (y ++ r)) := stops_cons.mpr rfl
  have hclose : char '>' ('<' :: (y ++ r)) = none := char_eq_none (stops_cons.mpr rfl)
  rw [typeArguments, bind_of_some (char_cons '<' _), List.append_assoc, List.cons_append]
  by_cases hne : x = []
  · rw [hne, List.nil_append, bind_of_none (run1_eq_none hstop)]
  · rw [bind_of_some (run1_append hne hplain hstop), bind_of_none hclose]

/-- A type is read up to arguments that are not. -/
theorem typeText_of_typeArguments_eq_none {head r : List Char} (hhead : IsWord head)
    (h : typeArguments ('<' :: r) = none) :
    typeText (head ++ '<' :: r) = some (String.ofList head, '<' :: r) := by
  have hsuffix : suffix ('<' :: r) = none := by
    rw [suffix, orElse_apply, h, arrayMark_eq_none (stops_cons.mpr rfl)]
    rfl
  rw [typeText, bind_of_some (word_append hhead (stops_cons.mpr (by decide))),
    bind_of_some (many_eq_nil hsuffix), pure_apply, List.flatten_nil, List.append_nil]

end LineParser

namespace Source

/-! ### The text of a type in a diagram -/

section Lines

variable {t : TypeExpr}

/-- A simple class type has one segment. -/
theorem exists_segment_of_simple {segments : List TypeSegment} (h : simpleSegments segments = true) :
    ∃ s, segments = [s] ∧ s.isSimple = true := by
  match segments, h with
  | [s], h => exact ⟨s, rfl, by rwa [simpleSegments] at h⟩

theorem segmentsIdentifiers_singleton (s : TypeSegment) :
    segmentsIdentifiers [s] = s.identifiers := by
  rw [segmentsIdentifiers, segmentsIdentifiers, List.append_nil]

/-- The text of a simple type is a word with suffixes: arguments, if the type has some, and a
mark for each dimension. -/
theorem exists_suffixes (hwords : Wordy t.identifiers) (hsimple : t.isSimple = true) :
    ∃ (head : List Char) (suffixes : List TypeSuffix) (n : Nat), IsWord head ∧
      t.text.toList =
        head ++ (suffixes ++ List.replicate n (TypeSuffix.array [])).flatMap TypeSuffix.text ∧
      (suffixes = [] ∧ t.isFlat = true ∨ ∃ a r, suffixes = [.arguments (argumentsText (a :: r)).toList] ∧
        a.isSimple = true ∧ Wordy (argumentsIdentifiers (a :: r)) ∧
        t.isFlat = (a :: r).all TypeArgument.isPlain) := by
  cases t with
  | primitive name dims =>
      rw [TypeExpr.identifiers] at hwords
      refine ⟨name.toList, [], dims, hwords name (by simp), ?_, Or.inl ⟨rfl, rfl⟩⟩
      rw [TypeExpr.text, String.toList_append, toList_dimsText, List.nil_append]
  | reference segments dims =>
      rw [TypeExpr.isSimple] at hsimple
      obtain ⟨s, rfl, hs⟩ := exists_segment_of_simple hsimple
      rw [TypeExpr.identifiers, segmentsIdentifiers_singleton] at hwords
      have htext : (TypeExpr.reference [s] dims).text.toList =
          s.text.toList ++ (dimsText dims).toList := by
        rw [TypeExpr.text, classTypeText, segmentsText, String.append_empty, String.toList_append]
      rw [htext, toList_dimsText]
      cases s with
      | plain name =>
          rw [TypeSegment.identifiers] at hwords
          rw [TypeSegment.text]
          exact ⟨name.toList, [], dims, hwords name (by simp), rfl, Or.inl ⟨rfl, rfl⟩⟩
      | applied name arguments =>
          rw [TypeSegment.identifiers] at hwords
          obtain ⟨hname, harguments⟩ := List.forall_mem_cons.mp hwords
          rw [TypeSegment.isSimple] at hs
          cases arguments with
          | nil => cases hs
          | cons a r =>
              rw [simpleArguments, List.isEmpty_cons, Bool.not_false, Bool.true_and,
                Bool.and_eq_true] at hs
              refine ⟨name.toList, [.arguments (argumentsText (a :: r)).toList], dims, hname, ?_,
                Or.inr ⟨a, r, rfl, hs.1, harguments, ?_⟩⟩
              · simp [TypeSegment.text, TypeSuffix.text]
              · simp [TypeExpr.isFlat, TypeSegment.isFlat]

/-- The text of a simple argument is not empty. -/
theorem TypeArgument.text_ne_nil {a : TypeArgument} (hwords : Wordy a.identifiers)
    (hsimple : a.isSimple = true) : a.text.toList ≠ [] := by
  cases a with
  | wildcard =>
      rw [TypeArgument.text]
      decide
  | type t =>
      rw [TypeArgument.identifiers] at hwords
      rw [TypeArgument.isSimple] at hsimple
      obtain ⟨head, suffixes, n, hhead, htext, -⟩ := exists_suffixes hwords hsimple
      rw [TypeArgument.text, htext]
      exact fun h => hhead.ne_nil (List.append_eq_nil_iff.mp h).1

theorem argumentsText_ne_nil {a : TypeArgument} {r : List TypeArgument}
    (hwords : Wordy (argumentsIdentifiers (a :: r))) (hsimple : a.isSimple = true) :
    (argumentsText (a :: r)).toList ≠ [] := by
  rw [argumentsIdentifiers] at hwords
  rw [argumentsText, String.toList_append]
  intro h
  exact TypeArgument.text_ne_nil (List.forall_mem_append.mp hwords).1 hsimple
    (List.append_eq_nil_iff.mp h).1

/-- Whatever its arguments are, the text of a simple type has the form of a type. -/
theorem isType_text (hwords : Wordy t.identifiers) (hsimple : t.isSimple = true) :
    IsType (fun _ => True) t.text.toList := by
  obtain ⟨head, suffixes, n, hhead, htext, -⟩ := exists_suffixes hwords hsimple
  exact ⟨head, _, hhead, fun _ _ => trivial, htext⟩

/-- Without nested arguments a diagram reads the whole text. -/
theorem isType_text_of_isFlat (hwords : Wordy t.identifiers) (hsimple : t.isSimple = true)
    (hflat : t.isFlat = true) : IsType TypeSuffix.Readable t.text.toList := by
  obtain ⟨head, suffixes, n, hhead, htext, hsuffixes⟩ := exists_suffixes hwords hsimple
  have harrays : ∀ x ∈ List.replicate n (TypeSuffix.array []), x.Readable := by
    intro x hx
    rw [List.eq_of_mem_replicate hx]
    exact fun c hc => nomatch hc
  refine ⟨head, _, hhead, fun x hx => ?_, htext⟩
  rcases List.mem_append.mp hx with hx | hx
  · rcases hsuffixes with ⟨rfl, -⟩ | ⟨a, r, rfl, ha, harguments, he⟩
    · cases hx
    · rw [List.mem_singleton.mp hx]
      refine ⟨argumentsText_ne_nil harguments ha, fun c hc => ?_⟩
      have hfind := find?_isAngle_argumentsText harguments
      rw [← he, hflat] at hfind
      simpa [isAngle] using List.find?_eq_none.mp hfind c hc
  · exact harrays x hx

/-- With nested arguments a diagram reads the name. -/
theorem exists_typeText_of_not_isFlat (hwords : Wordy t.identifiers) (hsimple : t.isSimple = true)
    (hflat : t.isFlat = false) (r : List Char) :
    ∃ name s, typeText (t.text.toList ++ r) = some (name, '<' :: s) := by
  obtain ⟨head, suffixes, n, hhead, htext, hsuffixes⟩ := exists_suffixes hwords hsimple
  rcases hsuffixes with ⟨-, he⟩ | ⟨a, as, rfl, ha, harguments, he⟩
  · rw [hflat] at he
    cases he
  · have hfind := find?_isAngle_argumentsText harguments
    rw [← he, hflat] at hfind
    have hsplit : t.text.toList ++ r = head ++ '<' :: ((argumentsText (a :: as)).toList ++
        '>' :: ((List.replicate n (TypeSuffix.array [])).flatMap TypeSuffix.text ++ r)) := by
      rw [htext]
      simp [TypeSuffix.text]
    rw [hsplit]
    exact ⟨_, _, typeText_of_typeArguments_eq_none hhead (typeArguments_eq_none_of_find? hfind _)⟩

/-! ### Lines of attributes -/

theorem smoothNames_of_wordy {ws : List String} (h : Wordy ws) : SmoothNames ws :=
  fun w hw => smooth_of_isWord (h w hw)

theorem unmarked_text (hwords : Wordy t.identifiers) : Unmarked t.text.toList := by
  refine unmarked_of_not_mem fun hmem => ?_
  have hne := (t.smooth (smoothNames_of_wordy hwords)).ne_brace _ hmem
  cases hne

section Read

variable {name : String} (v : Visibility) (isStatic : Bool)

/-- The line of an attribute of a simple type, without its modifier. -/
theorem text_strippedLine_attributeLine (hwords : Wordy t.identifiers) (hsimple : t.isSimple = true)
    (hname : IsWord name.toList) :
    (strippedLine (Diagram.attributeLine
        { name, type := t.text, visibility := v, isStatic }).toList).text =
      attributeText { name, type := t.text, visibility := v, isStatic } := by
  rw [strippedLine_attributeLine hname (isType_text hwords hsimple) (unmarked_text hwords),
    attributeText_eq]
  rfl

theorem typeText_text_of_isFlat (hwords : Wordy t.identifiers) (hsimple : t.isSimple = true)
    (hflat : t.isFlat = true) : typeText t.text.toList = some (t.text, []) := by
  simpa using typeText_append (isType_text_of_isFlat hwords hsimple hflat) (stops_nil _) (stops_nil _)

theorem typeText_text_of_not_isFlat (hwords : Wordy t.identifiers) (hsimple : t.isSimple = true)
    (hflat : t.isFlat = false) (x : String) : typeText t.text.toList ≠ some (x, []) := by
  obtain ⟨word, s, hread⟩ := exists_typeText_of_not_isFlat hwords hsimple hflat []
  rw [List.append_nil] at hread
  rw [hread]
  exact fun h => nomatch h

/-- A line with a type of nested arguments is no member. -/
theorem memberLine?_of_not_isFlat (hwords : Wordy t.identifiers) (hsimple : t.isSimple = true)
    (hflat : t.isFlat = false) (hname : IsWord name.toList) :
    memberLine? (strippedLine (Diagram.attributeLine
      { name, type := t.text, visibility := v, isStatic }).toList).text = none := by
  have hnone : typeBefore (t.text.toList ++ ' ' :: name.toList) = none := by
    obtain ⟨_, _, hread⟩ := exists_typeText_of_not_isFlat hwords hsimple hflat (' ' :: name.toList)
    rw [typeBefore, bind_of_some hread, bind_of_none (spaces1_eq_none (stops_cons.mpr rfl))]
  -- The word for the mark is read as a type, so it is not the text of this one.
  have hmark : t.text.toList ≠ "abstract".toList := by
    intro he
    have hword : typeText "abstract".toList = some ("abstract", []) := by
      simpa using typeText_append (t := "abstract") (.of_isWord (by decide)) (stops_nil _) (stops_nil _)
    exact typeText_text_of_not_isFlat hwords hsimple hflat _ (he ▸ hword)
  rw [text_strippedLine_attributeLine v isStatic hwords hsimple hname]
  exact memberLine?_attributeText_eq_none hname (isType_text hwords hsimple) hmark hnone

/-- **Which types a diagram reads.**  A simple type of words is read from its text as a whole
exactly if none of its arguments has arguments, and then the line of an attribute of that type
is read as the attribute.  Otherwise the line is not read as a member. -/
theorem memberLine?_attributeLine_text {t : TypeExpr} (hwords : Wordy t.identifiers)
    (hsimple : t.isSimple = true) {name : String} (hname : IsWord name.toList) (v : Visibility)
    (isStatic : Bool) :
    (typeText t.text.toList = some (t.text, []) ↔ t.isFlat = true) ∧
      memberLine? (strippedLine (Diagram.attributeLine
          { name, type := t.text, visibility := v, isStatic }).toList).text =
        if t.isFlat then some (.field { visibility := some v, name, type := t.text }) else none := by
  cases hflat : t.isFlat with
  | true =>
      refine ⟨⟨fun _ => rfl, fun _ => typeText_text_of_isFlat hwords hsimple hflat⟩, ?_⟩
      rw [text_strippedLine_attributeLine v isStatic hwords hsimple hname]
      exact memberLine?_attributeText hname (isType_text_of_isFlat hwords hsimple hflat)
  | false =>
      refine ⟨⟨fun h => ?_, fun h => nomatch h⟩,
        memberLine?_of_not_isFlat v isStatic hwords hsimple hflat hname⟩
      exact absurd h (typeText_text_of_not_isFlat hwords hsimple hflat _)

/-- `Map<String, int[]>[]`. -/
def scoresType : TypeExpr :=
  .reference [.applied "Map" [.type (.reference [.plain "String"] 0), .type (.primitive "int" 1)]] 1

theorem memberLine?_attributeLine_text_scoresType :
    Wordy scoresType.identifiers ∧ scoresType.isSimple = true ∧ IsWord "scores".toList ∧
      scoresType.text = "Map<String, int[]>[]" ∧
      memberLine? (strippedLine "\t+ \x7bstatic\x7d Map<String, int[]>[] scores".toList).text =
        some (.field { visibility := some .pub, name := "scores", type := "Map<String, int[]>[]" }) := by
  have hwords : Wordy scoresType.identifiers := by
    simp only [Wordy, scoresType, TypeExpr.identifiers, segmentsIdentifiers, TypeSegment.identifiers,
      argumentsIdentifiers, TypeArgument.identifiers]
    decide
  have hsimple : scoresType.isSimple = true := by
    simp [scoresType, TypeExpr.isSimple, simpleSegments, TypeSegment.isSimple, simpleArguments,
      TypeArgument.isSimple]
  have htext : scoresType.text = "Map<String, int[]>[]" := by
    simp only [scoresType, TypeExpr.text, classTypeText, segmentsText, TypeSegment.text,
      argumentsText, moreArgumentsText, TypeArgument.text, dimsText]
    decide
  have hname : IsWord "scores".toList := by decide
  have hread := (memberLine?_attributeLine_text hwords hsimple hname .pub true).2
  have hline : Diagram.attributeLine
      { name := "scores", type := scoresType.text, visibility := .pub, isStatic := true } =
        "\t+ \x7bstatic\x7d Map<String, int[]>[] scores" := by
    rw [htext]
    decide
  rw [hline, htext] at hread
  exact ⟨hwords, hsimple, by decide, htext, hread⟩

/-- `Map<String, List<?>>`. -/
def entriesType : TypeExpr :=
  .reference [.applied "Map" [.type (.reference [.plain "String"] 0),
    .type (.reference [.applied "List" [.wildcard]] 0)]] 0

/-- A simple type of words whose attribute is lost. -/
theorem memberLine?_attributeLine_entriesType :
    Wordy entriesType.identifiers ∧ entriesType.isSimple = true ∧
      entriesType.text = "Map<String, List<?>>" ∧
      Diagram.attributeLine { name := "entries", type := entriesType.text } =
        "\t- Map<String, List<?>> entries" ∧
      typeText "Map<String, List<?>>".toList ≠ some ("Map<String, List<?>>", []) ∧
      memberLine? (strippedLine "\t- Map<String, List<?>> entries".toList).text = none := by
  have hwords : Wordy entriesType.identifiers := by
    simp only [Wordy, entriesType, TypeExpr.identifiers, segmentsIdentifiers, TypeSegment.identifiers,
      argumentsIdentifiers, TypeArgument.identifiers]
    decide
  have hsimple : entriesType.isSimple = true := by
    simp [entriesType, TypeExpr.isSimple, simpleSegments, TypeSegment.isSimple, simpleArguments,
      TypeArgument.isSimple]
  have htext : entriesType.text = "Map<String, List<?>>" := by
    simp only [entriesType, TypeExpr.text, classTypeText, segmentsText, TypeSegment.text,
      argumentsText, moreArgumentsText, TypeArgument.text, dimsText]
    decide
  have hline : Diagram.attributeLine { name := "entries", type := entriesType.text } =
      "\t- Map<String, List<?>> entries" := by
    rw [htext]
    decide
  have hflat : entriesType.isFlat = false := by decide
  have hwhole := typeText_text_of_not_isFlat hwords hsimple hflat "Map<String, List<?>>"
  have hname : IsWord "entries".toList := by decide
  have hlost := memberLine?_of_not_isFlat .priv false hwords hsimple hflat hname
  rw [htext] at hwhole
  rw [hline] at hlost
  exact ⟨hwords, hsimple, htext, hline, hwhole, hlost⟩

end Read

end Lines

end Source

end ClassModel
