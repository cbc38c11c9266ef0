/-
Members inside and outside a body.

A member with its type in front may be written in the body of its owner, or outside all bodies
behind the name of the owner and a colon.  The two ways have grammars of their own, but they
differ in front of the type only: both read a marker, spaces and then the same rest.  So
whatever line is read in a body is read behind a name and a colon, with the same result.

The modifiers of the line are taken out of it before either grammar sees it.  No word in braces
reaches across the colon, so the same ones are found.
-/
import ClassModel.Proofs.Diagram.Exclusion
import ClassModel.Proofs.Diagram.Outlines

namespace ClassModel

open LineParser

/-- The line that attaches what another line says to a type. -/
def inlineText (name : String) (line : List Char) : List Char :=
  name.toList ++ ' ' :: ':' :: ' ' :: line

section Lines

variable {name : String} {line : List Char}

/-! ### The grammars -/

/-- Behind the colon the reader is where it would be in the body. -/
theorem inlineTarget_inlineText (hname : IsWord name.toList) {v : Option Visibility}
    {s t : List Char} (hv : visibility (line.dropWhile isSpace) = some (v, s))
    (ht : spaces s = some ((), t)) : inlineTarget (inlineText name line) = some ((name, v), t) := by
  have hstop : Stops isSpace (inlineText name line) :=
    hname.stops (fun _ => isSpace_of_isWordChar) _
  have hread : LineParser.name (inlineText name line) = some (name, ' ' :: ':' :: ' ' :: line) :=
    name_append hname (stops_cons.mpr rfl)
  have hcolon : colon (' ' :: ':' :: ' ' :: line) = some ((), line.dropWhile isSpace) := by
    have hbehind : ∀ c ∈ ' ' :: line.takeWhile isSpace, isSpace c = true := by
      intro c hc
      rcases List.mem_cons.mp hc with rfl | hc
      · rfl
      · exact of_mem_takeWhile hc
    have hcut := colon_of_spaces (w := [' ']) (by simp [isSpace]) hbehind
      (stops_dropWhile isSpace line)
    simpa [run_append] using hcut
  have hnone : visibility (inlineText name line) = some (none, inlineText name line) :=
    visibility_of_word hname
  rw [inlineTarget, bind_of_some hnone, bind_of_some (spaces_of_stops hstop), bind_of_some hread,
    bind_of_some hcolon, bind_of_some hv, bind_of_some ht, pure_apply, Option.or_none]

/-- **What is read of a line in a body is read behind a name and a colon.** -/
theorem accept_inlineText {α : Type} (rest : Option Visibility → LineParser α)
    (member : α → MemberLine) (hname : IsWord name.toList) {l : α}
    (h : accept (fullLine do
      let v ← visibility
      spaces
      rest v) line = some l) :
    accept (fullLine do
      let (target, v) ← inlineTarget
      let l ← rest v
      return { target, member := member l : InlineMember }) (inlineText name line) =
        some ⟨name, member l⟩ := by
  obtain ⟨r, hread, hr⟩ := accept_fullLine_eq_some_iff.mp h
  simp only [bind_apply, Option.bind_eq_some_iff] at hread
  obtain ⟨⟨v, s⟩, hv, ⟨_, t⟩, ht, hrest⟩ := hread
  have hstart : (inlineText name line).dropWhile isSpace = inlineText name line :=
    dropWhile_of_stops (hname.stops (fun _ => isSpace_of_isWordChar) _)
  refine accept_fullLine_eq_some_iff.mpr ⟨r, ?_, hr⟩
  rw [hstart, bind_of_some (inlineTarget_inlineText hname hv ht)]
  exact bind_of_some hrest _

/-- A line in the body that is an attribute with its type in front. -/
theorem memberLine?_of_typeNameAttribute {l : AttributeLine}
    (h : accept (fullLine typeNameAttribute) line = some l) :
    memberLine? line = some (.field l) := by
  have hname : accept (fullLine nameTypeAttribute) line = none := by
    rcases exclusive_attributes line with hnone | hnone
    · exact hnone
    · rw [h] at hnone
      cases hnone
  rw [memberLine?, attributeLine?, hname, h]
  rfl

/-- A line in the body that is a method with its name behind the type. -/
theorem methodLine?_of_typeNameMethod {l : MethodLine}
    (h : accept (fullLine typeNameMethod) line = some l) :
    methodLine? line = some l ∧ attributeLine? line = none := by
  obtain ⟨hfirst, hsecond, hthird⟩ := exclusive_typeNameMethod
  have hnone : ∀ {β : Type} {g : List Char → Option β},
      Exclusive g (accept (fullLine typeNameMethod)) → g line = none := by
    intro β g hx
    rcases hx line with hnone | hnone
    · exact hnone
    · rw [h] at hnone
      cases hnone
  constructor
  · rw [methodLine?, hnone hthird, h]
    rfl
  · rw [attributeLine?, hnone hfirst, hnone hsecond]
    rfl

theorem memberLine?_of_typeNameMethod {l : MethodLine}
    (h : accept (fullLine typeNameMethod) line = some l) :
    memberLine? line = some (.method l) := by
  obtain ⟨hmethod, hattribute⟩ := methodLine?_of_typeNameMethod h
  rw [memberLine?, hattribute, hmethod]
  rfl

/-- The attribute that such a line attaches. -/
theorem inlineMember?_of_typeNameAttribute (hname : IsWord name.toList) {l : AttributeLine}
    (h : accept (fullLine typeNameAttribute) line = some l) :
    accept (fullLine inlineAttribute) (inlineText name line) = some ⟨name, .field l⟩ ∧
      inlineMember? (inlineText name line) = some ⟨name, .field l⟩ := by
  have hinline : accept (fullLine inlineAttribute) (inlineText name line) =
      some ⟨name, .field l⟩ := accept_inlineText typeNameAttributeRest .field hname h
  refine ⟨hinline, ?_⟩
  rw [inlineMember?, hinline]
  rfl

/-- The method that such a line attaches. -/
theorem inlineMember?_of_typeNameMethod (hname : IsWord name.toList) {l : MethodLine}
    (h : accept (fullLine typeNameMethod) line = some l) :
    accept (fullLine inlineMethod) (inlineText name line) = some ⟨name, .method l⟩ ∧
      inlineMember? (inlineText name line) = some ⟨name, .method l⟩ := by
  have hinline : accept (fullLine inlineMethod) (inlineText name line) =
      some ⟨name, .method l⟩ := accept_inlineText typeNameMethodRest .method hname h
  have hnone : accept (fullLine inlineAttribute) (inlineText name line) = none := by
    rcases exclusive_inline (inlineText name line) with hnone | hnone
    · exact hnone
    · rw [hinline] at hnone
      cases hnone
  refine ⟨hinline, ?_⟩
  rw [inlineMember?, hnone]
  exact hinline

/-- Such a line declares nothing. -/
theorem header?_inlineText (hname : IsWord name.toList) (line : List Char) :
    header? (inlineText name line) = none :=
  header?_word_eq_none hname (stops_cons.mpr (by decide)) (stops_cons.mpr (by decide))

/-! ### The modifiers -/

theorem dropReturn_inlineText (name : String) (line : List Char) :
    dropReturn (inlineText name line) = inlineText name (dropReturn line) := by
  have hdrop : ∀ (s : List Char) (c : Char),
      dropReturn (s ++ [c]) = if c = '\r' then s else s ++ [c] := by
    intro s c
    simp only [dropReturn, List.getLast?_concat, List.dropLast_concat, Option.some.injEq]
  rcases List.eq_nil_or_concat line with rfl | ⟨s, c, rfl⟩
  · have hcut : inlineText name [] = name.toList ++ [' ', ':'] ++ [' '] := by simp [inlineText]
    rw [hcut, dropReturn_append (by decide)]
    simp [inlineText, dropReturn]
  · have hcut : inlineText name (s ++ [c]) = inlineText name s ++ [c] := by simp [inlineText]
    rw [List.concat_eq_append, hcut, hdrop, hdrop]
    split
    · rfl
    · exact hcut.symm

/-- **The modifiers of a line are those of the line that attaches what it says.** -/
theorem strippedLine_inlineText (hname : IsWord name.toList) (line : List Char) :
    strippedLine (inlineText name line) =
      { text := inlineText name (strippedLine line).text,
        modifiers := (strippedLine line).modifiers } := by
  have hsegments : segments (inlineText name (dropReturn line)) =
      name.toList.map Segment.text ++
        .text ' ' :: .text ':' :: .text ' ' :: segments (dropReturn line) := by
    rw [inlineText, segments_append_cons (by decide), unmarked_of_isWord hname,
      segments_cons_of_ne (by decide), segments_cons_of_ne (by decide)]
  have htext : (name.toList.map Segment.text).filterMap Segment.char? = name.toList := by
    rw [List.filterMap_map]
    exact List.filterMap_some
  have hwords : (name.toList.map Segment.text).filterMap Segment.word? = [] := by
    rw [List.filterMap_map]
    exact List.filterMap_eq_nil_iff.mpr fun _ _ => rfl
  rw [strippedLine, dropReturn_inlineText, hsegments, strippedLine, Line.ofSegments,
    Line.ofSegments, Traced.value_ofEvents, Traced.value_ofEvents]
  simp only [List.filterMap_append, List.filterMap_cons, Segment.char?, Segment.word?, htext, hwords]
  rfl

end Lines

end ClassModel
