/-
Types and their texts.

The text of a type spells its tokens, with a space behind each comma and nothing else between
them.  So it is one of the layouts in which the type is read, and reading it gives the type
back.  In particular no two types have the same text.
-/
import ClassModel.Proofs.Source.Types

namespace ClassModel.Source

open Recogniser

variable {us : List Token} {r : List Char}

/-! ### Texts of tokens -/

/-- What is laid out keeps its words apart from a word in front of it. -/
def Apart (us : List Token) (r : List Char) : Prop :=
  us.head?.any Token.isWord = true → r.head?.any beginsTrivia = true

theorem apart_symbol (s : List Char) : Apart (.symbol s :: us) r := by
  intro h
  cases h

theorem apart_space : Apart us (' ' :: r) := by
  intro _
  rfl

/-- A text that lays out tokens in front of whatever keeps apart. -/
def Lays (ts : List Token) (x : List Char) : Prop :=
  ∀ us r, LaidOut us r → Apart us r → LaidOut (ts ++ us) (x ++ r)

theorem lays_word {w : String} (hw : IsIdentifier w.toList) : Lays [.word w] w.toList := by
  intro us r h hapart
  exact .token (.word hw) rfl (fun _ => hapart) h

theorem Lays.trivia {ts : List Token} {x g : List Char} (hx : Lays ts x) (hg : Trivia g) :
    Lays ts (g ++ x) := by
  intro us r h hus
  rw [List.append_assoc]
  exact (hx us r h hus).trivia hg

theorem Lays.space {ts : List Token} {x : List Char} (hx : Lays ts x) : Lays ts (' ' :: x) :=
  hx.trivia (.white rfl .nil)

/-- A text of tokens that may stand right behind a word. -/
structure Trails (ts : List Token) (x : List Char) : Prop where
  lays : Lays ts x
  apart : ∀ us r, Apart us r → Apart (ts ++ us) (x ++ r)

theorem Lays.append {ts vs : List Token} {x y : List Char} (hx : Lays ts x) (hy : Trails vs y) :
    Lays (ts ++ vs) (x ++ y) := by
  intro us r h hus
  rw [List.append_assoc, List.append_assoc]
  exact hx _ _ (hy.lays us r h hus) (hy.apart us r hus)

theorem trails_nil : Trails [] [] :=
  ⟨fun _ _ h _ => h, fun _ _ h => h⟩

theorem trails_symbol {s : List Char} (hs : s ∈ symbols) {ts : List Token} {x : List Char}
    (hx : Lays ts x) : Trails (.symbol s :: ts) (s ++ x) := by
  constructor
  · intro us r h hus
    rw [List.append_assoc]
    exact .symbol hs (hx us r h hus)
  · intro us r _
    exact apart_symbol s

theorem lays_symbol {s : List Char} (hs : s ∈ symbols) : Lays [.symbol s] s := by
  intro us r h _
  exact .symbol hs h

/-! ### The texts of types -/

theorem trails_dims (n : Nat) : Trails (dimsTokens n) (dimsText n).toList := by
  induction n with
  | zero => exact trails_nil
  | succ n ih =>
      have htokens : dimsTokens (n + 1) = .symbol ['['] :: .symbol [']'] :: dimsTokens n := rfl
      have htext : (dimsText (n + 1)).toList = ['['] ++ ([']'] ++ (dimsText n).toList) := by
        rw [dimsText, String.toList_append]
        rfl
      rw [htokens, htext]
      exact trails_symbol (by decide) (trails_symbol (by decide) ih.lays).lays

mutual

/-- The text of a type is a layout of its tokens. -/
theorem TypeExpr.lays : (t : TypeExpr) → t.Named → Lays t.tokens t.text.toList
  | .primitive name dims, h => by
      rw [TypeExpr.Named] at h
      have hword : IsIdentifier name.toList :=
        (by decide : ∀ w ∈ primitiveNames, IsIdentifier w.toList) name h
      rw [TypeExpr.tokens, TypeExpr.text, String.toList_append]
      exact (lays_word hword).append (trails_dims dims)
  | .reference segments dims, h => by
      rw [TypeExpr.Named] at h
      rw [TypeExpr.tokens, TypeExpr.text, String.toList_append]
      exact (lays_classType segments h.1 h.2).append (trails_dims dims)

theorem lays_classType : (segments : List TypeSegment) → segments ≠ [] → namedSegments segments →
    Lays (classTypeTokens segments) (classTypeText segments).toList
  | [], hne, _ => absurd rfl hne
  | s :: r, _, h => by
      rw [namedSegments] at h
      rw [classTypeTokens, classTypeText, String.toList_append]
      exact (s.lays h.1).append (trails_segments r h.2)

theorem trails_segments : (segments : List TypeSegment) → namedSegments segments →
    Trails (segmentsTokens segments) (segmentsText segments).toList
  | [], _ => by
      rw [segmentsTokens, segmentsText]
      exact trails_nil
  | s :: r, h => by
      rw [namedSegments] at h
      rw [segmentsTokens, segmentsText, String.toList_append, String.toList_append,
        List.append_assoc]
      exact trails_symbol (by decide) ((s.lays h.1).append (trails_segments r h.2))

theorem TypeSegment.lays : (s : TypeSegment) → s.Named → Lays s.tokens s.text.toList
  | .plain name, h => by
      rw [TypeSegment.Named] at h
      rw [TypeSegment.tokens, TypeSegment.text]
      exact lays_word h.identifier
  | .applied name arguments, h => by
      rw [TypeSegment.Named] at h
      have hclosed : Trails (.symbol ['<'] :: (argumentsTokens arguments ++ [.symbol ['>']]))
          (['<'] ++ ((argumentsText arguments).toList ++ ['>'])) :=
        trails_symbol (by decide) ((lays_arguments arguments h.2).append
          (trails_symbol (x := []) (by decide) trails_nil.lays))
      have htext : (TypeSegment.applied name arguments).text.toList =
          name.toList ++ (['<'] ++ ((argumentsText arguments).toList ++ ['>'])) := by
        rw [TypeSegment.text]
        simp
      rw [TypeSegment.tokens, htext]
      exact (lays_word h.1.identifier).append hclosed

theorem lays_arguments : (arguments : List TypeArgument) → namedArguments arguments →
    Lays (argumentsTokens arguments) (argumentsText arguments).toList
  | [], _ => by
      rw [argumentsTokens, argumentsText]
      exact trails_nil.lays
  | a :: r, h => by
      rw [namedArguments] at h
      rw [argumentsTokens, argumentsText, String.toList_append]
      exact (a.lays h.1).append (trails_moreArguments r h.2)

theorem trails_moreArguments : (arguments : List TypeArgument) → namedArguments arguments →
    Trails (moreArgumentsTokens arguments) (moreArgumentsText arguments).toList
  | [], _ => by
      rw [moreArgumentsTokens, moreArgumentsText]
      exact trails_nil
  | a :: r, h => by
      rw [namedArguments] at h
      have htext : (moreArgumentsText (a :: r)).toList =
          [','] ++ (' ' :: (a.text.toList ++ (moreArgumentsText r).toList)) := by
        rw [moreArgumentsText]
        simp
      rw [moreArgumentsTokens, htext]
      exact trails_symbol (by decide) ((a.lays h.1).append (trails_moreArguments r h.2)).space

theorem TypeArgument.lays : (a : TypeArgument) → a.Named → Lays a.tokens a.text.toList
  | .type t, h => by
      rw [TypeArgument.Named] at h
      rw [TypeArgument.tokens, TypeArgument.text]
      exact t.lays h
  | .wildcard, _ => by
      rw [TypeArgument.tokens, TypeArgument.text]
      exact lays_symbol (s := ['?']) (by decide)

end

/-! ### Reading the text of a type -/

/-- The text of a type begins with its first word. -/
theorem TypeExpr.Named.head_text {t : TypeExpr} (ht : t.Named) :
    ∃ c r, t.text.toList = c :: r ∧ isIdentifierStart c = true := by
  have hword : ∀ {w : String} (x : List Char), IsIdentifier w.toList →
      ∃ c r, w.toList ++ x = c :: r ∧ isIdentifierStart c = true := by
    rintro w x ⟨c, r, he, hc, -⟩
    exact ⟨c, r ++ x, by rw [he, List.cons_append], hc⟩
  cases t with
  | primitive name dims =>
      rw [TypeExpr.Named] at ht
      rw [TypeExpr.text, String.toList_append]
      exact hword _ ((by decide : ∀ w ∈ primitiveNames, IsIdentifier w.toList) name ht)
  | reference segments dims =>
      rw [TypeExpr.Named] at ht
      cases segments with
      | nil => exact absurd rfl ht.1
      | cons s r =>
          rw [namedSegments] at ht
          rw [TypeExpr.text, classTypeText, String.toList_append, String.toList_append,
            List.append_assoc]
          cases s with
          | plain name =>
              rw [TypeSegment.Named] at ht
              rw [TypeSegment.text]
              exact hword _ ht.2.1.identifier
          | applied name arguments =>
              rw [TypeSegment.Named] at ht
              rw [TypeSegment.text, String.toList_append, String.toList_append,
                String.toList_append, List.append_assoc, List.append_assoc, List.append_assoc]
              exact hword _ ht.2.1.1.identifier

/-- Nothing stands in front of the tokens of a type in its text. -/
theorem TypeExpr.Named.laid {t : TypeExpr} (ht : t.Named) : Laid t.tokens t.text.toList := by
  have hlaid := t.lays ht [] [] .nil (fun h => nomatch h)
  rw [List.append_nil, List.append_nil] at hlaid
  obtain ⟨g, s, hg, hs, he⟩ := hlaid
  rcases hg.eq_nil_or with rfl | ⟨c, g, rfl, hc⟩
  · rw [he]
    exact hs
  · obtain ⟨d, r, hd, hstart⟩ := ht.head_text
    rw [hd] at he
    cases he
    rw [Token.not_isIdentifierStart_of_beginsTrivia hc] at hstart
    cases hstart

theorem TypeExpr.Named.cut_text {t : TypeExpr} (ht : t.Named) :
    typeExpr.cut t.text.toList = some (t, []) := by
  have hread : Reads typeExpr (t.tokens ++ []) t [] := reads_typeExpr ht (heads_nil _)
  rw [List.append_nil] at hread
  obtain ⟨r, hr, hcut, -⟩ := hread _ ht.laid
  cases hr
  exact hcut

/-- **Types are read back from their texts.**  The whole text of a type is read as the type,
and so types with the same text are the same. -/
theorem typeExpr_text {t : TypeExpr} (ht : t.Named) :
    (typeExpr (Input.ofChars t.text.toList)).outcome = some (t, Input.ofChars []) ∧
      ∀ u : TypeExpr, u.Named → u.text = t.text → u = t := by
  refine ⟨outcome_eq_some_iff.mpr ht.cut_text, fun u hu he => ?_⟩
  have hcut := hu.cut_text
  rw [he, ht.cut_text] at hcut
  cases hcut
  rfl

/-- A nested type with a wildcard, no arguments, a word that is a modifier, and dimensions. -/
def gridType : TypeExpr :=
  .reference [.plain "util",
    .applied "Map" [.type (.primitive "int" 1), .type (.reference [.applied "sealed" []] 0),
      .type (.reference [.applied "List" [.wildcard]] 2)]] 1

theorem typeExpr_text_gridType :
    gridType.Named ∧
      (typeExpr (Input.ofChars "util.Map<int[], sealed<>, List<?>[][]>[]".toList)).outcome =
        some (gridType, Input.ofChars []) ∧
      ∀ u : TypeExpr, u.Named → u.text = "util.Map<int[], sealed<>, List<?>[][]>[]" → u = gridType := by
  have hnamed : gridType.Named := by
    simp only [gridType, TypeExpr.Named, namedSegments, TypeSegment.Named, namedArguments,
      TypeArgument.Named]
    decide
  have htext : gridType.text = "util.Map<int[], sealed<>, List<?>[][]>[]" := by
    simp only [gridType, TypeExpr.text, classTypeText, segmentsText, TypeSegment.text, argumentsText,
      moreArgumentsText, TypeArgument.text, dimsText]
    decide
  have hread := typeExpr_text hnamed
  rw [htext] at hread
  exact ⟨hnamed, hread⟩

end ClassModel.Source
