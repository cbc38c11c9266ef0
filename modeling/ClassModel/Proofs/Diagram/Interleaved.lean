/-
Declarations and single lines in any interleaving.

A declaration with a body reaches exactly as far as its braces do, and one without a body takes
no line at all: the next line that is not blank would have to open it, and neither a header nor a
line without a brace does.  So declarations and the lines between them can be taken apart again,
however they are mixed.

Members and associations are read after all declarations, compositions before plain
associations.  Therefore the model depends on the order of the declarations and on that of the
lines, but not on where the lines stand among the declarations.
-/
import ClassModel.Proofs.Diagram.Composed
import ClassModel.Proofs.Diagram.Declared
import ClassModel.Proofs.Diagram.Extents
import ClassModel.Proofs.Diagram.Statements

namespace ClassModel

open LineParser

/-! ### Bodies that close -/

/-- A text whose braces are matched. -/
inductive Matched : List Char → Prop where
  | nil : Matched []
  | char {c : Char} {s : List Char} (hc : isBrace c = false) (h : Matched s) : Matched (c :: s)
  | group {s t : List Char} (hs : Matched s) (ht : Matched t) :
      Matched ('\x7b' :: (s ++ '\x7d' :: t))

/-- Matched braces leave as many open as there were. -/
theorem Matched.openDepth {s : List Char} (h : Matched s) (inner : Nat) :
    ClassModel.openDepth inner s = some inner := by
  induction h generalizing inner with
  | nil => exact openDepth_nil inner
  | @char c s hc _ ih =>
      have hne : c ≠ '\x7b' ∧ c ≠ '\x7d' := by simpa [isBrace] using hc
      rw [openDepth_cons, if_neg fun h => hne.2 h.1, if_neg hne.1, if_neg hne.2]
      exact ih inner
  | @group s t _ _ ihs iht =>
      rw [openDepth_cons, if_neg fun h => absurd h.1 (by decide), if_pos rfl, openDepth_append,
        ihs, Option.bind_some, openDepth_cons, if_neg fun h => absurd h.2 (Nat.succ_ne_zero inner)]
      exact iht inner

/-- Lines of an open body, up to the brace that closes it at the end of the last one. -/
def Closes (ls : List Line) : Prop :=
  ∃ before last text, ls = before ++ [last] ∧ last.text = text ++ ['\x7d'] ∧
    Matched (before.flatMap Line.text ++ text)

/-- The body ends with the line that closes it, whatever follows. -/
theorem exists_gatherBody {first : Line} {following : List Line}
    (h : Closes (first :: following)) :
    ∃ body, ∀ rest, gatherBody 0 first (following ++ rest) = some (body, rest) := by
  obtain ⟨before, last, text, hlines, hlast, hmatched⟩ := h
  have hopen : openDepth 0 (textOfLines (before ++ [{ last with text }])) = some 0 := by
    rw [openDepth_textOfLines, List.flatMap_append, List.flatMap_singleton]
    exact hmatched.openDepth 0
  refine ⟨before ++ [{ last with text }], fun rest => ?_⟩
  have hcut : Cut (first :: (following ++ rest)) (before ++ [{ last with text }]) rest before last
      text [] := by
    refine ⟨?_, hlast, rfl⟩
    rw [← List.cons_append, hlines, List.append_assoc, List.singleton_append]
  exact gatherBody_of_cut hcut hopen

/-! ### Declarations -/

/-- The lines of a declaration: a header without a brace, or a header with its body up to the
line that ends in the closing brace.  The body opens on the header line, or at the beginning of
the next line that is not blank. -/
inductive IsDeclaration : List Line → Prop where
  | bare {line : Line} {header : Header} (h : header? line.text = some header)
      (hopen : '\x7b' ∉ line.text) : IsDeclaration [line]
  | braced {line : Line} {header : Header} {before rest : List Char} {following : List Line}
      (h : header? line.text = some header) (htext : line.text = before ++ '\x7b' :: rest)
      (hopen : '\x7b' ∉ before) (hbody : Closes ({ line with text := rest } :: following)) :
      IsDeclaration (line :: following)
  | below {line opening : Line} {header : Header} {blanks following : List Line}
      {before rest : List Char} (h : header? line.text = some header)
      (hopen : '\x7b' ∉ line.text) (hblanks : ∀ l ∈ blanks, isBlankText l.text = true)
      (htext : opening.text = before ++ '\x7b' :: rest) (hbefore : isBlankText before = true)
      (hbody : Closes ({ opening with text := rest } :: following)) :
      IsDeclaration (line :: (blanks ++ opening :: following))

/-- **The lines of a declaration become one declaration, whatever follows.** -/
theorem IsDeclaration.exists_draws {ls : List Line} (h : IsDeclaration ls) :
    ∃ b, Draws ls [b] [] := by
  cases h with
  | @bare line header h hopen =>
      have hbody : header.body = none := by rw [body_of_header? h, afterBrace?_of_not_mem hopen]
      exact ⟨_, draws_bare h hbody⟩
  | @braced line header before rest following h htext hopen hbody =>
      obtain ⟨body, hgather⟩ := exists_gatherBody hbody
      refine ⟨⟨header, line.modifiers, body⟩, draws_block h fun after => ?_⟩
      rw [body_of_header? h, htext, afterBrace?_append_cons hopen]
      exact hgather after
  | @below line opening header blanks following before rest h hopen hblanks htext hbefore hbody =>
      obtain ⟨body, hgather⟩ := exists_gatherBody hbody
      refine ⟨⟨header, line.modifiers, body⟩, draws_block h fun after => ?_⟩
      have hopening : openingLine? (blanks ++ opening :: (following ++ after)) =
          some ({ opening with text := rest }, following ++ after) :=
        openingLine?_eq_some_iff.mpr ⟨blanks, opening, before, rest, rfl, hblanks, hbefore, htext,
          rfl⟩
      rw [body_of_header? h, afterBrace?_of_not_mem hopen, collectBody, List.append_assoc,
        List.cons_append, hopening]
      exact hgather after

/-! ### Single lines -/

/-- A line that, once its modifiers are taken out, holds no brace and declares nothing. -/
structure StandsAlone (line : List Char) : Prop where
  braces : ∀ c ∈ (strippedLine line).text, isBrace c = false
  silent : header? (strippedLine line).text = none

/-- Taking modifiers out of a line without braces adds none. -/
theorem StandsAlone.of_forall {line : List Char} (hbraces : ∀ c ∈ line, isBrace c = false)
    (hsilent : header? (strippedLine line).text = none) : StandsAlone line :=
  ⟨fun c hc => hbraces c (mem_of_mem_strippedLine hc), hsilent⟩

theorem StandsAlone.draws {line : List Char} (h : StandsAlone line) :
    Draws [strippedLine line] []
      ([Standalone.ofLine (strippedLine line)].filter Standalone.speaks) := by
  refine draws_standalone h.silent fun rest hrest => ?_
  rw [openingLine?]
  split
  · exact hrest
  · split
    · rename_i r htrim
      have hmem : '\x7b' ∈ trimStart (strippedLine line).text := htrim ▸ List.mem_cons_self
      exact absurd (h.braces _ ((trimStart_suffix _).subset hmem)) (by decide)
    · rfl

/-! ### Interleavings -/

/-- The third list consists of the chunks and of the single elements, both in their order. -/
inductive Interleaved {α : Type} : List (List α) → List α → List α → Prop where
  | nil : Interleaved [] [] []
  | chunk {c : List α} {cs : List (List α)} {xs out : List α} (h : Interleaved cs xs out) :
      Interleaved (c :: cs) xs (c ++ out)
  | single {x : α} {cs : List (List α)} {xs out : List α} (h : Interleaved cs xs out) :
      Interleaved cs (x :: xs) (x :: out)

/-- The declarations of some lines. -/
def blocksOf (lines : List (List Char)) : List Block :=
  (Outline.ofLines (lines.map strippedLine)).blocks

/-- **Declarations and single lines are found again in every interleaving.** -/
theorem Interleaved.draws {blocks : List (List (List Char))} {lines out : List (List Char)}
    (h : Interleaved blocks lines out) (hblocks : ∀ b ∈ blocks, IsDeclaration (b.map strippedLine))
    (hlines : ∀ l ∈ lines, StandsAlone l) :
    Draws (out.map strippedLine) (blocks.flatMap blocksOf)
      ((lines.map fun l => Standalone.ofLine (strippedLine l)).filter Standalone.speaks) := by
  induction h with
  | nil => exact Draws.nil
  | @chunk c cs xs out _ ih =>
      obtain ⟨hc, hcs⟩ := List.forall_mem_cons.mp hblocks
      obtain ⟨b, hb⟩ := hc.exists_draws
      have hblock : blocksOf c = [b] := hb.ofLines.1
      rw [List.map_append, List.flatMap_cons, hblock]
      exact hb.append (ih hcs hlines)
  | @single x cs xs out _ ih =>
      obtain ⟨hx, hxs⟩ := List.forall_mem_cons.mp hlines
      have hdraws := hx.draws.append (ih hblocks hxs)
      rwa [List.nil_append, ← List.filter_append] at hdraws

/-! ### Models -/

/-- The model of an outline depends on its declarations and on what its lines say. -/
theorem value_readOutline_congr {o o' : Outline} (hblocks : o.blocks = o'.blocks)
    (hstatements : o.statements = o'.statements) (m : Model) :
    (m.readOutline o).value = (m.readOutline o').value := by
  rw [value_readOutline, value_readOutline, hblocks, hstatements]

/-- The association of a composition line. -/
def compositionOf? (line : List Char) : Option Association :=
  (composition? (strippedLine line).text).map Relation.association

/-- The association of a plain association line. -/
def plainOf? (line : List Char) : Option Association :=
  (plainAssociation? (strippedLine line).text).map Relation.association

/-- A pass that appends what each line says appends all of it in order. -/
theorem associations_foldl {read : Model → Standalone → Model}
    {made : Standalone → Option Association}
    (h : ∀ m s, (read m s).associations = m.associations ++ (made s).toList)
    (ss : List Standalone) (m : Model) :
    (ss.foldl read m).associations = m.associations ++ ss.filterMap made := by
  induction ss generalizing m with
  | nil => exact (List.append_nil _).symm
  | cons s ss ih =>
      rw [List.foldl_cons, ih, h, List.append_assoc, List.filterMap_cons]
      cases made s <;> rfl

theorem associations_readComposition (m : Model) (s : Standalone) :
    (m.readComposition s).associations =
      m.associations ++ (s.composition?.map Relation.association).toList := by
  cases s with
  | composition r => rfl
  | inline | plain | unrecognized => exact (List.append_nil _).symm

theorem associations_readPlain (m : Model) (s : Standalone) :
    (m.readPlain s).value.associations =
      m.associations ++ (s.plain?.map Relation.association).toList := by
  cases s with
  | plain r => rfl
  | inline | composition | unrecognized => exact (List.append_nil _).symm

/-- Compositions come first, then plain associations, each in the order of their lines. -/
theorem associations_readOutline (m : Model) (o : Outline) :
    (m.readOutline o).value.associations =
      m.associations ++
        (o.standalone.filterMap fun l => (composition? l.text).map Relation.association) ++
          o.standalone.filterMap fun l => (plainAssociation? l.text).map Relation.association := by
  rw [Model.readOutline, Traced.value_bind, Traced.value_bind, Traced.value_bind, Traced.value_bind,
    Traced.value_bind, Traced.value_pure, Traced.value_foldlM, Traced.value_foldlM,
    Traced.value_foldlM, associations_foldl associations_readPlain,
    associations_foldl associations_readComposition,
    foldl_preserves (g := Model.associations) Model.associations_readInline,
    foldl_preserves (g := Model.associations) Model.associations_readBlock, List.filterMap_map,
    List.filterMap_map]
  simp only [Function.comp_def, Standalone.composition?_ofLine, Standalone.plain?_ofLine]

/-- **However declarations and single lines are interleaved, they make one model, with the
compositions in front of the plain associations.** -/
theorem exists_read_interleaved {blocks : List (List (List Char))} {lines : List (List Char)}
    (hblocks : ∀ b ∈ blocks, IsDeclaration (b.map strippedLine))
    (hlines : ∀ l ∈ lines, StandsAlone l) :
    ∃ m : Model, m.associations = lines.filterMap compositionOf? ++ lines.filterMap plainOf? ∧
      ∀ text : String, Interleaved blocks lines (splitOnChar '\n' text.toList) →
        (Diagram.read text).value = m := by
  let o : Outline := { blocks := blocks.flatMap blocksOf, standalone := lines.map strippedLine }
  refine ⟨(Model.empty.readOutline o).value, ?_, fun text htext => ?_⟩
  · rw [associations_readOutline, List.filterMap_map, List.filterMap_map]
    rfl
  · obtain ⟨hfound, hsaid⟩ := (htext.draws hblocks hlines).ofLines
    rw [← value_stripModifiers] at hfound hsaid
    refine value_readOutline_congr hfound (hsaid.trans ?_) Model.empty
    rw [Outline.statements, List.map_map]
    rfl

/-- A class with a body and an interface without one. -/
def garageBlocks : List (List (List Char)) :=
  [["class Car \x7b".toList, "  int wheels".toList, "\x7d".toList], ["interface Engine".toList]]

/-- A plain association, a member and a composition. -/
def garageLines : List (List Char) :=
  ["Car -- Engine : drives".toList, "Engine : start()".toList, "Car *-- Engine : has".toList]

theorem isDeclaration_garageBlocks :
    ∀ b ∈ garageBlocks, IsDeclaration (b.map strippedLine) := by
  have hcar : header? "class Car \x7b".toList = some ⟨"Car", .ofClass false none [], some []⟩ := by
    decide +kernel
  have hengine : header? "interface Engine".toList = some ⟨"Engine", .ofInterface, none⟩ := by
    decide +kernel
  have hmatched : Matched "  int wheels".toList := by
    have hnone : ∀ s : List Char, (∀ c ∈ s, isBrace c = false) → Matched s := by
      intro s hs
      induction s with
      | nil => exact .nil
      | cons c r ih =>
          obtain ⟨hc, hr⟩ := List.forall_mem_cons.mp hs
          exact .char hc (ih hr)
    exact hnone _ (by decide)
  have hlines : garageBlocks.map (List.map strippedLine) =
      [[{ text := "class Car \x7b".toList }, { text := "  int wheels".toList },
        { text := ['\x7d'] }], [{ text := "interface Engine".toList }]] := by
    decide +kernel
  have hall : ∀ ls ∈ garageBlocks.map (List.map strippedLine), IsDeclaration ls := by
    rw [hlines]
    intro ls hls
    rcases List.mem_cons.mp hls with rfl | hls
    · have htext : "class Car \x7b".toList = "class Car ".toList ++ '\x7b' :: [] := rfl
      refine .braced hcar htext (by decide) ?_
      exact ⟨[{ text := [] }, { text := "  int wheels".toList }], { text := ['\x7d'] }, [], rfl, rfl,
        hmatched⟩
    · rw [List.mem_singleton.mp hls]
      exact .bare hengine (by decide)
  exact fun b hb => hall _ (List.mem_map_of_mem hb)

theorem standsAlone_garageLines : ∀ l ∈ garageLines, StandsAlone l := by
  have hall : ∀ l ∈ garageLines, (∀ c ∈ l, isBrace c = false) ∧
      header? (strippedLine l).text = none := by
    decide +kernel
  exact fun l hl => .of_forall (hall l hl).1 (hall l hl).2

/-- The text of some lines. -/
def textOf (ls : List (List Char)) : String :=
  String.ofList (joinLines ls)

theorem exists_read_interleaved_garage :
    (∀ b ∈ garageBlocks, IsDeclaration (b.map strippedLine)) ∧
      (∀ l ∈ garageLines, StandsAlone l) ∧
      (Diagram.read (textOf ["class Car \x7b".toList, "  int wheels".toList, "\x7d".toList,
          "interface Engine".toList, "Car -- Engine : drives".toList, "Engine : start()".toList,
          "Car *-- Engine : has".toList])).value =
        (Diagram.read (textOf ["Car -- Engine : drives".toList, "Engine : start()".toList,
          "class Car \x7b".toList, "  int wheels".toList, "\x7d".toList,
          "Car *-- Engine : has".toList, "interface Engine".toList])).value := by
  have hlines : ∀ ls : List (List Char), ls ≠ [] → (∀ l ∈ ls, '\n' ∉ l) →
      splitOnChar '\n' (textOf ls).toList = ls := by
    intro ls hne hls
    rw [textOf, String.toList_ofList, splitOnChar_joinLines hne hls]
  obtain ⟨m, -, hread⟩ := exists_read_interleaved isDeclaration_garageBlocks standsAlone_garageLines
  refine ⟨isDeclaration_garageBlocks, standsAlone_garageLines, (hread _ ?_).trans (hread _ ?_).symm⟩
  · rw [hlines _ (List.cons_ne_nil _ _) (by decide)]
    exact .chunk (.chunk (.single (.single (.single .nil))))
  · rw [hlines _ (List.cons_ne_nil _ _) (by decide)]
    exact .single (.single (.chunk (.single (.chunk .nil))))

end ClassModel
