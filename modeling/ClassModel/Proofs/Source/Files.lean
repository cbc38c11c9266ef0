/-
Reading source files.

A file is a package, imports and types, one behind the other, and each part is told by its
first word.  So a tree whose names are names is read back from its tokens in every layout,
with nothing left of the text.

The path of an import is the one token that may hold spaces.  It is read up to the
semicolon, and its words are put together again with single spaces.
-/
import ClassModel.Source.Reader
import ClassModel.Proofs.Source.Declarations

namespace ClassModel.Source

open Recogniser

variable {us : List Token}

/-! ### The tokens of a file -/

/-- The tokens of the package of a file. -/
def packageTokens : List String → List Token
  | [] => []
  | s :: r => .word "package" :: (separated ['.'] (fun name => [.word name]) (s :: r) ++
      [.symbol [';']])

/-- The tokens of an import. -/
def importTokens (p : String) : List Token :=
  [.word "import", .path p, .symbol [';']]

/-- The tokens of a source file. -/
def CompilationUnit.tokens (u : CompilationUnit) : List Token :=
  packageTokens u.package ++ (u.imports.flatMap importTokens ++
    u.types.flatMap Declaration.tokens)

/-- A source file of names. -/
structure CompilationUnit.Proper (u : CompilationUnit) : Prop where
  package : ∀ s ∈ u.package, IsName s
  imports : ∀ p ∈ u.imports, IsPath p
  types : ∀ d ∈ u.types, d.Proper

/-! ### Imports -/

theorem words_append {w r : List Char} (hne : w ≠ []) (hw : ∀ c ∈ w, isBlank c = false)
    (hr : ∀ c ∈ r.head?, isBlank c = true) : words (w ++ r) = w :: words r := by
  obtain ⟨c, v, rfl⟩ := List.exists_cons_of_ne_nil hne
  have hc : isBlank c = false := hw c (by simp)
  have hv : ∀ d ∈ v, (!isBlank d) = true := fun d hd => by simp [hw d (by simp [hd])]
  have hstop : Stops (!isBlank ·) r := fun d hd => by simp [hr d hd]
  rw [words]
  split
  · rename_i h
    rw [List.cons_append, List.dropWhile_cons_of_neg (by simp [hc])] at h
    cases h
  · rename_i d s h
    rw [List.cons_append, List.dropWhile_cons_of_neg (by simp [hc])] at h
    cases h
    rw [takeWhile_append_of_stops hv hstop, dropWhile_append_of_stops hv hstop]

theorem words_blank {c : Char} (hc : isBlank c = true) (s : List Char) :
    words (c :: s) = words s := by
  have hdrop : (c :: s).dropWhile isBlank = s.dropWhile isBlank := List.dropWhile_cons_of_pos hc
  rw [words, words]
  split
  · rename_i h
    rw [hdrop] at h
    split
    · rfl
    · rename_i h'
      rw [h] at h'
      cases h'
  · rename_i d r h
    rw [hdrop] at h
    split
    · rename_i h'
      rw [h] at h'
      cases h'
    · rename_i h'
      rw [h] at h'
      cases h'
      rfl

/-- The words of a path are the words it is made of. -/
theorem words_path {w : String} {ws : List String}
    (h : ∀ v ∈ w :: ws, v ≠ "" ∧ ∀ c ∈ v.toList, isBlank c = false) :
    words (w.toList ++ ws.flatMap fun v => ' ' :: v.toList) = (w :: ws).map String.toList := by
  induction ws generalizing w with
  | nil =>
      have hw := h w (by simp)
      rw [List.flatMap_nil, words_append (mt String.toList_eq_nil_iff.mp hw.1) hw.2 (by simp), words]
      rfl
  | cons v vs ih =>
      have hw := h w (by simp)
      have hblank : isBlank ' ' = true := rfl
      rw [words_append (mt String.toList_eq_nil_iff.mp hw.1) hw.2 (by simp [hblank]),
        List.flatMap_cons, List.cons_append, words_blank hblank, ih fun u hu => h u (by simp_all)]
      rfl

theorem IsPath.words_eq {p : String} (h : IsPath p) :
    String.intercalate " " ((words p.toList).map String.ofList) = p ∧
      ∀ c ∈ p.toList, (c != ';') = true := by
  obtain ⟨ws, hne, hall, rfl⟩ := h
  cases ws with
  | nil => exact absurd rfl hne
  | cons w ws =>
      rw [toList_intercalate_space]
      constructor
      · have hback : ((w :: ws).map String.toList).map String.ofList = w :: ws := by
          rw [List.map_map]
          exact (List.map_congr_left fun v _ => String.ofList_toList).trans (List.map_id _)
        rw [words_path fun v hv => ⟨(hall v hv).1, fun c hc => ((hall v hv).2 c hc).1⟩, hback]
      · intro c hc
        rw [bne_iff_ne]
        rintro rfl
        rw [List.mem_append, List.mem_flatMap] at hc
        rcases hc with hc | ⟨v, hv, hc⟩
        · exact ((hall w (by simp)).2 _ hc).2.1 rfl
        · rcases List.mem_cons.mp hc with hc | hc
          · cases hc
          · exact ((hall v (by simp [hv])).2 _ hc).2.1 rfl

/-- The text up to the semicolon is the path. -/
theorem reads_path {p : String} (hp : IsPath p) :
    Reads (run (· != ';')) (.path p :: .symbol [';'] :: us) p.toList (.symbol [';'] :: us) := by
  intro s hs
  obtain ⟨x, g, r, rfl, hx, -, hr, -, htight⟩ := hs.exists_cons
  obtain rfl : g = [] := htight rfl
  cases hx
  have hstop : Stops (· != ';') r := hr.stops fun t ht x c hx hc => by
    cases ht
    obtain rfl : ';' = c := by simpa [Token.mayBegin] using hc
    rfl
  rw [List.nil_append]
  refine ⟨r, hr, ?_, ?_⟩
  · rw [cut_run, takeWhile_append_of_stops hp.words_eq.2 hstop,
      dropWhile_append_of_stops hp.words_eq.2 hstop]
  · obtain ⟨c, v, he, -⟩ := hp.exists_cons
    rw [he]
    simp only [List.length_append, List.length_cons]
    omega

theorem reads_import {p : String} (hp : IsPath p) :
    Reads importPath (importTokens p ++ us) p us := by
  refine (reads_keyword _ _).bind ((reads_path hp).bind ((reads_token _).bind ?_))
  rw [hp.words_eq.1]
  exact Reads.pure p us

/-! ### Parts of a file -/

/-- What the types of a file may begin with. -/
theorem heads_types {P : Token → Prop} (types : List Declaration) (hmodifier : ∀ m : Modifier, P m.token)
    (hkeyword : ∀ w ∈ ["class", "interface", "enum"], P (.word w)) :
    Heads P (types.flatMap Declaration.tokens) := by
  have hone : ∀ (ms : List Modifier) (w : String) (ts : List Token), P (.word w) →
      Heads P (ms.map Modifier.token ++ .word w :: ts) := by
    intro ms w ts hw
    cases ms with
    | nil => exact heads_cons.mpr hw
    | cons m r => exact heads_cons.mpr (hmodifier m)
  cases types with
  | nil => exact heads_nil P
  | cons d r =>
      rw [List.flatMap_cons]
      cases d <;>
        (rw [Declaration.tokens, List.append_assoc]
         exact hone _ _ _ (hkeyword _ (by simp)))

theorem isNot_modifier {w : String} (h : w ≠ "non" ∧ ∀ m : Modifier, m.keyword ≠ w) (m : Modifier) :
    m.token.IsNot w := by
  cases m <;> first | exact isNot_word (h.2 _) | exact ⟨rfl, fun he => h.1 (Option.some.inj he).symm⟩

theorem fails_import (types : List Declaration) :
    Fails importPath (types.flatMap Declaration.tokens) := by
  refine Fails.bind (fails_keyword (heads_types types (isNot_modifier ⟨by decide, fun m => ?_⟩) ?_))
  · cases m <;> decide
  · intro w hw
    exact isNot_word (by rintro rfl; exact absurd hw (by decide))

theorem reads_imports {imports : List String} (h : ∀ p ∈ imports, IsPath p)
    (types : List Declaration) :
    Reads (many importPath) (imports.flatMap importTokens ++ types.flatMap Declaration.tokens)
      imports (types.flatMap Declaration.tokens) := by
  have hread : Reads (many importPath)
      (imports.flatMap importTokens ++ types.flatMap Declaration.tokens) (imports.map id)
      (types.flatMap Declaration.tokens) :=
    Reads.many (fails_import types) (fun p hp _ => reads_import (h p hp)) fun p _ =>
      List.cons_ne_nil _ _
  rwa [List.map_id] at hread

theorem reads_types {types : List Declaration} (h : ∀ d ∈ types, d.Proper) :
    Reads (many topLevel) (types.flatMap Declaration.tokens) (types.map some) [] := by
  have hend : Fails topLevel [] :=
    Fails.orElse (fails_declaration (heads_nil _)).map (Fails.bind (fails_token (heads_nil _)))
  have hread : Reads (many topLevel) (types.flatMap Declaration.tokens ++ []) (types.map some) [] :=
    Reads.many hend (fun d hd _ => Reads.orElse (reads_declaration (h d hd)).map) fun d _ =>
      d.tokens_ne_nil
  rwa [List.append_nil] at hread

theorem reads_package {segments : List String} (h : ∀ s ∈ segments, IsName s)
    (hplain : Heads (fun t => t.isTight = false) us)
    (hkeyword : Heads (Token.IsNot "package") us) :
    ∃ o, Reads (Recogniser.optional package) (packageTokens segments ++ us) o us ∧
      o.getD [] = segments := by
  cases segments with
  | nil =>
      have hmarks : Reads (many annotation) us [] us := reads_noAnnotations hplain
      exact ⟨none, Fails.optional (hmarks.bind_fails (Fails.bind (fails_keyword hkeyword))), rfl⟩
  | cons s r =>
      have hmarks : Reads (many annotation) (packageTokens (s :: r) ++ us) []
          (packageTokens (s :: r) ++ us) := reads_noAnnotations (heads_cons.mpr rfl)
      have hno : isIdentifierStart '.' = false := by decide
      have hlist : Reads (sepBy1 identifier (token ['.']))
          (separated ['.'] (fun name => [.word name]) (s :: r) ++ .symbol [';'] :: us) (s :: r)
          (.symbol [';'] :: us) :=
        Reads.sepBy1 (F := fun _ => True) (fun _ => trivial) trivial
          (Fails.bind (fails_token (heads_cons.mpr rfl))) (List.cons_ne_nil s r)
          fun name hname ws _ => reads_name (h name hname)
      have htokens : packageTokens (s :: r) ++ us =
          .word "package" :: (separated ['.'] (fun name => [.word name]) (s :: r) ++
            .symbol [';'] :: us) := by
        simp [packageTokens]
      refine ⟨some (s :: r), Reads.optional ?_, rfl⟩
      rw [htokens] at hmarks ⊢
      exact hmarks.bind ((reads_keyword _ _).bind (hlist.bind ((reads_token _).bind (.pure _ _))))

theorem reads_done : Reads done [] () [] := by
  intro s hs
  cases hs
  exact ⟨[], .nil, rfl, Nat.le_refl _⟩

/-- A layout of the tokens of a file is cut into its tree. -/
theorem cut_compilationUnit {u : CompilationUnit} (hu : u.Proper) {s : List Char}
    (h : LaidOut u.tokens s) : ∃ r, compilationUnit.cut s = some (u, r) := by
  obtain ⟨package, imports, types⟩ := u
  obtain ⟨g, s, hg, hs, rfl⟩ := h
  -- What stands behind the package is neither an annotation nor a package.
  have hheads : ∀ P : Token → Prop, P (.word "import") → (∀ m : Modifier, P m.token) →
      (∀ w ∈ ["class", "interface", "enum"], P (.word w)) →
        Heads P (imports.flatMap importTokens ++ types.flatMap Declaration.tokens) := by
    intro P himport hmodifier hword
    cases imports with
    | nil => exact heads_types types hmodifier hword
    | cons p r => exact heads_cons.mpr himport
  have hkeyword : Heads (Token.IsNot "package")
      (imports.flatMap importTokens ++ types.flatMap Declaration.tokens) := by
    refine hheads _ (isNot_word (by decide)) (isNot_modifier ⟨by decide, fun m => ?_⟩) ?_
    · cases m <;> decide
    · intro w hw
      exact isNot_word (by rintro rfl; exact absurd hw (by decide))
  have hplain : Heads (fun t => t.isTight = false)
      (imports.flatMap importTokens ++ types.flatMap Declaration.tokens) :=
    hheads _ rfl (fun m => by cases m <;> rfl) fun _ _ => rfl
  obtain ⟨o, hpackage, ho⟩ := reads_package hu.package hplain hkeyword
  have hread : Reads (Recogniser.optional Source.package >>= fun segments =>
      many importPath >>= fun imports => many topLevel >>= fun types => done >>= fun _ =>
        (pure { package := segments.getD [], imports, types := types.filterMap id } :
          Recogniser CompilationUnit))
      (CompilationUnit.tokens ⟨package, imports, types⟩) ⟨package, imports, types⟩ [] := by
    have hall : (types.map some).filterMap id = types := by
      rw [List.filterMap_map]
      exact List.filterMap_some
    refine hpackage.bind ((reads_imports hu.imports types).bind ((reads_types hu.types).bind
      (reads_done.bind ?_)))
    rw [ho, hall]
    exact Reads.pure _ []
  obtain ⟨r, hr, hcut, -⟩ := hread s hs
  refine ⟨r, ?_⟩
  show (trivia >>= fun _ => _).cut (g ++ s) = _
  rw [cut_bind_unit, cut_trivia hg hs.stops_beginsTrivia, Option.bind_some]
  exact hcut

theorem read_of_cut {u : CompilationUnit} {text : String} {r : List Char}
    (h : compilationUnit.cut text.toList = some (u, r)) : CompilationUnit.read text = .ok u := by
  have houtcome := outcome_eq_some_iff.mpr h
  unfold CompilationUnit.read
  simp only [houtcome]

/-- **A source file is read back from its tokens, whatever the layout.** -/
theorem read_of_laidOut {u : CompilationUnit} (hu : u.Proper) {text : String}
    (h : LaidOut u.tokens text.toList) : CompilationUnit.read text = .ok u := by
  obtain ⟨r, hr⟩ := cut_compilationUnit hu h
  exact read_of_cut hr

/-- A class with an import, a field, a constructor and a method. -/
def boxUnit : CompilationUnit where
  package := []
  imports := ["b.C"]
  types := [.ofClass [.final] "Box" none []
    [.field { modifiers := [], type := .primitive "int" 1, declarators := [⟨"xs", 0⟩] },
      .constructor "Box",
      .method
        { modifiers := [], result := none, name := "put"
          parameters := [⟨some (.reference [.applied "T" [.wildcard]] 0), "vs", true⟩] }]]

/-- The same class as a text. -/
def boxText : String :=
  "import b.C;// boxes\nfinal class Box\x7bint[]xs; Box()\x7b\x7d void put(T<?>/* all */...vs);\x7d\n"

theorem proper_boxUnit : boxUnit.Proper := by
  have hpath : IsPath "b.C" := ⟨["b.C"], by decide, by decide, rfl⟩
  have htype : (TypeExpr.reference [.applied "T" [.wildcard]] 0).Proper := by
    simp only [TypeExpr.Proper, properSegments, TypeSegment.Proper, properArguments,
      TypeArgument.Proper]
    decide
  have harray : (TypeExpr.primitive "int" 1).Proper := by
    rw [TypeExpr.Proper]
    decide
  refine ⟨by simp [boxUnit], by simpa [boxUnit] using hpath, ?_⟩
  intro d hd
  rcases List.mem_singleton.mp hd with rfl
  rw [Declaration.Proper, properMembers, properMembers, properMembers, properMembers, Member.Proper,
    Member.Proper, Member.Proper]
  refine ⟨by decide, by simp, by simp, ⟨harray, by simp, by decide⟩, by decide, ⟨by simp, by decide, ?_⟩,
    trivial⟩
  intro f hf
  rcases List.mem_singleton.mp hf with rfl
  exact ⟨by decide, by rintro t ⟨⟩; exact htype, by simp⟩

theorem laidOut_boxUnit : LaidOut boxUnit.tokens boxText.toList := by
  have htokens : boxUnit.tokens = [.word "import", .path "b.C", .symbol [';'], .word "final",
      .word "class", .word "Box", .symbol ['\x7b'], .word "int", .symbol ['['], .symbol [']'],
      .word "xs", .symbol [';'], .word "Box", .symbol ['('], .symbol [')'], .block, .word "void",
      .word "put", .symbol ['('], .word "T", .symbol ['<'], .symbol ['?'], .symbol ['>'],
      .symbol ['.', '.', '.'], .word "vs", .symbol [')'], .ending, .symbol ['\x7d']] := by
    simp [boxUnit, CompilationUnit.tokens, packageTokens, importTokens, Declaration.tokens,
      superclassTokens, clauseTokens, membersTokens, Member.tokens, Field.rest, Procedure.rest,
      resultTokens, formalsTokens, constructorTokens, separated, Formal.tokens, Declarator.tokens,
      dimsTokens, TypeExpr.tokens, classTypeTokens, segmentsTokens, TypeSegment.tokens,
      argumentsTokens, moreArgumentsTokens, TypeArgument.tokens, Modifier.token, Modifier.keyword]
  have hpath : IsPath "b.C" := ⟨["b.C"], by decide, by decide, rfl⟩
  have hremark : Trivia "// boxes\n".toList :=
    @Trivia.line " boxes".toList [] (by decide) .nil
  have hcomment : Trivia "/* all */".toList :=
    @Trivia.block " all ".toList [] (by decide) .nil
  have hblock : Token.Spells .block ['\x7b', '\x7d'] := .block .nil
  have htext : boxText.toList = "import".toList ++ ' ' :: ("b.C".toList ++ ';' ::
      ("// boxes\n".toList ++ ("final".toList ++ ' ' :: ("class".toList ++ ' ' :: ("Box".toList ++
      (['\x7b'] ++ ("int".toList ++ (['['] ++ ([']'] ++ ("xs".toList ++ ([';'] ++ ' ' ::
      ("Box".toList ++ (['('] ++ ([')'] ++ (['\x7b', '\x7d'] ++ ' ' :: ("void".toList ++ ' ' ::
      ("put".toList ++ (['('] ++ ("T".toList ++ (['<'] ++ (['?'] ++ (['>'] ++
      ("/* all */".toList ++ (['.', '.', '.'] ++ ("vs".toList ++ ([')'] ++ ([';'] ++
      (['\x7d'] ++ ['\n'])))))))))))))))))))))))))))) := by
    decide
  rw [htokens, htext]
  refine .word (by decide) rfl (.path hpath (.trivia hremark (.word (by decide) rfl
    (.word (by decide) rfl (.wordEnd (by decide) rfl (.symbol (by decide) ?_))))))
  refine .wordEnd (by decide) rfl (.symbol (by decide) (.symbol (by decide)
    (.wordEnd (by decide) rfl (.symbol (by decide) (.white rfl ?_)))))
  refine .wordEnd (by decide) rfl (.symbol (by decide) (.symbol (by decide)
    (.token hblock rfl (by simp [Token.isWord]) (.white rfl ?_))))
  refine .word (by decide) rfl (.wordEnd (by decide) rfl (.symbol (by decide)
    (.wordEnd (by decide) rfl (.symbol (by decide) (.symbol (by decide) (.symbol (by decide) ?_))))))
  exact .trivia hcomment (.symbol (by decide) (.wordEnd (by decide) rfl (.symbol (by decide)
    (.token .semicolon rfl (by simp [Token.isWord]) (.symbol (by decide) (.white rfl .nil))))))

theorem read_boxText :
    boxUnit.Proper ∧ LaidOut boxUnit.tokens boxText.toList ∧
      CompilationUnit.read boxText = .ok boxUnit :=
  ⟨proper_boxUnit, laidOut_boxUnit, read_of_laidOut proper_boxUnit laidOut_boxUnit⟩

end ClassModel.Source
