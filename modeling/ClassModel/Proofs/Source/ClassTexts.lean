/-
Files with fields.

A field stands among the members of a declaration, and that among the members of another one
or among the types of a file.  What else stands there does not matter: it is whatever the
grammar reads, in front of the fields, between them and behind them.  So a file is described
around its fields, and what is said is that the file is read as its parts are.

A declaration is described by what it reads in front of its members, which gives the
declaration that the members make.
-/
import ClassModel.Proofs.Source.FieldTexts
import ClassModel.Proofs.Source.Files

namespace ClassModel.Source

open Recogniser

variable {s t u g r : List Char}

/-! ### Texts of declarations and files -/

/-- A class up to its members. -/
def classHead (ms : List Modifier) : Recogniser (List Member → Declaration) := do
  keyword "class"
  let name ← identifier
  let _ ← optional typeParameters
  let superclass ← optional do
    keyword "extends"
    classType
  let interfaces ← clause "implements"
  let _ ← clause "permits"
  token ['\x7b']
  return .ofClass ms name superclass interfaces

/-- An interface up to its members. -/
def interfaceHead (ms : List Modifier) : Recogniser (List Member → Declaration) := do
  keyword "interface"
  let name ← identifier
  let _ ← optional typeParameters
  let parents ← clause "extends"
  let _ ← clause "permits"
  token ['\x7b']
  return .ofInterface ms name parents

/-- An enum up to what stands behind its constants. -/
def enumConstants (ms : List Modifier) : Recogniser (List Member → Declaration) := do
  keyword "enum"
  let name ← identifier
  let interfaces ← clause "implements"
  token ['\x7b']
  let names ← constants
  return .ofEnum ms name interfaces names

/-- An enum up to its members. -/
def enumHead (ms : List Modifier) : Recogniser (List Member → Declaration) := do
  let make ← enumConstants ms
  token [';']
  return make

/-- A declaration up to its members. -/
def opening : Recogniser (List Member → Declaration) := do
  let ms ← modifiers
  classHead ms <|> interfaceHead ms <|> enumHead ms

mutual

/-- A declaration in a text, and what stands behind it. -/
inductive DeclarationText : Declaration → List Char → List Char → Prop where
  | intro {d : Declaration} {make : List Member → Declaration} {ms : List Member}
      {s t g r : List Char} (hd : make ms = d) (hs : opening.cut s = some (make, t))
      (hms : MembersText ms t ('\x7d' :: (g ++ r))) (hg : Gap g r) : DeclarationText d s r

/-- Members in a text up to the closing brace. -/
inductive MembersText : List Member → List Char → List Char → Prop where
  | nil {r : List Char} : MembersText [] ('\x7d' :: r) ('\x7d' :: r)
  | field {f : Field} {ms : List Member} {s t r : List Char} (hf : FieldText f s t)
      (hms : MembersText ms t r) : MembersText (.field f :: ms) s r
  | type {d : Declaration} {ms : List Member} {s t r : List Char} (hd : DeclarationText d s t)
      (hms : MembersText ms t r) : MembersText (.type d :: ms) s r
  | other {m : Option Member} {ms : List Member} {s t r : List Char}
      (hm : (member declaration).cut s = some (m, t)) (hms : MembersText ms t r) :
      MembersText (m.toList ++ ms) s r

end

/-- The types of a file in its text. -/
inductive TypesText : List Declaration → List Char → Prop where
  | nil : TypesText [] []
  | type {d : Declaration} {ds : List Declaration} {s t : List Char} (hd : DeclarationText d s t)
      (hds : TypesText ds t) : TypesText (d :: ds) s
  | other {d : Option Declaration} {ds : List Declaration} {s t : List Char}
      (hd : topLevel.cut s = some (d, t)) (hds : TypesText ds t) : TypesText (d.toList ++ ds) s

/-- The package and the imports of a file. -/
def preamble : Recogniser (List String × List String) := do
  trivia
  let segments ← optional package
  let imports ← many importPath
  return (segments.getD [], imports)

/-- A file in its text. -/
def UnitText (unit : CompilationUnit) (s : List Char) : Prop :=
  ∃ t, preamble.cut s = some ((unit.package, unit.imports), t) ∧ TypesText unit.types t

/-! ### Declarations around their members -/

section Declarations

variable {nested : Recogniser Declaration} {ms : List Modifier} {inner : List Member}
  {make : List Member → Declaration}

theorem classDeclaration_eq (nested : Recogniser Declaration) (ms : List Modifier) :
    classDeclaration nested ms = (classHead ms >>= fun make => members nested >>= fun inner =>
      token ['\x7d'] >>= fun _ => pure (make inner)) := by
  simp only [classDeclaration, classHead, body, bind_assoc, pure_bind]

theorem interfaceDeclaration_eq (nested : Recogniser Declaration) (ms : List Modifier) :
    interfaceDeclaration nested ms = (interfaceHead ms >>= fun make => members nested >>=
      fun inner => token ['\x7d'] >>= fun _ => pure (make inner)) := by
  simp only [interfaceDeclaration, interfaceHead, body, bind_assoc, pure_bind]

theorem enumDeclaration_eq (nested : Recogniser Declaration) (ms : List Modifier) :
    enumDeclaration nested ms = (enumConstants ms >>= fun make =>
      optional (token [';'] >>= fun _ => members nested) >>= fun inner =>
        token ['\x7d'] >>= fun _ => pure (make (inner.getD []))) := by
  simp only [enumDeclaration, enumConstants, bind_assoc, pure_bind]

/-- A declaration is read if its members are. -/
theorem cut_declarationStep (hs : opening.cut s = some (make, t))
    (hinner : (members nested).cut t = some (inner, '\x7d' :: (g ++ r))) (hg : Gap g r) :
    (declarationStep nested).cut s = some (make inner, r) := by
  have hclosing := hg.cut_token '\x7d'
  have hbody : ∀ {head : Recogniser (List Member → Declaration)} {v : List Char},
      head.cut v = some (make, t) → (head >>= fun make => members nested >>= fun inner =>
        token ['\x7d'] >>= fun _ => pure (make inner)).cut v = some (make inner, r) := by
    intro head v hhead
    rw [cut_bind, hhead, Option.bind_some, cut_bind, hinner, Option.bind_some, cut_bind_unit,
      hclosing]
    rfl
  rw [opening, cut_bind, Option.bind_eq_some_iff] at hs
  obtain ⟨⟨ms, v⟩, hmodifiers, hs⟩ := hs
  rw [declarationStep, cut_bind, hmodifiers, Option.bind_some, cut_orElse, cut_orElse]
  simp only [cut_orElse, Option.or_eq_some_iff] at hs
  rcases hs with hclass | ⟨hclass, hinterface | ⟨hinterface, henum⟩⟩
  · rw [classDeclaration_eq, hbody hclass, Option.some_or]
  · rw [classDeclaration_eq, interfaceDeclaration_eq, hbody hinterface, cut_bind, hclass]
    rfl
  · rw [enumHead, cut_bind, Option.bind_eq_some_iff] at henum
    obtain ⟨⟨make', w⟩, hconstants, henum⟩ := henum
    rw [cut_bind, Option.bind_eq_some_iff] at henum
    obtain ⟨⟨_, w'⟩, hsemicolon, he⟩ := henum
    rw [cut_pure] at he
    cases he
    dsimp only at hsemicolon
    have hmembers : (optional (token [';'] >>= fun _ => members nested)).cut w =
        some (some inner, '\x7d' :: (g ++ r)) := by
      rw [cut_optional, cut_bind_unit, hsemicolon, Option.bind_some, hinner]
      rfl
    rw [classDeclaration_eq, interfaceDeclaration_eq, enumDeclaration_eq, cut_bind, hclass,
      cut_bind, hinterface, cut_bind, hconstants]
    show (none : Option _).or ((none : Option _).or (cut (_ >>= _) w)) = _
    rw [cut_bind, hmembers, Option.bind_some, cut_bind_unit, hclosing]
    rfl

end Declarations

/-- A class without type parameters, parents and interfaces. -/
theorem cut_opening_class {name : String} (hmodifiers : modifiers.cut s = some ([], s))
    (h : (keyword "class" >>= fun _ => identifier >>= fun name => token ['\x7b'] >>= fun _ =>
      pure name).cut s = some (name, r)) :
    opening.cut s = some (.ofClass [] name none [], r) := by
  rw [cut_bind_unit, Option.bind_eq_some_iff] at h
  obtain ⟨⟨_, t⟩, hclass, h⟩ := h
  rw [cut_bind, Option.bind_eq_some_iff] at h
  obtain ⟨⟨_, u⟩, hname, h⟩ := h
  rw [cut_bind_unit, Option.bind_eq_some_iff] at h
  obtain ⟨⟨_, _⟩, hbrace, he⟩ := h
  cases he
  obtain ⟨v, rfl⟩ : ∃ v, u = '\x7b' :: v := by
    rw [token, cut_bind_unit, Option.bind_eq_some_iff] at hbrace
    obtain ⟨⟨_, v⟩, hliteral, -⟩ := hbrace
    exact ⟨v, cut_literal_eq_some hliteral⟩
  have hstart : Stops isIdentifierStart ('\x7b' :: v) := stops_cons.mpr (by decide)
  have hclause : ∀ word, (clause word).cut ('\x7b' :: v) = some ([], '\x7b' :: v) := by
    intro word
    rw [clause, cut_bind, cut_optional, cut_bind_unit, keyword_none hstart]
    rfl
  have hparent : (optional (keyword "extends" >>= fun _ => classType)).cut ('\x7b' :: v) =
      some (none, '\x7b' :: v) := by
    rw [cut_optional, cut_bind_unit, keyword_none hstart]
    rfl
  rw [opening, cut_bind, hmodifiers, Option.bind_some, cut_orElse, classHead, cut_bind_unit, hclass,
    Option.bind_some, cut_bind, hname, Option.bind_some, cut_bind,
    cut_optional_typeParameters (stops_mark (by decide)), Option.bind_some, cut_bind, hparent,
    Option.bind_some, cut_bind, hclause, Option.bind_some, cut_bind, hclause, Option.bind_some,
    cut_bind_unit, hbrace]
  rfl

/-! ### Where no member begins -/

theorem declaration_fails (hstart : Stops isIdentifierStart s) (hat : Stops (· == '@') s) :
    declaration.cut s = none := by
  rw [cut_declaration, declarationStep, cut_bind, modifiers_none hstart hat, Option.bind_some,
    cut_orElse, cut_orElse, classDeclaration, interfaceDeclaration, enumDeclaration, cut_bind,
    cut_bind, cut_bind, keyword_none hstart, keyword_none hstart, keyword_none hstart]
  rfl

/-- Where a declaration stands, no semicolon stands. -/
theorem stray_fails_of_declaration {d : Declaration} (h : declaration.cut s = some (d, r)) :
    (token [';']).cut s = none := by
  refine token_fails_of_forall ?_
  rintro v rfl
  rw [declaration_fails (stops_cons.mpr (by decide)) (stops_mark (by decide))] at h
  cases h

/-- No member begins with a closing brace. -/
theorem member_fails (r : List Char) : (member declaration).cut ('\x7d' :: r) = none := by
  have hstart : Stops isIdentifierStart ('\x7d' :: r) := stops_cons.mpr (by decide)
  have hat : Stops (· == '@') ('\x7d' :: r) := stops_mark (by decide)
  have htypeParameters : (optional typeParameters).cut ('\x7d' :: r) = some (none, '\x7d' :: r) :=
    cut_optional_typeParameters (stops_mark (by decide))
  have hresult : resultOf.cut ('\x7d' :: r) = none := by
    rw [resultOf, cut_orElse, cut_bind_unit, keyword_none hstart, map_eq_pure_bind, cut_bind,
      typeExpr_fails hstart]
    rfl
  have hmethod : (method []).cut ('\x7d' :: r) = none := by
    show ((optional typeParameters) >>= fun _ => resultOf >>= _).cut _ = none
    rw [cut_bind, htypeParameters, Option.bind_some, cut_bind, hresult, Option.bind_none]
  have hfield : (field []).cut ('\x7d' :: r) = none := by
    rw [field, cut_bind, typeExpr_fails hstart, Option.bind_none]
  have hconstructor : constructor.cut ('\x7d' :: r) = none := by
    rw [constructor, cut_bind, htypeParameters, Option.bind_some, cut_bind, identifier, cut_bind,
      cut_check, rawIdentifier_fails hstart]
    rfl
  have hblock : block.cut ('\x7d' :: r) = none := by
    rw [block, cut_bind_unit, balanced_fails (stops_mark (by decide)), Option.bind_none]
  rw [member, cut_orElse, cut_orElse, cut_bind, token_fails (stops_mark (by decide)), cut_bind,
    declaration_fails hstart hat, cut_bind, modifiers_none hstart hat]
  show ((kinds [] >>= fun m => pure (some m)).cut ('\x7d' :: r)) = none
  rw [cut_bind, kinds, cut_orElse, cut_orElse, cut_orElse, hmethod, hfield, hconstructor, cut_bind,
    hblock]
  rfl

/-! ### Reading declarations and files -/

section Reading

variable {d : Declaration} {ms : List Member}

/-- One more member in front of others. -/
theorem cut_members_cons {m : Option Member} (hm : (member declaration).cut s = some (m, t))
    (hms : (members declaration).cut t = some (ms, r)) :
    (members declaration).cut s = some (m.toList ++ ms, r) := by
  rw [members, cut_many_bind, Option.bind_eq_some_iff] at hms
  obtain ⟨⟨os, u⟩, hmany, he⟩ := hms
  cases he
  rw [members, cut_many_bind, (consumes_member consumes_declaration).cut_many hm, hmany]
  cases m <;> rfl

/-- A nested type is read as a member. -/
theorem cut_member_of_declaration (h : declaration.cut s = some (d, r)) :
    (member declaration).cut s = some (some (.type d), r) := by
  rw [member, cut_orElse, cut_orElse, cut_bind, stray_fails_of_declaration h, cut_bind, h]
  rfl

mutual

/-- A declaration is read as it stands. -/
theorem DeclarationText.cut_declaration {d : Declaration} {s r : List Char} :
    DeclarationText d s r → declaration.cut s = some (d, r)
  | .intro hd hs hms hg => by
      rw [Source.cut_declaration, ← hd]
      exact cut_declarationStep hs hms.cut_members hg

/-- Members are read up to the closing brace, all of them and in order. -/
theorem MembersText.cut_members {ms : List Member} {s r : List Char} :
    MembersText ms s r → (members declaration).cut s = some (ms, r)
  | .nil => by
      rw [members, cut_many_bind, cut_many_of_none (member_fails _)]
      rfl
  | .field hf hms => cut_members_cons hf.cut_member hms.cut_members
  | .type hd hms =>
      cut_members_cons (cut_member_of_declaration hd.cut_declaration) hms.cut_members
  | .other hm hms => cut_members_cons hm hms.cut_members

end

/-- Types of a file that are read up to its end. -/
theorem cut_types_cons {o : Option Declaration} {ds : List Declaration}
    (ho : topLevel.cut s = some (o, t))
    (hds : ∃ os, cut (many topLevel) t = some (os, []) ∧ os.filterMap id = ds) :
    ∃ os, cut (many topLevel) s = some (os, []) ∧ os.filterMap id = o.toList ++ ds := by
  obtain ⟨os, hmany, rfl⟩ := hds
  refine ⟨o :: os, ?_, by cases o <;> rfl⟩
  rw [consumes_topLevel.cut_many ho, hmany]
  rfl

theorem TypesText.cut_types {ds : List Declaration} (h : TypesText ds s) :
    ∃ os, cut (many topLevel) s = some (os, []) ∧ os.filterMap id = ds := by
  induction h with
  | nil =>
      refine ⟨[], cut_many_of_none ?_, rfl⟩
      rw [topLevel, cut_orElse, map_eq_pure_bind, cut_bind,
        declaration_fails (stops_nil _) (stops_nil _), cut_bind_unit, token_fails (stops_nil _)]
      rfl
  | @type d ds s t hd _ ih =>
      refine cut_types_cons (o := some d) ?_ ih
      rw [topLevel, cut_orElse, map_eq_pure_bind, cut_bind, hd.cut_declaration]
      rfl
  | other ho _ ih => exact cut_types_cons ho ih

/-- A file is read as it stands. -/
theorem UnitText.cut_compilationUnit {unit : CompilationUnit} (h : UnitText unit s) :
    compilationUnit.cut s = some (unit, []) := by
  obtain ⟨packageName, imports, types⟩ := unit
  obtain ⟨t, hpreamble, htypes⟩ := h
  obtain ⟨os, hmany, he⟩ := htypes.cut_types
  rw [preamble, cut_bind_unit, Option.bind_eq_some_iff] at hpreamble
  obtain ⟨⟨_, u⟩, htrivia, hpreamble⟩ := hpreamble
  rw [cut_bind, Option.bind_eq_some_iff] at hpreamble
  obtain ⟨⟨segments, v⟩, hpackage, hpreamble⟩ := hpreamble
  rw [cut_many_bind, Option.bind_eq_some_iff] at hpreamble
  obtain ⟨⟨paths, w⟩, himports, hpair⟩ := hpreamble
  rw [cut_pure] at hpair
  cases hpair
  rw [compilationUnit, cut_bind_unit, htrivia, Option.bind_some, cut_bind, hpackage,
    Option.bind_some, cut_many_bind, himports, Option.bind_some, cut_many_bind, hmany,
    Option.bind_some, he]
  rfl

end Reading

/-! ### Exactness -/

/-- **Initial values are skipped exactly, and no name of a field is lost.**  What stands in front
of a comma or a semicolon is skipped up to there if and only if it is an initial value there.
So a `<` does harm only where a group in angle brackets begins.  A file whose fields have initial
values is read as it stands, with all names of its fields in order. -/
theorem initialValue_exact {rest e : List Char} (hrest : EndsValue rest) :
    ((initialValue (Input.ofChars (e ++ rest))).outcome = some ((), Input.ofChars rest) ↔
        InitialText rest e) ∧
      ∀ unit text, UnitText unit text.toList → CompilationUnit.read text = .ok unit :=
  ⟨outcome_eq_some_iff.trans (cut_initialValue_iff hrest),
    fun _ _ h => read_of_cut h.cut_compilationUnit⟩

/-- A class of fields with a group, a comparison and a call. -/
def gridText : String :=
  "class Grid \x7b int a[] = \x7b1, 2\x7d, b; boolean c = b < 1, d = f(\"<\", b); \x7d"

def gridUnit : CompilationUnit where
  package := []
  imports := []
  types := [.ofClass [] "Grid" none []
    [.field { modifiers := [], type := .primitive "int" 0, declarators := [⟨"a", 1⟩, ⟨"b", 0⟩] },
      .field
        { modifiers := [], type := .primitive "boolean" 0, declarators := [⟨"c", 0⟩, ⟨"d", 0⟩] }]]

theorem declaratorsText_cells (hr : Stops beginsTrivia r) :
    DeclaratorsText [⟨"a", 1⟩, ⟨"b", 0⟩] ("a[] = \x7b1, 2\x7d, b; ".toList ++ r) r := by
  have hgroup : BlockText '\x7b' '\x7d' "\x7b1, 2\x7d".toList :=
    ⟨"1, 2".toList, .plains (by decide), rfl⟩
  have hvalue : InitialText (", b; ".toList ++ r) " \x7b1, 2\x7d".toList :=
    .plain (by decide) (.group (p := ('\x7b', '\x7d')) (by decide) hgroup .nil)
  have ha : DeclaratorText ⟨"a", 1⟩ ("a[] = \x7b1, 2\x7d, b; ".toList ++ r) (", b; ".toList ++ r) :=
    ⟨by decide, by decide, [], _, _, rfl, .nil,
      .cons (g := []) (h := " ".toList) .nil (.white rfl .nil) .nil, .some hvalue⟩
  have hb : DeclaratorText ⟨"b", 0⟩ ("b; ".toList ++ r) ("; ".toList ++ r) :=
    ⟨by decide, by decide, [], _, _, rfl, .nil, .nil, .none⟩
  exact .more (g := " ".toList) ha (.white rfl .nil)
    (.last (g := " ".toList) hb ⟨.white rfl .nil, hr⟩)

/-- The angle bracket begins no group, since a semicolon stands in front of every closing one. -/
theorem initialText_compared : InitialText ", d = f(\"<\", b); \x7d".toList " b < 1".toList := by
  have hnone : angleGroup.cut "< 1, d = f(\"<\", b); \x7d".toList = none := by decide +kernel
  have hangle : ∀ x, AngleText x → ¬x <+: "< 1, d = f(\"<\", b); \x7d".toList := by
    rintro x hx ⟨r, hr⟩
    have hcut := hx.cut_angleGroup r
    rw [hr, hnone] at hcut
    cases hcut
  exact .plains (x := " b ".toList) (by decide)
    (.less hangle (.plains (x := " 1".toList) (by decide) .nil))

theorem declaratorsText_compared :
    DeclaratorsText [⟨"c", 0⟩, ⟨"d", 0⟩] "c = b < 1, d = f(\"<\", b); \x7d".toList
      "\x7d".toList := by
  have hliteral : LiteralBody '"' "<".toList := .plain (by decide) (by decide) .nil
  have hgroup : BlockText '(' ')' "(\"<\", b)".toList :=
    ⟨"\"<\", b".toList, .literal (by decide) hliteral (.plains (x := ", b".toList) (by decide)), rfl⟩
  have hcalled : InitialText "; \x7d".toList " f(\"<\", b)".toList :=
    .plains (x := " f".toList) (by decide) (.group (p := ('(', ')')) (by decide) hgroup .nil)
  have hc : DeclaratorText ⟨"c", 0⟩ "c = b < 1, d = f(\"<\", b); \x7d".toList
      ", d = f(\"<\", b); \x7d".toList :=
    ⟨by decide, by decide, " ".toList, _, _, rfl, .white rfl .nil, .nil, .some initialText_compared⟩
  have hd : DeclaratorText ⟨"d", 0⟩ "d = f(\"<\", b); \x7d".toList "; \x7d".toList :=
    ⟨by decide, by decide, " ".toList, _, _, rfl, .white rfl .nil, .nil, .some hcalled⟩
  exact .more (g := " ".toList) hc (.white rfl .nil)
    (.last (g := " ".toList) hd ⟨.white rfl .nil, stops_cons.mpr (by decide)⟩)

theorem unitText_grid : UnitText gridUnit gridText.toList := by
  have hcells : FieldText
      { modifiers := [], type := .primitive "int" 0, declarators := [⟨"a", 1⟩, ⟨"b", 0⟩] }
      "int a[] = \x7b1, 2\x7d, b; boolean c = b < 1, d = f(\"<\", b); \x7d".toList
      "boolean c = b < 1, d = f(\"<\", b); \x7d".toList := by
    exact ⟨"int a[] = \x7b1, 2\x7d, b; boolean c = b < 1, d = f(\"<\", b); \x7d".toList,
      "a[] = \x7b1, 2\x7d, b; boolean c = b < 1, d = f(\"<\", b); \x7d".toList, by decide +kernel,
      cut_typeExpr_primitive (by decide +kernel),
      declaratorsText_cells (stops_cons.mpr (by decide))⟩
  have hcompared : FieldText
      { modifiers := [], type := .primitive "boolean" 0, declarators := [⟨"c", 0⟩, ⟨"d", 0⟩] }
      "boolean c = b < 1, d = f(\"<\", b); \x7d".toList "\x7d".toList :=
    ⟨"boolean c = b < 1, d = f(\"<\", b); \x7d".toList, "c = b < 1, d = f(\"<\", b); \x7d".toList,
      by decide +kernel, cut_typeExpr_primitive (by decide +kernel),
      declaratorsText_compared⟩
  have hopening : opening.cut gridText.toList = some (.ofClass [] "Grid" none [],
      "int a[] = \x7b1, 2\x7d, b; boolean c = b < 1, d = f(\"<\", b); \x7d".toList) :=
    cut_opening_class (by decide +kernel) (by decide +kernel)
  have hmembers := MembersText.field hcells (.field hcompared .nil)
  exact ⟨gridText.toList, by decide +kernel,
    .type (.intro (g := []) rfl hopening hmembers ⟨.nil, stops_nil _⟩) .nil⟩

theorem initialValue_exact_gridText :
    EndsValue ", d = f(\"<\", b); \x7d".toList ∧
      (initialValue (Input.ofChars " b < 1, d = f(\"<\", b); \x7d".toList)).outcome =
        some ((), Input.ofChars ", d = f(\"<\", b); \x7d".toList) ∧
      CompilationUnit.read gridText = .ok gridUnit := by
  have hrest : EndsValue ", d = f(\"<\", b); \x7d".toList := endsValue_cons (by decide) _
  obtain ⟨hvalue, hread⟩ := initialValue_exact (e := " b < 1".toList) hrest
  exact ⟨hrest, hvalue.mpr initialText_compared, hread _ _ unitText_grid⟩

/-- Where a group begins that ends behind the value, the comma is passed over with the group,
and the name behind it is lost. -/
theorem read_comparisons :
    CompilationUnit.read "class A \x7b boolean a = i < j, b = k > l; \x7d" = .ok
      { package := [], imports := []
        types := [.ofClass [] "A" none [] [.field
          { modifiers := [], type := .primitive "boolean" 0, declarators := [⟨"a", 0⟩] }]] } := by
  have hangle : AngleText "< j, b = k >".toList :=
    ⟨" j, b = k ".toList, .plains (by decide), rfl⟩
  have hvalue : InitialText "; \x7d".toList " i < j, b = k > l".toList :=
    .plains (x := " i ".toList) (by decide)
      (.angle hangle (.plains (x := " l".toList) (by decide) .nil))
  have ha : DeclaratorText ⟨"a", 0⟩ "a = i < j, b = k > l; \x7d".toList "; \x7d".toList :=
    ⟨by decide, by decide, " ".toList, _, _, rfl, .white rfl .nil, .nil, .some hvalue⟩
  have hfield : FieldText
      { modifiers := [], type := .primitive "boolean" 0, declarators := [⟨"a", 0⟩] }
      "boolean a = i < j, b = k > l; \x7d".toList "\x7d".toList :=
    ⟨"boolean a = i < j, b = k > l; \x7d".toList, "a = i < j, b = k > l; \x7d".toList,
      by decide +kernel, cut_typeExpr_primitive (by decide +kernel),
      .last (g := " ".toList) ha ⟨.white rfl .nil, stops_cons.mpr (by decide)⟩⟩
  have hopening : opening.cut "class A \x7b boolean a = i < j, b = k > l; \x7d".toList =
      some (.ofClass [] "A" none [], "boolean a = i < j, b = k > l; \x7d".toList) :=
    cut_opening_class (by decide +kernel) (by decide +kernel)
  refine read_of_cut (UnitText.cut_compilationUnit
    ⟨"class A \x7b boolean a = i < j, b = k > l; \x7d".toList, by decide +kernel, ?_⟩)
  exact .type (.intro (g := []) rfl hopening (.field hfield .nil) ⟨.nil, stops_nil _⟩) .nil

end ClassModel.Source
