/-
Reading header lines.

A written header is a keyword, a name and, for a class, the clauses of its superclass and
of its interfaces, with an opening brace behind them if there is a body.  Every clause takes
the spaces behind it, so a header is read one clause at a time, each from the text that the
one before it leaves once the spaces are gone.

A line is no header if nothing that begins an identifier follows its first word.  That
covers the lines of associations, whichever word stands on their left, and all lines that
begin with something other than a word.
-/
import ClassModel.Diagram.Header
import ClassModel.Proofs.Diagram.Words

namespace ClassModel

open LineParser

/-! ### Written headers -/

/-- The opening brace of a body, if there is one. -/
def openingMark (hasBody : Bool) : List Char :=
  if hasBody then [' ', '\x7b'] else []

/-- The names of a list behind the first one. -/
def namesText (ns : List String) : List Char :=
  ns.flatMap fun n => ',' :: ' ' :: n.toList

/-- The clause of a superclass. -/
def extendsText : Option String → List Char
  | none => []
  | some parent => ' ' :: ("extends".toList ++ ' ' :: parent.toList)

/-- The clause of the interfaces. -/
def implementsText : List String → List Char
  | [] => []
  | n :: ns => ' ' :: ("implements".toList ++ ' ' :: (n.toList ++ namesText ns))

/-- The header of a class behind the mark of an abstract one. -/
def classText (c : Class) : List Char :=
  "class".toList ++ ' ' :: (c.name.toList ++ (extendsText c.superclass ++
    implementsText c.interfaces))

/-- The header of a class. -/
def classHeaderText (c : Class) : List Char :=
  (if c.isAbstract then "abstract".toList ++ [' '] else []) ++ classText c

/-- The header of an interface or an enum. -/
def plainHeaderText (word name : String) : List Char :=
  word.toList ++ ' ' :: name.toList

theorem stops_openingMark {p : Char → Bool} (hp : p ' ' = false) (b : Bool) :
    Stops p (openingMark b) := by
  cases b
  · exact stops_nil p
  · exact stops_cons.mpr hp

theorem stops_dropWhile_openingMark {p : Char → Bool} (hp : p '\x7b' = false) (b : Bool) :
    Stops p ((openingMark b).dropWhile isSpace) := by
  cases b
  · exact stops_nil p
  · exact stops_cons.mpr hp

/-- Behind a word and a space there is the first character that is no space. -/
theorem spaces1_cons (r : List Char) : spaces1 (' ' :: r) = some ((), r.dropWhile isSpace) := by
  rw [spaces1_apply]
  rfl

/-- Behind a keyword and a space there is a name. -/
theorem dropWhile_name {n : String} (hn : IsWord n.toList) (r : List Char) :
    (n.toList ++ r).dropWhile isSpace = n.toList ++ r :=
  dropWhile_of_stops (hn.stops (fun _ => isSpace_of_isWordChar) r)

/-! ### Clauses -/

/-- The names of a list are read up to the brace. -/
theorem many_nextName {ns : List String} (hns : ∀ n ∈ ns, IsWord n.toList) (b : Bool) :
    many nextName (namesText ns ++ openingMark b) = some (ns, openingMark b) := by
  have hstop : ∀ (ms : List String), Stops isWordChar (namesText ms ++ openingMark b) := by
    intro ms
    cases ms with
    | nil => exact stops_openingMark rfl b
    | cons m ms => exact stops_cons.mpr rfl
  induction ns with
  | nil =>
      refine many_eq_nil ?_
      rw [namesText, List.flatMap_nil, List.nil_append, nextName, bind_of_some (spaces_apply _),
        bind_of_none (char_eq_none (stops_dropWhile_openingMark rfl b))]
  | cons n ns ih =>
      have hn : IsWord n.toList := hns n (by simp)
      have hread : nextName (namesText (n :: ns) ++ openingMark b) =
          some (n, namesText ns ++ openingMark b) := by
        rw [namesText, List.flatMap_cons, List.append_assoc, List.cons_append, List.cons_append,
          nextName, bind_of_some (spaces_of_stops (stops_cons.mpr rfl)),
          bind_of_some (char_cons ',' _), bind_of_some (spaces_apply _)]
        show name ((n.toList ++ (namesText ns ++ openingMark b)).dropWhile isSpace) = _
        rw [dropWhile_name hn, name_append hn (hstop ns)]
      refine many_eq_cons hread ?_ (ih fun m hm => hns m (by simp [hm]))
      simp [namesText]
      omega

/-- The clause of the interfaces is read, whether it is there or not. -/
theorem implementsClause_text {ns : List String} (hns : ∀ n ∈ ns, IsWord n.toList) (b : Bool) :
    implementsClause ((implementsText ns ++ openingMark b).dropWhile isSpace) =
      some (ns, (openingMark b).dropWhile isSpace) := by
  cases ns with
  | nil =>
      rw [implementsText, List.nil_append, implementsClause, bind_of_some (optional_eq_none
        (bind_of_none (keyword_eq_none (stops_dropWhile_openingMark (by decide) b)) _))]
      rfl
  | cons n ns =>
      have hn : IsWord n.toList := hns n (by simp)
      have htext : (implementsText (n :: ns) ++ openingMark b).dropWhile isSpace =
          "implements".toList ++ ' ' :: (n.toList ++ (namesText ns ++ openingMark b)) := by
        simp [implementsText, isSpace]
      have hkeyword : keyword "implements"
          ("implements".toList ++ ' ' :: (n.toList ++ (namesText ns ++ openingMark b))) =
            some ((), ' ' :: (n.toList ++ (namesText ns ++ openingMark b))) := by
        rw [keyword_append (by decide) (by decide) (stops_cons.mpr (by decide)), if_pos rfl]
      have hstop : Stops isWordChar (namesText ns ++ openingMark b) := by
        cases ns with
        | nil => exact stops_openingMark rfl b
        | cons m ms => exact stops_cons.mpr rfl
      rw [htext, implementsClause, bind_apply, optional_apply, bind_of_some hkeyword,
        bind_of_some (spaces1_cons _), dropWhile_name hn, bind_of_some (name_append hn hstop),
        bind_of_some (many_nextName (fun m hm => hns m (by simp [hm])) b),
        bind_of_some (spaces_apply _)]
      rfl

/-- The clause of the superclass is read, whether it is there or not. -/
theorem extendsClause_text {parent : Option String} (hparent : ∀ p ∈ parent, IsWord p.toList)
    {ns : List String} (b : Bool) :
    extendsClause ((extendsText parent ++ (implementsText ns ++ openingMark b)).dropWhile isSpace) =
      some (parent, (implementsText ns ++ openingMark b).dropWhile isSpace) := by
  cases parent with
  | none =>
      refine optional_eq_none ?_
      rw [extendsText, List.nil_append]
      cases ns with
      | nil => exact bind_of_none (keyword_eq_none (stops_dropWhile_openingMark (by decide) b)) _
      | cons n ns =>
          have htext : (implementsText (n :: ns) ++ openingMark b).dropWhile isSpace =
              "implements".toList ++ ' ' :: (n.toList ++ (namesText ns ++ openingMark b)) := by
            simp [implementsText, isSpace]
          refine bind_of_none ?_ _
          rw [htext, keyword_append (by decide) (by decide) (stops_cons.mpr (by decide)),
            if_neg (by decide)]
  | some p =>
      have hp : IsWord p.toList := hparent p rfl
      have htext : (extendsText (some p) ++ (implementsText ns ++ openingMark b)).dropWhile isSpace =
          "extends".toList ++ ' ' :: (p.toList ++ (implementsText ns ++ openingMark b)) := by
        simp [extendsText, isSpace]
      have hkeyword : keyword "extends"
          ("extends".toList ++ ' ' :: (p.toList ++ (implementsText ns ++ openingMark b))) =
            some ((), ' ' :: (p.toList ++ (implementsText ns ++ openingMark b))) := by
        rw [keyword_append (by decide) (by decide) (stops_cons.mpr (by decide)), if_pos rfl]
      have hstop : Stops isWordChar (implementsText ns ++ openingMark b) := by
        cases ns with
        | nil => exact stops_openingMark rfl b
        | cons m ms => exact stops_cons.mpr rfl
      rw [htext]
      refine optional_eq_some ?_
      rw [bind_of_some hkeyword, bind_of_some (spaces1_cons _), dropWhile_name hp,
        bind_of_some (name_append hp hstop), bind_of_some (spaces_apply _)]
      rfl

/-! ### Headers -/

/-- A class that can be declared by a header. -/
structure Class.Headed (c : Class) : Prop where
  name : IsWord c.name.toList
  superclass : ∀ p ∈ c.superclass, IsWord p.toList
  interfaces : ∀ i ∈ c.interfaces, IsWord i.toList

/-- The mark of an abstract class. -/
def abstractPrefix (isAbstract : Bool) : List Char :=
  if isAbstract then "abstract".toList ++ [' '] else []

/-- Behind the name of a class its clauses are read, whatever they are. -/
theorem classHeader_append (isAbstract : Bool) {n : String} {r : List Char}
    (hn : IsWord n.toList) (hr : Stops isWordChar r) :
    classHeader (abstractPrefix isAbstract ++ ("class".toList ++ ' ' :: (n.toList ++ r))) =
      (do
        let parent ← extendsClause
        let interfaces ← implementsClause
        return (n, HeaderKind.ofClass isAbstract parent interfaces)) (r.dropWhile isSpace) := by
  have hkeyword : ∀ k : String, (∀ d ∈ k.toList.head?, isIdentifierStart d = true) →
      keyword k ("class".toList ++ ' ' :: (n.toList ++ r)) =
        if "class".toList = k.toList then some ((), ' ' :: (n.toList ++ r)) else none := fun k hk =>
    keyword_append hk (by decide) (stops_cons.mpr (by decide))
  have hmark : optional (do
      keyword "abstract"
      spaces1) (abstractPrefix isAbstract ++ ("class".toList ++ ' ' :: (n.toList ++ r))) =
        some (if isAbstract then some () else none, "class".toList ++ ' ' :: (n.toList ++ r)) := by
    cases isAbstract with
    | true =>
        refine optional_eq_some ?_
        have hk : keyword "abstract"
            ("abstract".toList ++ ' ' :: ("class".toList ++ ' ' :: (n.toList ++ r))) =
              some ((), ' ' :: ("class".toList ++ ' ' :: (n.toList ++ r))) := by
          rw [keyword_append (by decide) (by decide) (stops_cons.mpr (by decide)), if_pos rfl]
        rw [abstractPrefix, if_pos rfl, List.append_assoc, List.singleton_append, bind_of_some hk,
          spaces1_cons]
        rfl
    | false => exact optional_eq_none (bind_of_none (hkeyword "abstract" (by decide)) _)
  rw [classHeader, bind_of_some hmark, bind_of_some (hkeyword "class" (by decide)),
    bind_of_some (spaces1_cons _), dropWhile_name hn, bind_of_some (name_append hn hr),
    bind_of_some (spaces_apply _)]
  cases isAbstract <;> rfl

/-- A class header is its mark, its name and its clauses. -/
theorem classHeaderText_append (c : Class) (r : List Char) :
    classHeaderText c ++ r = abstractPrefix c.isAbstract ++ ("class".toList ++ ' ' ::
      (c.name.toList ++ (extendsText c.superclass ++ (implementsText c.interfaces ++ r)))) := by
  rw [classHeaderText, classText, List.append_assoc, List.append_assoc, List.cons_append,
    List.append_assoc, List.append_assoc]
  rfl

/-- Neither a clause nor the brace goes on with the name in front. -/
theorem stops_clauses (c : Class) (b : Bool) : Stops isWordChar
    (extendsText c.superclass ++ (implementsText c.interfaces ++ openingMark b)) := by
  rcases c.superclass with _ | p
  · rcases c.interfaces with _ | ⟨n, ns⟩
    · exact stops_openingMark rfl b
    · exact stops_cons.mpr rfl
  · exact stops_cons.mpr rfl

theorem classHeader_text {c : Class} (hc : c.Headed) (b : Bool) :
    classHeader (classHeaderText c ++ openingMark b) =
      some ((c.name, .ofClass c.isAbstract c.superclass c.interfaces),
        (openingMark b).dropWhile isSpace) := by
  rw [classHeaderText_append, classHeader_append _ hc.name (stops_clauses c b),
    bind_of_some (extendsClause_text hc.superclass b),
    bind_of_some (implementsClause_text hc.interfaces b)]
  rfl

/-- What stands behind an opening brace at the end of a line. -/
theorem opening_text (b : Bool) :
    opening ((openingMark b).dropWhile isSpace) = some (if b then some [] else none, []) := by
  cases b <;> rfl

/-- A header is one of the three declarations with what opens behind it. -/
theorem header?_of_declaration {line r : List Char} {n : String} {kind : HeaderKind}
    {body : Option (List Char)} (hstart : Stops isSpace line)
    (hread : (classHeader <|> plainHeader "interface" .ofInterface <|>
      plainHeader "enum" .ofEnum) line = some ((n, kind), r))
    (hopen : opening r = some (body, [])) : header? line = some { name := n, kind, body } := by
  have hrest : (do
      let body ← opening
      done
      return ({ name := n, kind, body } : Header)) r = some ({ name := n, kind, body }, []) := by
    rw [bind_of_some hopen]
    rfl
  rw [header?, accept, header, bind_of_some (spaces_of_stops hstart), bind_of_some hread]
  exact congrArg (Option.map Prod.fst) hrest

/-- **A written class header is read back.** -/
theorem header?_classHeaderText {c : Class} (hc : c.Headed) (b : Bool) :
    header? (classHeaderText c ++ openingMark b) =
      some { name := c.name, kind := .ofClass c.isAbstract c.superclass c.interfaces,
             body := if b then some [] else none } := by
  have hstart : Stops isSpace (classHeaderText c ++ openingMark b) := by
    unfold classHeaderText
    cases c.isAbstract <;> exact stops_cons.mpr rfl
  exact header?_of_declaration hstart (orElse_of_some (classHeader_text hc b)) (opening_text b)

/-- The header of a class does not begin with another keyword. -/
theorem classHeader_eq_none {w : String} (hw : IsWord w.toList)
    (habstract : w.toList ≠ "abstract".toList) (hclass : w.toList ≠ "class".toList)
    (r : List Char) : classHeader (w.toList ++ ' ' :: r) = none := by
  have hkeyword : ∀ k : String, (∀ d ∈ k.toList.head?, isIdentifierStart d = true) →
      w.toList ≠ k.toList → keyword k (w.toList ++ ' ' :: r) = none := by
    intro k hk hne
    rw [keyword_append hk hw (stops_cons.mpr (by decide)), if_neg hne]
  rw [classHeader, bind_of_some (optional_eq_none
    (bind_of_none (hkeyword "abstract" (by decide) habstract) _)),
    bind_of_none (hkeyword "class" (by decide) hclass)]

theorem plainHeader_append {w n : String} (hw : IsWord w.toList)
    (hstart : ∀ d ∈ w.toList.head?, isIdentifierStart d = true) (hn : IsWord n.toList)
    (kind : HeaderKind) {r : List Char} (hr : Stops isWordChar r) :
    plainHeader w kind (w.toList ++ ' ' :: (n.toList ++ r)) = some ((n, kind), r) := by
  have hkeyword : keyword w (w.toList ++ ' ' :: (n.toList ++ r)) =
      some ((), ' ' :: (n.toList ++ r)) := by
    rw [keyword_append hstart hw (stops_cons.mpr (by decide)), if_pos rfl]
  rw [plainHeader, bind_of_some hkeyword, bind_of_some (spaces1_cons _), dropWhile_name hn,
    bind_of_some (name_append hn hr)]
  rfl

theorem opening_openingMark (b : Bool) :
    opening (openingMark b) = some (if b then some [] else none, []) := by
  cases b <;> rfl

/-- Behind the name of an interface everything up to the brace is passed over. -/
theorem header?_interface_append {n : String} (hn : IsWord n.toList) {r : List Char}
    {body : Option (List Char)} (hr : Stops isWordChar r) (hopen : opening r = some (body, [])) :
    header? ("interface".toList ++ ' ' :: (n.toList ++ r)) =
      some { name := n, kind := .ofInterface, body } := by
  have hread := plainHeader_append (w := "interface") (by decide) (by decide) hn .ofInterface hr
  have hnone : classHeader ("interface".toList ++ ' ' :: (n.toList ++ r)) = none :=
    classHeader_eq_none (by decide) (by decide) (by decide) _
  exact header?_of_declaration (stops_cons.mpr rfl)
    ((orElse_of_none hnone).trans (orElse_of_some hread)) hopen

/-- Behind the name of an enum everything up to the brace is passed over. -/
theorem header?_enum_append {n : String} (hn : IsWord n.toList) {r : List Char}
    {body : Option (List Char)} (hr : Stops isWordChar r) (hopen : opening r = some (body, [])) :
    header? ("enum".toList ++ ' ' :: (n.toList ++ r)) =
      some { name := n, kind := .ofEnum, body } := by
  have hread := plainHeader_append (w := "enum") (by decide) (by decide) hn .ofEnum hr
  have hclass : classHeader ("enum".toList ++ ' ' :: (n.toList ++ r)) = none :=
    classHeader_eq_none (by decide) (by decide) (by decide) _
  have hinterface : plainHeader "interface" .ofInterface
      ("enum".toList ++ ' ' :: (n.toList ++ r)) = none := by
    refine bind_of_none ?_ _
    exact (keyword_append (by decide) (by decide) (stops_cons.mpr (by decide))).trans
      (if_neg (by decide))
  exact header?_of_declaration (stops_cons.mpr rfl)
    ((orElse_of_none hclass).trans ((orElse_of_none hinterface).trans hread)) hopen

/-- The written header of an interface is read back. -/
theorem header?_interface {n : String} (hn : IsWord n.toList) (b : Bool) :
    header? (plainHeaderText "interface" n ++ openingMark b) =
      some { name := n, kind := .ofInterface, body := if b then some [] else none } := by
  rw [plainHeaderText, List.append_assoc]
  exact header?_interface_append hn (stops_openingMark rfl b) (opening_openingMark b)

/-- The written header of an enum is read back. -/
theorem header?_enum {n : String} (hn : IsWord n.toList) (b : Bool) :
    header? (plainHeaderText "enum" n ++ openingMark b) =
      some { name := n, kind := .ofEnum, body := if b then some [] else none } := by
  rw [plainHeaderText, List.append_assoc]
  exact header?_enum_append hn (stops_openingMark rfl b) (opening_openingMark b)

/-! ### Lines that are no headers -/

/-- A line whose first word is not followed by an identifier declares nothing, once the spaces
that may be between the two are taken. -/
theorem header?_append_eq_none {w s : List Char} (hw : IsWord w)
    (hs : Stops isIdentifierContinue s)
    (h : ∀ t, spaces1 s = some ((), t) → Stops isIdentifierStart t ∧ Stops isWordChar t) :
    header? (w ++ s) = none := by
  have hkeyword : ∀ k : String, (∀ d ∈ k.toList.head?, isIdentifierStart d = true) →
      keyword k (w ++ s) = if w = k.toList then some ((), s) else none := fun k hk =>
    keyword_append hk hw hs
  -- Whichever keyword the word is, no identifier comes behind it.
  have hread : ∀ {α : Type} (k : String) (p : LineParser α),
      (∀ d ∈ k.toList.head?, isIdentifierStart d = true) →
      (∀ t, Stops isIdentifierStart t → Stops isWordChar t → p t = none) →
      (do keyword k; spaces1; p) (w ++ s) = none := by
    intro α k p hk hp
    by_cases he : w = k.toList
    · rw [bind_of_some ((hkeyword k hk).trans (if_pos he))]
      cases hspaces : spaces1 s with
      | none => exact bind_of_none hspaces _
      | some x => exact (bind_of_some hspaces _).trans (hp x.2 (h x.2 hspaces).1 (h x.2 hspaces).2)
    · exact bind_of_none ((hkeyword k hk).trans (if_neg he)) _
  have hname : ∀ {α : Type} (f : String → LineParser α) (t : List Char), Stops isWordChar t →
      (do let n ← name; f n) t = none := fun f t ht => bind_of_none (name_eq_none ht) _
  have hplain : ∀ (k : String) (kind : HeaderKind), (∀ d ∈ k.toList.head?,
      isIdentifierStart d = true) → plainHeader k kind (w ++ s) = none := fun k kind hk =>
    hread k _ hk fun t _ ht => hname _ t ht
  have hclass : classHeader (w ++ s) = none := by
    cases hmark : (do
        keyword "abstract"
        spaces1) (w ++ s) with
    | none =>
        rw [classHeader, bind_of_some (optional_eq_none hmark)]
        exact hread "class" _ (by decide) fun t _ ht => hname _ t ht
    | some x =>
        have hstart : Stops isIdentifierStart x.2 := by
          by_cases ha : w = "abstract".toList
          · rw [bind_of_some ((hkeyword "abstract" (by decide)).trans (if_pos ha))] at hmark
            exact (h x.2 hmark).1
          · rw [bind_of_none ((hkeyword "abstract" (by decide)).trans (if_neg ha))] at hmark
            cases hmark
        rw [classHeader, bind_of_some (optional_eq_some hmark),
          bind_of_none (keyword_eq_none hstart)]
  have hstart : Stops isSpace (w ++ s) := hw.stops (fun _ => isSpace_of_isWordChar) _
  rw [header?, accept, header, bind_of_some (spaces_of_stops hstart), bind_of_none]
  · rfl
  · rw [orElse_of_none hclass, orElse_of_none (hplain _ _ (by decide)), hplain _ _ (by decide)]

theorem header?_word_eq_none {w r : List Char} (hw : IsWord w)
    (hr : Stops isIdentifierStart (r.dropWhile isSpace)) (hr' : Stops isWordChar (r.dropWhile isSpace)) :
    header? (w ++ ' ' :: r) = none := by
  refine header?_append_eq_none hw (stops_cons.mpr (by decide)) fun t ht => ?_
  rw [spaces1_cons] at ht
  cases ht
  exact ⟨hr, hr'⟩

/-- Neither does a line whose first word runs into a dot. -/
theorem header?_dot_eq_none {w : List Char} (hw : IsWord w) (r : List Char) :
    header? (w ++ '.' :: r) = none := by
  refine header?_append_eq_none hw (stops_cons.mpr (by decide)) fun t ht => ?_
  rw [spaces1_apply] at ht
  cases ht

/-! ### What a header names -/

/-- The names that the clauses of a header mention are words. -/
def HeaderKind.Named : HeaderKind → Prop
  | ofClass _ superclass interfaces =>
      (∀ p ∈ superclass, IsWord p.toList) ∧ ∀ i ∈ interfaces, IsWord i.toList
  | ofInterface => True
  | ofEnum => True

theorem extendsClause_eq_some {s r : List Char} {parent : Option String}
    (h : extendsClause s = some (parent, r)) : ∀ p ∈ parent, IsWord p.toList := by
  rcases optional_eq_some_iff.mp h with ⟨p, rfl, hp⟩ | ⟨rfl, -, -⟩
  · simp only [bind_apply, Option.bind_eq_some_iff, pure_apply, Option.some.injEq,
      Prod.mk.injEq] at hp
    obtain ⟨_, _, _, _, ⟨n, t⟩, hn, _, _, rfl, -⟩ := hp
    intro q hq
    cases hq
    exact (name_eq_some_iff.mp hn).2.1
  · intro p hp
    cases hp

theorem many_nextName_eq_some {s r : List Char} {ns : List String}
    (h : many nextName s = some (ns, r)) : ∀ n ∈ ns, IsWord n.toList := by
  refine many_induct (motive := fun _ ns _ => ∀ n ∈ ns, IsWord n.toList) ?_ ?_ h
  · intro s _ n hn
    cases hn
  · intro s n r ns t hn ih m hm
    rcases List.mem_cons.mp hm with rfl | hm
    · simp only [nextName, bind_apply, Option.bind_eq_some_iff] at hn
      obtain ⟨_, _, _, _, _, _, hname⟩ := hn
      exact (name_eq_some_iff.mp hname).2.1
    · exact ih m hm

theorem implementsClause_eq_some {s r : List Char} {ns : List String}
    (h : implementsClause s = some (ns, r)) : ∀ n ∈ ns, IsWord n.toList := by
  rw [implementsClause, bind_apply, Option.bind_eq_some_iff] at h
  obtain ⟨⟨o, t⟩, ho, he⟩ := h
  cases he
  rcases optional_eq_some_iff.mp ho with ⟨ms, rfl, hms⟩ | ⟨rfl, -, -⟩
  · simp only [bind_apply, Option.bind_eq_some_iff, pure_apply, Option.some.injEq,
      Prod.mk.injEq] at hms
    obtain ⟨_, _, _, _, ⟨n, u⟩, hn, ⟨others, v⟩, hothers, _, _, rfl, -⟩ := hms
    intro m hm
    rcases List.mem_cons.mp hm with rfl | hm
    · exact (name_eq_some_iff.mp hn).2.1
    · exact many_nextName_eq_some hothers m hm
  · intro n hn
    cases hn

/-- **All names in a header are words.** -/
theorem header?_eq_some {line : List Char} {h : Header} (hh : header? line = some h) :
    IsWord h.name.toList ∧ h.kind.Named := by
  rw [header?, accept, Option.map_eq_some_iff] at hh
  obtain ⟨⟨h', r⟩, hread, rfl⟩ := hh
  simp only [header, bind_apply, Option.bind_eq_some_iff, orElse_apply, Option.or_eq_some_iff] at hread
  obtain ⟨_, _, ⟨⟨n, kind⟩, s⟩, halt, ⟨body, t⟩, _, _, _, he⟩ := hread
  cases he
  have hplain : ∀ {w : String} {k : HeaderKind} {s t : List Char},
      plainHeader w k s = some ((n, kind), t) → IsWord n.toList ∧ kind = k := by
    intro w k s t hw
    simp only [plainHeader, bind_apply, Option.bind_eq_some_iff, pure_apply, Option.some.injEq,
      Prod.mk.injEq] at hw
    obtain ⟨_, _, _, _, ⟨m, u⟩, hm, ⟨rfl, rfl⟩, -⟩ := hw
    exact ⟨(name_eq_some_iff.mp hm).2.1, rfl⟩
  rcases halt with hclass | ⟨-, hinterface | ⟨-, henum⟩⟩
  · simp only [classHeader, bind_apply, Option.bind_eq_some_iff, pure_apply, Option.some.injEq,
      Prod.mk.injEq] at hclass
    obtain ⟨_, _, _, _, _, _, ⟨m, u⟩, hm, _, _, ⟨parent, v⟩, hp, ⟨ns, w⟩, hns, ⟨rfl, rfl⟩, -⟩ :=
      hclass
    exact ⟨(name_eq_some_iff.mp hm).2.1, extendsClause_eq_some hp, implementsClause_eq_some hns⟩
  · obtain ⟨hn, rfl⟩ := hplain hinterface
    exact ⟨hn, trivial⟩
  · obtain ⟨hn, rfl⟩ := hplain henum
    exact ⟨hn, trivial⟩

end ClassModel
