/-
Where a declaration shows.

A line is known for a header by its front.  Once a keyword, the spaces behind it and one character
of a name have been read, nothing that follows keeps the line from being a header: a name ends
where it ends, every clause may be missing, and the rest is passed over.  So a line declares a type
exactly if it begins with such a front, and no front holds a brace.

That is why it does not matter how modifiers are taken out of a line before it is tested.  Taking
out only one of them changes nothing in front of the first brace that is left, and there all ways
of taking them out agree.
-/
import ClassModel.Proofs.Diagram.Declared
import ClassModel.Proofs.Diagram.Openings
import ClassModel.Proofs.Diagram.RelationTexts

namespace ClassModel

open LineParser

/-! ### The fronts of header lines -/

/-- The words that declare a type. -/
def declaringWords : List String :=
  ["class", "interface", "enum"]

/-- The front of a line that declares a type, up to the first character of the name. -/
inductive Announcement : List Char → Prop where
  | plain {indent gap : List Char} {word : String} {c : Char}
      (hindent : IsBlankRun indent) (hword : word ∈ declaringWords)
      (hgap : IsGap gap) (hc : isWordChar c = true) :
      Announcement (indent ++ (word.toList ++ (gap ++ [c])))
  | marked {indent gap gap' : List Char} {c : Char}
      (hindent : IsBlankRun indent) (hgap : IsGap gap) (hgap' : IsGap gap')
      (hc : isWordChar c = true) :
      Announcement (indent ++ ("abstract".toList ++ (gap ++ ("class".toList ++ (gap' ++ [c])))))

variable {indent gap s t : List Char} {c : Char}

theorem isWord_of_mem_declaringWords {w : String} (h : w ∈ declaringWords) : IsWord w.toList := by
  revert w
  decide

/-- A front is made of spaces, tabs and characters of words. -/
theorem Announcement.chars {p : List Char} (h : Announcement p) :
    ∀ c ∈ p, isSpace c = true ∨ isWordChar c = true := by
  have hmark : IsWord "abstract".toList ∧ IsWord "class".toList := by decide
  intro c hmem
  cases h with
  | @plain indent gap word d hindent hword hgap hd =>
      simp only [List.mem_append, List.mem_singleton] at hmem
      rcases hmem with hmem | hmem | hmem | rfl
      · exact Or.inl (hindent c hmem)
      · exact Or.inr ((isWord_of_mem_declaringWords hword).chars c hmem)
      · exact Or.inl (hgap.spaces c hmem)
      · exact Or.inr hd
  | @marked indent gap gap' d hindent hgap hgap' hd =>
      simp only [List.mem_append, List.mem_singleton] at hmem
      rcases hmem with hmem | hmem | hmem | hmem | hmem | rfl
      · exact Or.inl (hindent c hmem)
      · exact Or.inr (hmark.1.chars c hmem)
      · exact Or.inl (hgap.spaces c hmem)
      · exact Or.inr (hmark.2.chars c hmem)
      · exact Or.inl (hgap'.spaces c hmem)
      · exact Or.inr hd

/-! ### A front makes a header -/

theorem stops_isSpace_cons (hc : isWordChar c = true) (t : List Char) : Stops isSpace (c :: t) :=
  stops_cons.mpr (isSpace_of_isWordChar hc)

/-- No identifier goes on with a space. -/
theorem isIdentifierContinue_of_isSpace (hc : isSpace c = true) :
    isIdentifierContinue c = false := by
  have hspace : c = ' ' ∨ c = '\t' := by simpa [isSpace] using hc
  rcases hspace with rfl | rfl <;> decide

theorem IsGap.keyword_append (h : IsGap gap) {k v : String}
    (hk : ∀ d ∈ k.toList.head?, isIdentifierStart d = true) (hv : IsWord v.toList)
    (t : List Char) : keyword k (v.toList ++ (gap ++ t)) =
      if v.toList = k.toList then some ((), gap ++ t) else none :=
  LineParser.keyword_append hk hv (h.stops (fun _ => isIdentifierContinue_of_isSpace) t)

/-- Behind a gap a name is read, and then what follows it. -/
theorem IsGap.isSome_name {α : Type} {f : String → LineParser α} (h : IsGap gap)
    (hc : isWordChar c = true) (hf : ∀ n r, (f n r).isSome = true) (t : List Char) :
    ((do spaces1; let n ← name; f n) (gap ++ c :: t)).isSome = true := by
  have hname : name (c :: t) =
      some (String.ofList (c :: t.takeWhile isWordChar), t.dropWhile isWordChar) := by
    rw [name_apply, word, run1, if_pos hc]
    rfl
  rw [bind_of_some (spaces1_append h.ne_nil h.spaces (stops_isSpace_cons hc t)),
    bind_of_some hname]
  exact hf _ _

theorem isSome_optional {α : Type} (p : LineParser α) (s : List Char) :
    (LineParser.optional p s).isSome = true := by
  rw [optional_apply]
  rfl

/-- A sequence of two parts is read if the first one is and the second one always is. -/
theorem isSome_bind {α β : Type} {p : LineParser α} {f : α → LineParser β} {s : List Char}
    (hp : (p s).isSome = true) (hf : ∀ a r, (f a r).isSome = true) :
    ((p >>= f) s).isSome = true := by
  obtain ⟨x, hx⟩ := Option.isSome_iff_exists.mp hp
  rw [bind_of_some hx]
  exact hf _ _

/-- No clause behind the name of a class can go wrong. -/
theorem isSome_clauses (n : String) (isAbstract : Bool) (s : List Char) :
    ((do
      spaces
      let parent ← extendsClause
      let interfaces ← implementsClause
      return (n, HeaderKind.ofClass isAbstract parent interfaces)) s).isSome = true := by
  refine isSome_bind rfl fun _ _ => isSome_bind (isSome_optional _ _) fun _ _ =>
    isSome_bind ?_ fun _ _ => rfl
  exact isSome_bind (isSome_optional _ _) fun _ _ => rfl

/-- A front without the spaces before it is read as one of the three declarations. -/
theorem isSome_plain {word : String} (hword : word ∈ declaringWords)
    (hgap : IsGap gap) (hc : isWordChar c = true) (t : List Char) :
    ((classHeader <|> plainHeader "interface" .ofInterface <|> plainHeader "enum" .ofEnum)
      (word.toList ++ (gap ++ c :: t))).isSome = true := by
  have hplain : ∀ kind, (∀ d ∈ word.toList.head?, isIdentifierStart d = true) →
      (plainHeader word kind (word.toList ++ (gap ++ c :: t))).isSome = true := by
    intro kind hstart
    rw [plainHeader, bind_of_some ((hgap.keyword_append hstart
      (isWord_of_mem_declaringWords hword) _).trans (if_pos rfl))]
    exact hgap.isSome_name hc (fun _ _ => rfl) t
  rw [orElse_apply, orElse_apply, Option.isSome_or, Option.isSome_or]
  simp only [declaringWords, List.mem_cons, List.not_mem_nil, or_false] at hword
  rcases hword with rfl | rfl | rfl
  · have hclass : (classHeader ("class".toList ++ (gap ++ c :: t))).isSome = true := by
      rw [classHeader, bind_of_some (optional_eq_none (bind_of_none
        ((hgap.keyword_append (by decide) (by decide) _).trans (if_neg (by decide))) _)),
        bind_of_some ((hgap.keyword_append (by decide) (by decide) _).trans (if_pos rfl))]
      exact hgap.isSome_name hc (fun n r => isSome_clauses n false r) t
    rw [hclass, Bool.true_or]
  · rw [hplain _ (by decide), Bool.true_or, Bool.or_true]
  · rw [hplain _ (by decide), Bool.or_true, Bool.or_true]

theorem isSome_marked {gap' : List Char} (hgap : IsGap gap) (hgap' : IsGap gap')
    (hc : isWordChar c = true) (t : List Char) :
    (classHeader ("abstract".toList ++ (gap ++ ("class".toList ++ (gap' ++ c :: t))))).isSome =
      true := by
  have hstop : Stops isSpace ("class".toList ++ (gap' ++ c :: t)) := stops_cons.mpr (by decide)
  have hmark : LineParser.optional (do keyword "abstract"; spaces1)
      ("abstract".toList ++ (gap ++ ("class".toList ++ (gap' ++ c :: t)))) =
        some (some (), "class".toList ++ (gap' ++ c :: t)) := by
    refine optional_eq_some ?_
    rw [bind_of_some ((hgap.keyword_append (by decide) (by decide) _).trans (if_pos rfl)),
      spaces1_append hgap.ne_nil hgap.spaces hstop]
  rw [classHeader, bind_of_some hmark,
    bind_of_some ((hgap'.keyword_append (by decide) (by decide) _).trans (if_pos rfl))]
  exact hgap'.isSome_name hc (fun n r => isSome_clauses n true r) t

/-- Behind the spaces in front, whatever declares a type makes a header. -/
theorem isSome_header?_append (hindent : IsBlankRun indent) (hs : Stops isSpace s)
    (h : ((classHeader <|> plainHeader "interface" .ofInterface <|> plainHeader "enum" .ofEnum)
      s).isSome = true) : (header? (indent ++ s)).isSome = true := by
  have hspaces : spaces (indent ++ s) = some ((), s) := by
    rw [spaces_apply, dropWhile_append_of_stops hindent hs]
  rw [header?, accept, header, bind_of_some hspaces, Option.isSome_map]
  refine isSome_bind h fun x r => ?_
  obtain ⟨n, kind⟩ := x
  show ((do
    let body ← opening
    done
    return ({ name := n, kind, body } : Header)) r).isSome = true
  rw [bind_of_some (opening_apply r)]
  rfl

theorem Announcement.isSome_header? {p : List Char} (h : Announcement p) (t : List Char) :
    (header? (p ++ t)).isSome = true := by
  cases h with
  | @plain indent gap word c hindent hword hgap hc =>
      have hstop : ∀ r, Stops isSpace (word.toList ++ r) :=
        (isWord_of_mem_declaringWords hword).stops fun _ => isSpace_of_isWordChar
      rw [List.append_assoc, List.append_assoc, List.append_assoc]
      exact isSome_header?_append hindent (hstop _) (isSome_plain hword hgap hc t)
  | @marked indent gap gap' c hindent hgap hgap' hc =>
      rw [List.append_assoc, List.append_assoc, List.append_assoc, List.append_assoc,
        List.append_assoc]
      refine isSome_header?_append hindent (stops_cons.mpr (by decide)) ?_
      rw [orElse_apply, Option.isSome_or]
      exact (congrArg (· || _) (isSome_marked hgap hgap' hc t)).trans (Bool.true_or _)

/-! ### A header has a front -/

/-- Behind a name that was read the line goes on, and in front of it there was a gap. -/
theorem exists_of_named {r u : List Char} {n : String} {a : Unit} (hgap : spaces1 s = some (a, r))
    (hname : name r = some (n, u)) :
    ∃ gap c t, IsGap gap ∧ isWordChar c = true ∧ s = gap ++ c :: t := by
  obtain ⟨gap, hspaces, rfl⟩ := spaces1_eq_some_gap hgap
  obtain ⟨rfl, hn, -⟩ := name_eq_some_iff.mp hname
  obtain ⟨c, t, hct, hc⟩ := hn.exists_cons
  exact ⟨gap, c, t ++ u, hspaces, hc, by rw [hct, List.cons_append]⟩

theorem exists_of_plainHeader {w n : String} {kind kind' : HeaderKind} {r : List Char}
    (hindent : IsBlankRun indent) (hw : w ∈ declaringWords)
    (h : plainHeader w kind s = some ((n, kind'), r)) :
    ∃ p, Announcement p ∧ p <+: indent ++ s := by
  simp only [plainHeader, bind_apply, Option.bind_eq_some_iff] at h
  obtain ⟨⟨_, u⟩, hkeyword, ⟨_, _⟩, hspaces, ⟨_, _⟩, hname, -⟩ := h
  obtain ⟨gap, c, t, hgap, hc, rfl⟩ := exists_of_named hspaces hname
  refine ⟨_, .plain hindent hw hgap hc, t, ?_⟩
  rw [keyword_eq_some hkeyword]
  simp only [List.append_assoc, List.singleton_append]

theorem exists_of_classHeader {n : String} {kind : HeaderKind} {r : List Char}
    (hindent : IsBlankRun indent) (h : classHeader s = some ((n, kind), r)) :
    ∃ p, Announcement p ∧ p <+: indent ++ s := by
  simp only [classHeader, bind_apply, Option.bind_eq_some_iff] at h
  obtain ⟨⟨mark, u⟩, hmark, ⟨_, v⟩, hkeyword, ⟨_, _⟩, hspaces, ⟨_, _⟩, hname, -⟩ := h
  obtain ⟨gap, c, t, hgap, hc, rfl⟩ := exists_of_named hspaces hname
  obtain rfl : u = _ := keyword_eq_some hkeyword
  rcases optional_eq_some_iff.mp hmark with ⟨_, -, hread⟩ | ⟨-, -, rfl⟩
  · simp only [bind_apply, Option.bind_eq_some_iff] at hread
    obtain ⟨⟨_, v⟩, habstract, hspaces'⟩ := hread
    obtain ⟨gap', hgap', rfl⟩ := spaces1_eq_some_gap hspaces'
    refine ⟨_, .marked hindent hgap' hgap hc, t, ?_⟩
    rw [keyword_eq_some habstract]
    simp only [List.append_assoc, List.singleton_append]
  · have hword : "class" ∈ declaringWords := by decide
    refine ⟨_, .plain hindent hword hgap hc, t, ?_⟩
    simp only [List.append_assoc, List.singleton_append]

/-- **A line declares a type exactly if it begins with the front of a declaration.** -/
theorem isSome_header?_iff {line : List Char} :
    (header? line).isSome = true ↔ ∃ p, Announcement p ∧ p <+: line := by
  constructor
  · intro h
    rw [header?, accept, Option.isSome_map, Option.isSome_iff_exists] at h
    obtain ⟨⟨_, _⟩, hread⟩ := h
    simp only [header, bind_apply, Option.bind_eq_some_iff, orElse_apply, Option.or_eq_some_iff,
      spaces_apply] at hread
    obtain ⟨⟨_, s⟩, hspaces, ⟨⟨n, kind⟩, _⟩, hdeclaration, -⟩ := hread
    cases hspaces
    have hindent : IsBlankRun (line.takeWhile isSpace) := fun _ => of_mem_takeWhile
    rw [← run_append isSpace line]
    rcases hdeclaration with hclass | ⟨-, hinterface | ⟨-, henum⟩⟩
    · exact exists_of_classHeader hindent hclass
    · exact exists_of_plainHeader hindent (by decide) hinterface
    · exact exists_of_plainHeader hindent (by decide) henum
  · rintro ⟨p, hp, t, rfl⟩
    exact hp.isSome_header? t

/-! ### Fronts in lines that hold modifiers -/

/-- A line of a text as it is tested: without the marks of abstract types, but with all other
modifiers. -/
def withoutAbstract (line : List Char) : List Char :=
  Diagram.removeAll "\x7babstract\x7d".toList line

theorem withoutAbstract_append (s : List Char) :
    withoutAbstract ("\x7babstract\x7d".toList ++ s) = withoutAbstract s := by
  have hpattern : "\x7babstract\x7d".toList = '\x7b' :: "abstract\x7d".toList := by decide
  have hfront : List.isPrefixOf "\x7babstract\x7d".toList ('\x7b' :: ("abstract\x7d".toList ++ s)) =
      true := List.isPrefixOf_iff_prefix.mpr (List.prefix_append _ s)
  have hlength : "\x7babstract\x7d".toList.length - 1 = "abstract\x7d".toList.length := by decide
  unfold withoutAbstract
  rw [hpattern, List.cons_append, Diagram.removeAll, ← hpattern, if_pos hfront, hlength,
    List.drop_left]

theorem withoutAbstract_cons {c : Char} {r : List Char}
    (h : ¬"\x7babstract\x7d".toList <+: c :: r) :
    withoutAbstract (c :: r) = c :: withoutAbstract r := by
  unfold withoutAbstract
  rw [Diagram.removeAll, if_neg fun hp => h (List.isPrefixOf_iff_prefix.mp hp)]

/-- In front of the first brace that is left it makes no difference which modifiers are taken
out. -/
theorem takeWhile_withoutAbstract (line : List Char) :
    (withoutAbstract line).takeWhile (· != '\x7b') <+: (segments line).filterMap Segment.char? := by
  have hmark : ∀ {s t : List Char}, "\x7babstract\x7d".toList ++ t = s →
      bracedWord s = some ("abstract".toList, t) := by
    rintro s t rfl
    exact bracedWord_append (w := "abstract".toList) (by decide) t
  fun_induction segments line with
  | case1 =>
      have hnil : withoutAbstract [] = [] := by rw [withoutAbstract, Diagram.removeAll]
      rw [hnil]
      exact List.nil_prefix
  | case2 c r w t hw ih =>
      by_cases hp : "\x7babstract\x7d".toList <+: c :: r
      · obtain ⟨u, hu⟩ := hp
        obtain ⟨-, rfl⟩ : "abstract".toList = w ∧ u = t := by simpa using (hmark hu).symm.trans hw
        rw [← hu, withoutAbstract_append]
        exact ih
      · -- Another word in braces: its brace is left, and nothing is claimed behind it.
        obtain rfl : c = '\x7b' := (List.cons.inj (bracedWord_eq_some hw).1).1
        rw [withoutAbstract_cons hp]
        exact List.nil_prefix
  | case3 c r hw ih =>
      have hp : ¬"\x7babstract\x7d".toList <+: c :: r := by
        rintro ⟨u, hu⟩
        rw [hmark hu] at hw
        cases hw
      rw [withoutAbstract_cons hp]
      by_cases hc : c = '\x7b'
      · subst hc
        exact List.nil_prefix
      · rw [List.takeWhile_cons_of_pos (p := (· != '\x7b')) (bne_iff_ne.mpr hc)]
        exact List.cons_prefix_cons.mpr ⟨rfl, ih⟩

theorem Announcement.prefix_takeWhile {p : List Char} (hp : Announcement p) (h : p <+: s) :
    p <+: s.takeWhile (· != '\x7b') := by
  obtain ⟨t, rfl⟩ := h
  have hbrace : ∀ c ∈ p, (c != '\x7b') = true := by
    intro c hc
    rw [bne_iff_ne]
    rintro rfl
    exact absurd (hp.chars _ hc) (by decide)
  rw [List.takeWhile_append_of_pos hbrace]
  exact List.prefix_append p _

/-- **A line that declares a type when it is tested declares one when it is read.** -/
theorem isSome_header?_strippedLine {piece line : List Char}
    (hline : line = piece ∨ line = dropReturn piece)
    (h : (header? (withoutAbstract line)).isSome = true) :
    (header? (strippedLine piece).text).isSome = true := by
  obtain ⟨p, hp, hfront⟩ := isSome_header?_iff.mp h
  have hkept : p <+: (segments line).filterMap Segment.char? :=
    (hp.prefix_takeWhile hfront).trans (takeWhile_withoutAbstract line)
  have hreturn : ∀ {s : List Char}, p <+: s ++ ['\r'] → p <+: s := by
    intro s hs
    refine (List.prefix_concat_iff.mp hs).resolve_left ?_
    rintro rfl
    exact absurd (hp.chars '\r' (by simp)) (by decide)
  have htext : (strippedLine piece).text =
      (segments (dropReturn piece)).filterMap Segment.char? := rfl
  refine isSome_header?_iff.mpr ⟨p, hp, ?_⟩
  rw [htext]
  rcases hline with rfl | rfl
  · rcases dropReturn_cases line with hcut | ⟨hcut, -⟩
    · rw [hcut, segments_append_cons (by decide), segments_nil, List.filterMap_append] at hkept
      exact hreturn hkept
    · rw [← hcut]
      exact hkept
  · exact hkept

/-! ### Texts with a declaration -/

theorem mem_fileLines {s line : List Char} (h : line ∈ Diagram.fileLines s) :
    ∃ piece ∈ splitOnChar '\n' s, line = piece ∨ line = dropReturn piece := by
  rcases List.mem_append.mp h with h | h
  · obtain ⟨piece, hpiece, rfl⟩ := List.mem_map.mp h
    exact ⟨piece, List.dropLast_subset _ hpiece, Or.inr rfl⟩
  · rw [Option.mem_toList] at h
    exact ⟨line, List.mem_of_getLast? (Option.filter_eq_some_iff.mp h).1, Or.inl rfl⟩

/-- Among lines of which one declares a type a declaration is found, be that line or another one
whose body holds it. -/
theorem blocks_ofLines_ne_nil {lines : List Line} {line : Line} (hmem : line ∈ lines)
    (h : (header? line.text).isSome = true) : (Outline.ofLines lines).blocks ≠ [] := by
  fun_induction Outline.ofLines lines with
  | case1 => cases hmem
  | case2 head rest hnone o ih =>
      rcases List.mem_cons.mp hmem with rfl | hmem
      · rw [hnone] at h
        cases h
      · exact ih hmem
  | case3 | case4 => exact List.cons_ne_nil _ _

/-- An outline with a declaration has names. -/
theorem names_ne_nil {o : Outline} (h : o.blocks ≠ []) :
    o.names.classes ≠ [] ∨ o.names.interfaces ≠ [] ∨ o.names.enums ≠ [] := by
  obtain ⟨b, bs, hblocks⟩ := List.exists_cons_of_ne_nil h
  have hmem : b.header.declared ∈ o.blocks.map fun b => b.header.declared :=
    List.mem_map_of_mem (hblocks ▸ List.mem_cons_self)
  have hname : ∀ {name? : Declared → Option String} {n : String}, name? b.header.declared = some n →
      ((o.blocks.map fun b => b.header.declared).filterMap name?).eraseDups ≠ [] := fun hn =>
    List.ne_nil_of_mem (List.mem_eraseDups.mpr (List.mem_filterMap.mpr ⟨_, hmem, hn⟩))
  cases hd : b.header.declared with
  | ofClass n => exact Or.inl (hname (n := n) (by rw [hd]; rfl))
  | ofInterface n => exact Or.inr (Or.inl (hname (n := n) (by rw [hd]; rfl)))
  | ofEnum n => exact Or.inr (Or.inr (hname (n := n) (by rw [hd]; rfl)))

/-- The model has an entity: a class, an interface or an enum. -/
def Model.HasEntity (m : Model) : Prop :=
  m.classes.values ≠ [] ∨ m.interfaces.values ≠ [] ∨ m.enums.values ≠ []

/-- **A text that looks like a diagram by a declaration has one when it is read.** -/
theorem hasEntity_read {text : String}
    (hdirective : occursIn "@startuml".toList text.toList = false)
    (h : Diagram.looksLike text = true) : (Diagram.read text).value.HasEntity := by
  rw [Diagram.looksLike, hdirective, Bool.false_or, List.any_eq_true] at h
  obtain ⟨line, hline, hheader⟩ := h
  obtain ⟨piece, hpiece, hcut⟩ := mem_fileLines hline
  have hblocks : (Outline.ofLines (stripModifiers text.toList).value).blocks ≠ [] := by
    rw [value_stripModifiers]
    exact blocks_ofLines_ne_nil (List.mem_map_of_mem hpiece)
      (isSome_header?_strippedLine hcut hheader)
  have hnames := names_ne_nil hblocks
  rw [← names_read] at hnames
  exact hnames.imp (fun h => mt List.map_eq_nil_iff.mpr h)
    (Or.imp (fun h => mt List.map_eq_nil_iff.mpr h) fun h => mt List.map_eq_nil_iff.mpr h)

end ClassModel
