/-
The trees of stubs.

A stub is written without regard to a grammar, but its text is a layout of the tokens of a
tree: the tree of a class with its fields and methods, of an interface or of an enum.  This
module builds the trees and shows that the stubs are their texts.

Types come from a model as texts.  What tree a text stands for is given by a function that
is only asked for the types that occur.
-/
import ClassModel.Source.Stub
import ClassModel.Proofs.Source.Files
import ClassModel.Proofs.Source.Flattened

namespace ClassModel

namespace Source

variable {us : List Token} {r : List Char}

/-! ### Lists -/

section Lists

variable {α : Type} {tokens : α → List Token} {text : α → String} {as : List α}

/-- Parts with a separator between them. -/
theorem lays_separated {c : Char} {g : List Char} (hc : [c] ∈ symbols) (hg : Trivia g)
    {sep : String} (hsep : sep.toList = c :: g)
    (h : ∀ a ∈ as, Lays (tokens a) (text a).toList) :
    Lays (separated [c] tokens as) (String.intercalate sep (as.map text)).toList := by
  have hmore : ∀ bs : List α, (∀ b ∈ bs, Lays (tokens b) (text b).toList) →
      Trails (bs.flatMap fun b => .symbol [c] :: tokens b)
        ((bs.map text).flatMap fun v => [c] ++ (g ++ v.toList)) := by
    intro bs hbs
    induction bs with
    | nil => exact trails_nil
    | cons b bs ih =>
        have hrest := ih fun d hd => hbs d (List.mem_cons_of_mem b hd)
        have hone : Lays (tokens b) (g ++ (text b).toList) := (hbs b List.mem_cons_self).trivia hg
        rw [List.map_cons, List.flatMap_cons, List.flatMap_cons, List.append_assoc]
        exact trails_symbol hc (hone.append hrest)
  cases as with
  | nil => exact trails_nil.lays
  | cons a as =>
      rw [separated, List.map_cons, toList_intercalate_cons, hsep]
      exact (h a List.mem_cons_self).append (hmore as fun b hb => h b (List.mem_cons_of_mem a hb))

/-- Lines, each of which ends its last token. -/
theorem laidOut_lines
    (h : ∀ a ∈ as, ∀ us r, LaidOut us r → LaidOut (tokens a ++ us) ((text a).toList ++ r))
    (hus : LaidOut us r) :
    LaidOut (as.flatMap tokens ++ us) ((String.intercalate "\n" (as.map text)).toList ++ r) := by
  have hmore : ∀ bs : List α, (∀ b ∈ bs, b ∈ as) → LaidOut (bs.flatMap tokens ++ us)
      (((bs.map text).flatMap fun v => "\n".toList ++ v.toList) ++ r) := by
    intro bs hbs
    induction bs with
    | nil => exact hus
    | cons b bs ih =>
        have hrest := ih fun d hd => hbs d (List.mem_cons_of_mem b hd)
        rw [List.map_cons, List.flatMap_cons, List.flatMap_cons, List.append_assoc,
          List.append_assoc, List.append_assoc]
        exact (h b (hbs b List.mem_cons_self) _ _ hrest).white rfl
  cases as with
  | nil => exact hus
  | cons a as =>
      rw [List.flatMap_cons, List.map_cons, toList_intercalate_cons, List.append_assoc,
        List.append_assoc]
      exact h a List.mem_cons_self _ _ (hmore as fun b hb => List.mem_cons_of_mem a hb)

end Lists

/-! ### Trees -/

/-- The modifier of a visibility. -/
def Modifier.ofVisibility : Visibility → Modifier
  | .pub => .pub
  | .priv => .priv
  | .prot => .prot

/-- A name as a class type. -/
def plainType (name : String) : ClassType :=
  [.plain name]

section Trees

variable (typeOf : String → TypeExpr)

/-- The field of an attribute. -/
def fieldOf (a : Attribute) : Field where
  modifiers := Modifier.ofVisibility a.visibility :: if a.isStatic then [.static] else []
  type := typeOf a.type
  declarators := [⟨a.name, 0⟩]

/-- The parameter of a method as a tree. -/
def formalOf (p : Parameter) : Formal where
  type := some (typeOf p.type)
  name := p.name
  varargs := false

/-- The tree of a method.  Only in a class a method is called abstract. -/
def procedureOf (inInterface : Bool) (m : Method) : Procedure where
  modifiers :=
    Modifier.ofVisibility m.visibility :: if m.isAbstract && !inInterface then [.abstr] else []
  result := if m.returnType = "void" then none else some (typeOf m.returnType)
  name := m.name
  parameters := m.parameters.map (formalOf typeOf)

/-- The declaration of a class with the given methods. -/
def classTree (c : Class) (methods : List Method) : Declaration :=
  .ofClass ((if c.isAbstract then [.abstr] else []) ++ [Modifier.ofVisibility c.visibility]) c.name
    (c.superclass.map plainType) (c.interfaces.map plainType)
    (c.attributes.values.map (Member.field ∘ fieldOf typeOf) ++
      methods.map (Member.method ∘ procedureOf typeOf false))

/-- The declaration of an interface. -/
def interfaceTree (i : Interface) : Declaration :=
  .ofInterface [Modifier.ofVisibility i.visibility] i.name []
    (i.methods.values.map (Member.method ∘ procedureOf typeOf true))

/-- The declaration of an enum. -/
def enumTree (e : Enum) : Declaration :=
  .ofEnum [] e.name [] (e.properties.values.map EnumProperty.name) []

end Trees

/-! ### What can be written -/

/-- A text that stands for a type of names. -/
structure WritesType (typeOf : String → TypeExpr) (text : String) : Prop where
  proper : (typeOf text).Proper
  text_eq : (typeOf text).text = text

end Source

open Source

/-- An attribute of names. -/
structure Attribute.Stubbable (typeOf : String → TypeExpr) (a : Attribute) : Prop where
  name : IsName a.name
  type : WritesType typeOf a.type

/-- A parameter of names. -/
structure Parameter.Stubbable (typeOf : String → TypeExpr) (p : Parameter) : Prop where
  name : IsName p.name
  type : WritesType typeOf p.type

/-- A method of names. -/
structure Method.Stubbable (typeOf : String → TypeExpr) (m : Method) : Prop where
  name : IsName m.name
  returnType : m.returnType ≠ "void" → WritesType typeOf m.returnType
  parameters : ∀ p ∈ m.parameters, p.Stubbable typeOf

/-- A class of names. -/
structure Class.Stubbable (typeOf : String → TypeExpr) (c : Class) : Prop where
  name : IsName c.name
  superclass : ∀ p ∈ c.superclass, IsName p
  interfaces : ∀ i ∈ c.interfaces, IsName i
  attributes : ∀ a ∈ c.attributes.values, a.Stubbable typeOf
  methods : ∀ m ∈ c.methods.values, m.Stubbable typeOf

/-- An interface of names. -/
structure Interface.Stubbable (typeOf : String → TypeExpr) (i : Interface) : Prop where
  name : IsName i.name
  methods : ∀ m ∈ i.methods.values, m.Stubbable typeOf

/-- An enum of names. -/
structure Enum.Stubbable (e : Enum) : Prop where
  name : IsName e.name
  properties : ∀ p ∈ e.properties.values, IsName p.name

/-- A model of names, whose associations are not written. -/
structure Model.Stubbable (typeOf : String → TypeExpr) (m : Model) : Prop where
  classes : ∀ c ∈ m.classes.values, c.Stubbable typeOf
  interfaces : ∀ i ∈ m.interfaces.values, i.Stubbable typeOf
  enums : ∀ e ∈ m.enums.values, e.Stubbable

namespace Source

variable {us : List Token} {r : List Char} {typeOf : String → TypeExpr}

/-! ### Lines -/

theorem WritesType.lays {text : String} (h : WritesType typeOf text) :
    Lays (typeOf text).tokens text.toList := by
  have htext := (typeOf text).lays (TypeExpr.Proper.named _ h.proper)
  rwa [h.text_eq] at htext

theorem token_ofVisibility (v : Visibility) :
    (Modifier.ofVisibility v).token = .word v.keyword := by
  cases v <;> rfl

theorem isIdentifier_keyword (v : Visibility) : IsIdentifier v.keyword.toList := by
  cases v <;> decide

theorem laidOut_wordIf (b : Bool) {word : String} (hw : IsIdentifier word.toList)
    (h : LaidOut us r) :
    LaidOut ((if b then [.word word] else []) ++ us) ((Stub.wordIf b word).toList ++ r) := by
  cases b with
  | false => exact h
  | true =>
      have htext : (Stub.wordIf true word).toList ++ r = word.toList ++ ' ' :: r := by
        simp [Stub.wordIf]
      rw [htext]
      exact .word hw rfl h

/-- The line of an attribute is the text of its field. -/
theorem laidOut_attributeLine {a : Attribute} (ha : a.Stubbable typeOf) (h : LaidOut us r) :
    LaidOut ((Member.field (fieldOf typeOf a)).tokens ++ us)
      ((Stub.attributeLine a).toList ++ r) := by
  have htokens : (Member.field (fieldOf typeOf a)).tokens ++ us =
      .word a.visibility.keyword :: ((if a.isStatic then [.word "static"] else []) ++
        ((typeOf a.type).tokens ++ (.word a.name :: .symbol [';'] :: us))) := by
    rw [Member.tokens, fieldOf, Field.rest, List.map_cons, token_ofVisibility]
    cases a.isStatic <;> simp [separated, Declarator.tokens, dimsTokens, Modifier.token, Modifier.keyword]
  have htext : (Stub.attributeLine a).toList ++ r =
      '\t' :: (a.visibility.keyword.toList ++ ' ' :: ((Stub.wordIf a.isStatic "static").toList ++
        (a.type.toList ++ ' ' :: (a.name.toList ++ ([';'] ++ r))))) := by
    simp [Stub.attributeLine]
  rw [htokens, htext]
  have hname : LaidOut (.word a.name :: .symbol [';'] :: us) (a.name.toList ++ ([';'] ++ r)) :=
    .wordEnd ha.name.identifier rfl (.symbol (by decide) h)
  have htype := ha.type.lays _ _ (hname.white (c := ' ') rfl) apart_space
  exact .white rfl (.word (isIdentifier_keyword _) rfl (laidOut_wordIf _ (by decide) htype))

theorem lays_formal {p : Parameter} (hp : p.Stubbable typeOf) :
    Lays (formalOf typeOf p).tokens (p.type ++ " " ++ p.name).toList := by
  have htokens : (formalOf typeOf p).tokens = (typeOf p.type).tokens ++ [.word p.name] := rfl
  have htext : (p.type ++ " " ++ p.name).toList = p.type.toList ++ ' ' :: p.name.toList := by
    simp
  rw [htokens, htext]
  intro us r h hapart
  have hname := lays_word hp.name.identifier us r h hapart
  rw [List.append_assoc, List.append_assoc]
  exact hp.type.lays _ _ (hname.white (c := ' ') rfl) apart_space

theorem lays_parameterList {ps : List Parameter} (hps : ∀ p ∈ ps, p.Stubbable typeOf) :
    Lays (separated [','] Formal.tokens (ps.map (formalOf typeOf)))
      (Stub.parameterList ps).toList := by
  have htokens : separated [','] Formal.tokens (ps.map (formalOf typeOf)) =
      separated [','] (fun p => (formalOf typeOf p).tokens) ps := by
    cases ps with
    | nil => rfl
    | cons p ps => rw [List.map_cons, separated, List.flatMap_map, separated]
  rw [htokens, Stub.parameterList]
  refine lays_separated (g := [' ']) (by decide) (.white rfl .nil) rfl ?_
  intro p hp
  exact lays_formal (hps p hp)

theorem lays_result (inInterface : Bool) {m : Method} (hm : m.Stubbable typeOf) :
    Lays (resultTokens (procedureOf typeOf inInterface m).result) m.returnType.toList := by
  by_cases hvoid : m.returnType = "void"
  · rw [procedureOf, if_pos hvoid, hvoid]
    exact lays_word (by decide)
  · rw [procedureOf, if_neg hvoid]
    exact (hm.returnType hvoid).lays

/-- A method ends with a semicolon or with a body that returns nothing. -/
theorem laidOut_methodEnd (b : Bool) (h : LaidOut us r) :
    LaidOut (.ending :: us) ((if b then ";" else " \x7breturn null;\x7d").toList ++ r) := by
  cases b with
  | true => exact .token .semicolon rfl (fun hword => nomatch hword) h
  | false =>
      have hidle : ∀ f : List Char, (∀ c ∈ f, isIdle c = true) → Filling f := by
        intro f hf
        induction f with
        | nil => exact .nil
        | cons c f ih => exact .idle (hf c (by simp)) (ih fun d hd => hf d (by simp [hd]))
      have hbody : Filling "return null;".toList := hidle _ (by decide)
      exact (LaidOut.token (.body hbody) rfl (fun hword => nomatch hword) h).white rfl

/-- The line of a method is the text of its tree. -/
theorem laidOut_methodLine (inInterface : Bool) {m : Method} (hm : m.Stubbable typeOf)
    (h : LaidOut us r) :
    LaidOut ((Member.method (procedureOf typeOf inInterface m)).tokens ++ us)
      ((Stub.methodLine inInterface m).toList ++ r) := by
  have htokens : (Member.method (procedureOf typeOf inInterface m)).tokens ++ us =
      .word m.visibility.keyword ::
        ((if m.isAbstract && !inInterface then [.word "abstract"] else []) ++
          (resultTokens (procedureOf typeOf inInterface m).result ++ (.word m.name ::
            .symbol ['('] :: (separated [','] Formal.tokens (m.parameters.map (formalOf typeOf)) ++
              (.symbol [')'] :: .ending :: us))))) := by
    rw [Member.tokens, procedureOf, Procedure.rest, List.map_cons, token_ofVisibility, formalsTokens]
    cases m.isAbstract && !inInterface <;> simp [Modifier.token, Modifier.keyword]
  have htext : (Stub.methodLine inInterface m).toList ++ r =
      '\t' :: (m.visibility.keyword.toList ++ ' ' ::
        ((Stub.wordIf (m.isAbstract && !inInterface) "abstract").toList ++
          (m.returnType.toList ++ ' ' :: (m.name.toList ++ (['('] ++
            ((Stub.parameterList m.parameters).toList ++ ([')'] ++
              ((if inInterface || m.isAbstract then ";" else " \x7breturn null;\x7d").toList ++
                r)))))))) := by
    simp [Stub.methodLine]
  rw [htokens, htext]
  have hending := laidOut_methodEnd (inInterface || m.isAbstract) h
  have hparameters := (lays_parameterList hm.parameters) _ _
    (hending.symbol (x := [')']) (by decide)) (apart_symbol _)
  have hname := LaidOut.wordEnd hm.name.identifier rfl (hparameters.symbol (x := ['(']) (by decide))
  have hresult := (lays_result inInterface hm) _ _ (hname.white (c := ' ') rfl) apart_space
  exact .white rfl (.word (isIdentifier_keyword _) rfl (laidOut_wordIf _ (by decide) hresult))

/-! ### Stubs -/

/-- Lines behind a gap, which are left out with the gap if there are none. -/
theorem laidOut_section {α : Type} {tokens : α → List Token} {text : α → String} {as : List α}
    (gap : String) (hgap : Trivia gap.toList) {b : Bool} (hb : b = true → as = [])
    (h : ∀ a ∈ as, ∀ us r, LaidOut us r → LaidOut (tokens a ++ us) ((text a).toList ++ r))
    (hus : LaidOut us r) :
    LaidOut (as.flatMap tokens ++ us)
      ((if b then "" else gap ++ String.intercalate "\n" (as.map text)).toList ++ r) := by
  cases b with
  | true =>
      rw [hb rfl]
      exact hus
  | false =>
      rw [if_neg Bool.false_ne_true, String.toList_append, List.append_assoc]
      exact (laidOut_lines h hus).trivia hgap

theorem lays_plainType {name : String} (h : IsName name) :
    Lays (classTypeTokens (plainType name)) name.toList := by
  have htokens : classTypeTokens (plainType name) = [.word name] := by
    simp [plainType, classTypeTokens, TypeSegment.tokens, segmentsTokens]
  rw [htokens]
  exact lays_word h.identifier

/-- A clause that stands behind a space, in front of whatever keeps apart. -/
theorem trails_clause {word : String} (hw : IsIdentifier word.toList) {ts : List Token}
    {x : List Char} (h : Lays ts x) :
    Trails (.word word :: ts) (' ' :: (word.toList ++ ' ' :: x)) := by
  constructor
  · intro us r hus hapart
    have hword := LaidOut.word (c := ' ') hw rfl (h us r hus hapart)
    have htext : word.toList ++ ' ' :: (x ++ r) = (word.toList ++ ' ' :: x) ++ r := by
      simp
    rw [htext] at hword
    exact hword.white rfl
  · intro us r _
    exact apart_space

/-- The clause of the superclass as a text. -/
def extendsText : Option String → String
  | some parent => " extends " ++ parent
  | none => ""

theorem classHeader_eq (c : Class) :
    Stub.classHeader c = Stub.wordIf c.isAbstract "abstract" ++ c.visibility.keyword ++ " class " ++
      c.name ++ extendsText c.superclass ++
        (if c.interfaces.isEmpty then ""
          else " implements " ++ String.intercalate ", " c.interfaces) ++ " \x7b" := by
  unfold Stub.classHeader
  cases c.superclass <;> rfl

theorem trails_superclass {o : Option String} (ho : ∀ p ∈ o, IsName p) :
    Trails (superclassTokens (o.map plainType)) (extendsText o).toList := by
  cases o with
  | none => exact trails_nil
  | some parent =>
      have htext : (extendsText (some parent)).toList =
          ' ' :: ("extends".toList ++ ' ' :: parent.toList) := by
        simp [extendsText]
      rw [htext]
      exact trails_clause (by decide) (lays_plainType (ho parent rfl))

theorem trails_interfaces {names : List String} (hnames : ∀ i ∈ names, IsName i) :
    Trails (clauseTokens "implements" (names.map plainType))
      (if names.isEmpty then "" else " implements " ++ String.intercalate ", " names).toList := by
  cases names with
  | nil => exact trails_nil
  | cons i is =>
      have hlist : Lays (separated [','] (fun name => classTypeTokens (plainType name)) (i :: is))
          (String.intercalate ", " ((i :: is).map id)).toList := by
        refine lays_separated (g := [' ']) (by decide) (.white rfl .nil) rfl ?_
        intro name hname
        exact lays_plainType (hnames name hname)
      have htokens : clauseTokens "implements" ((i :: is).map plainType) =
          .word "implements" ::
            separated [','] (fun name => classTypeTokens (plainType name)) (i :: is) := by
        rw [List.map_cons, clauseTokens, separated, separated, List.flatMap_map]
      have htext : (if (i :: is).isEmpty then ""
          else " implements " ++ String.intercalate ", " (i :: is)).toList =
            ' ' :: ("implements".toList ++ ' ' :: (String.intercalate ", " (i :: is)).toList) := by
        simp
      rw [List.map_id] at hlist
      rw [htokens, htext]
      exact trails_clause (by decide) hlist

/-- The closing brace of a stub. -/
theorem laidOut_close : LaidOut [.symbol ['\x7d']] "\n\x7d".toList :=
  .white (c := '\n') rfl (.symbol (x := ['\x7d']) (by decide) .nil)

theorem isEmpty_values {α : Type} {m : OrderedMap α} (h : m.isEmpty = true) : m.values = [] := by
  rw [OrderedMap.isEmpty, List.isEmpty_iff] at h
  rw [OrderedMap.values, h, List.map_nil]

/-- The stub of a class is the text of its tree. -/
theorem laidOut_classText {c : Class} (hc : c.Stubbable typeOf) {methods : List Method}
    (hmethods : ∀ m ∈ methods, m.Stubbable typeOf) :
    LaidOut (classTree typeOf c methods).tokens (Stub.classText c methods).toList := by
  have htokens : (classTree typeOf c methods).tokens =
      (if c.isAbstract then [.word "abstract"] else []) ++ (.word c.visibility.keyword ::
        .word "class" :: .word c.name :: (superclassTokens (c.superclass.map plainType) ++
          (clauseTokens "implements" (c.interfaces.map plainType) ++ (.symbol ['\x7b'] ::
            (c.attributes.values.flatMap (fun a => (Member.field (fieldOf typeOf a)).tokens) ++
              (methods.flatMap (fun m => (Member.method (procedureOf typeOf false m)).tokens) ++
                [.symbol ['\x7d']])))))) := by
    rw [classTree, Declaration.tokens, membersTokens_eq, List.flatMap_append, List.flatMap_map,
      List.flatMap_map, List.map_append, List.map_cons, token_ofVisibility]
    cases c.isAbstract <;> simp [Modifier.token, Modifier.keyword]
  have htext : (Stub.classText c methods).toList =
      (Stub.wordIf c.isAbstract "abstract").toList ++ (c.visibility.keyword.toList ++ ' ' ::
        ("class".toList ++ ' ' :: (c.name.toList ++
          ((extendsText c.superclass).toList ++
            ((if c.interfaces.isEmpty then ""
              else " implements " ++ String.intercalate ", " c.interfaces).toList ++ ' ' ::
              (['\x7b'] ++
                ((if c.attributes.isEmpty then ""
                  else "\n" ++
                    String.intercalate "\n" (c.attributes.values.map Stub.attributeLine)).toList ++
                  ((if methods.isEmpty then ""
                    else (if c.attributes.isEmpty then "\n" else "\n\n") ++
                      Stub.methodLines false methods).toList ++ "\n\x7d".toList)))))))) := by
    simp [Stub.classText, classHeader_eq]
  rw [htokens, htext]
  have hlines := laidOut_section (if c.attributes.isEmpty then "\n" else "\n\n")
    (by split <;> exact .white rfl (by first | exact .nil | exact .white rfl .nil))
    List.isEmpty_iff.mp (fun m hm us r h => laidOut_methodLine false (hmethods m hm) h)
    laidOut_close
  have hbody := laidOut_section "\n" (.white rfl .nil) isEmpty_values
    (fun a ha us r h => laidOut_attributeLine (hc.attributes a ha) h) hlines
  have hbrace := (hbody.symbol (x := ['\x7b']) (by decide)).white (c := ' ') rfl
  have hheader := ((lays_word hc.name.identifier).append (trails_superclass hc.superclass)).append
    (trails_interfaces hc.interfaces)
  have hname := hheader _ _ hbrace apart_space
  simp only [List.append_assoc] at hname
  exact laidOut_wordIf _ (by decide) (.word (isIdentifier_keyword _) rfl (.word (by decide) rfl hname))

/-- The stub of an interface is the text of its tree. -/
theorem laidOut_interface {i : Interface} (hi : i.Stubbable typeOf) :
    LaidOut (interfaceTree typeOf i).tokens (Stub.renderInterface i).toList := by
  have htokens : (interfaceTree typeOf i).tokens =
      .word i.visibility.keyword :: .word "interface" :: .word i.name :: .symbol ['\x7b'] ::
        (i.methods.values.flatMap (fun m => (Member.method (procedureOf typeOf true m)).tokens) ++
          [.symbol ['\x7d']]) := by
    rw [interfaceTree, Declaration.tokens, membersTokens_eq, List.flatMap_map, List.map_cons,
      token_ofVisibility]
    simp [clauseTokens]
  have htext : (Stub.renderInterface i).toList =
      i.visibility.keyword.toList ++ ' ' :: ("interface".toList ++ ' ' :: (i.name.toList ++ ' ' ::
        (['\x7b'] ++ '\n' :: ((Stub.methodLines true i.methods.values).toList ++
          "\n\x7d".toList)))) := by
    simp [Stub.renderInterface]
  have hlines := laidOut_lines (fun m hm us r h => laidOut_methodLine true (hi.methods m hm) h)
    laidOut_close
  rw [htokens, htext]
  exact .word (isIdentifier_keyword _) rfl (.word (by decide) rfl (.word hi.name.identifier rfl
    (.symbol (by decide) (hlines.white rfl))))

/-- The stub of an enum is the text of its tree. -/
theorem laidOut_enum {e : Enum} (he : e.Stubbable) :
    LaidOut (enumTree e).tokens (Stub.renderEnum e).toList := by
  have hconstants : Lays (separated [','] (fun p => [.word p.name]) e.properties.values)
      (String.intercalate ",\n" (e.properties.values.map fun p => "\t" ++ p.name)).toList := by
    refine lays_separated (g := ['\n']) (by decide) (.white rfl .nil) rfl ?_
    intro p hp
    rw [String.toList_append]
    exact (lays_word (he.properties p hp).identifier).trivia (.white rfl .nil)
  have htokens : (enumTree e).tokens =
      .word "enum" :: .word e.name :: .symbol ['\x7b'] ::
        (separated [','] (fun p => [.word p.name]) e.properties.values ++ [.symbol ['\x7d']]) := by
    have hmap : constantsTokens (e.properties.values.map EnumProperty.name) =
        separated [','] (fun p => [.word p.name]) e.properties.values := by
      rw [constantsTokens]
      cases e.properties.values with
      | nil => rfl
      | cons p ps => rw [List.map_cons, separated, List.flatMap_map, separated]
    rw [enumTree, Declaration.tokens, hmap]
    simp [clauseTokens, enumMembersTokens]
  have htext : (Stub.renderEnum e).toList =
      "enum".toList ++ ' ' :: (e.name.toList ++ ' ' :: (['\x7b'] ++ '\n' ::
        ((String.intercalate ",\n" (e.properties.values.map fun p => "\t" ++ p.name)).toList ++
          "\n\x7d".toList))) := by
    simp [Stub.renderEnum]
  have hclose := hconstants _ _ laidOut_close (apart_symbol _)
  rw [htokens, htext]
  exact .word (by decide) rfl (.word he.name.identifier rfl (.symbol (by decide)
    (hclose.white rfl)))

end Source

end ClassModel
