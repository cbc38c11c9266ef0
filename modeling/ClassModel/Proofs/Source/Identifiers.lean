/-
The identifiers of a tree.

Whatever a source file holds, the tree that is read of it names everything by identifiers.
The grammar makes a word in one place only, and from there on every recogniser passes on what
its parts made.  `Yields p P` says of a recogniser that whatever it makes satisfies `P`, and it
is closed under the ways to put recognisers together.

A grammar that refers to itself yields what each round yields of what the round before it
yields.  So types and declarations need no induction of their own, however deep they nest.
-/
import ClassModel.Source.Reader
import ClassModel.Proofs.Source.Cutting
import ClassModel.Proofs.Source.Layout

namespace ClassModel.Source

open Recogniser

/-! ### What a recogniser makes -/

/-- Whatever a recogniser makes satisfies a condition. -/
def Yields {α : Type} (p : Recogniser α) (P : α → Prop) : Prop :=
  ∀ ⦃s a r⦄, p.cut s = some (a, r) → P a

namespace Yields

variable {α β : Type} {p q : Recogniser α} {f : α → Recogniser β} {P : α → Prop} {Q : β → Prop}

/-- Nothing is asked of what is dropped. -/
theorem any (p : Recogniser α) : Yields p fun _ => True :=
  fun _ _ _ _ => trivial

theorem pure {a : α} (h : P a) : Yields (pure a) P := by
  intro s b r hb
  cases hb
  exact h

theorem bind (hp : Yields p P) (hf : ∀ a, P a → Yields (f a) Q) : Yields (p >>= f) Q := by
  intro s b r h
  rw [cut_bind, Option.bind_eq_some_iff] at h
  obtain ⟨⟨a, t⟩, ha, hb⟩ := h
  exact hf a (hp ha) hb

/-- Behind a part that is dropped. -/
theorem skip (p : Recogniser α) (hf : ∀ a, Yields (f a) Q) : Yields (p >>= f) Q :=
  (any p).bind fun a _ => hf a

theorem map {g : α → β} (hp : Yields p P) (hg : ∀ a, P a → Q (g a)) : Yields (g <$> p) Q := by
  rw [map_eq_pure_bind]
  exact hp.bind fun a ha => .pure (hg a ha)

theorem orElse (hp : Yields p P) (hq : Yields q P) : Yields (p <|> q) P := by
  intro s a r h
  rw [cut_orElse, Option.or_eq_some_iff] at h
  rcases h with h | ⟨-, h⟩
  · exact hp h
  · exact hq h

theorem optional (hp : Yields p P) : Yields (optional p) fun o => ∀ a ∈ o, P a := by
  intro s o r h a ha
  rw [cut_optional, Option.some_inj] at h
  cases hcut : p.cut s with
  | none =>
      rw [hcut] at h
      cases h
      cases ha
  | some x =>
      rw [hcut] at h
      cases h
      cases ha
      exact hp hcut

theorem many (hp : Yields p P) : Yields (many p) fun as => ∀ a ∈ as, P a := by
  intro s as r h
  induction as generalizing s with
  | nil => exact fun a ha => absurd ha List.not_mem_nil
  | cons a as ih =>
      obtain ⟨t, hcut, -, hmany⟩ := cut_many_eq_cons_iff.mp h
      intro b hb
      rcases List.mem_cons.mp hb with rfl | hb
      · exact hp hcut
      · exact ih hmany b hb

theorem check {g : α → Except (Option SyntaxFault) β} (hp : Yields p P)
    (hg : ∀ a b, P a → g a = .ok b → Q b) : Yields (check p g) Q := by
  intro s b r h
  obtain ⟨a, ha, hb⟩ := cut_check_eq_some_iff.mp h
  exact hg a b (hp ha) hb

theorem sepBy1 (hp : Yields p P) (separator : Recogniser Unit) :
    Yields (sepBy1 p separator) fun as => ∀ a ∈ as, P a := by
  refine hp.bind fun a ha => (many (skip separator fun _ => hp)).bind fun as has => .pure ?_
  intro b hb
  rcases List.mem_cons.mp hb with rfl | hb
  · exact ha
  · exact has b hb

theorem sepBy (hp : Yields p P) (separator : Recogniser Unit) :
    Yields (sepBy p separator) fun as => ∀ a ∈ as, P a := by
  refine (optional (hp.sepBy1 separator)).bind fun o ho => .pure ?_
  cases o with
  | none => exact fun a ha => absurd ha List.not_mem_nil
  | some as => exact ho as rfl

/-- A grammar that refers to itself yields what one round of it yields. -/
theorem recursive {f : Recogniser α → Recogniser α} (h : ∀ p, Yields p P → Yields (f p) P) :
    Yields (recursive f) P := by
  have hunroll : ∀ n, Yields (unroll f n) P := by
    intro n
    induction n with
    | zero => exact fun _ _ _ hcut => nomatch hcut
    | succ n ih => exact h _ ih
  intro s a r h
  exact hunroll (s.length + 1) h

end Yields

/-! ### The identifiers of a tree -/

mutual

/-- The identifiers of a type. -/
def TypeExpr.identifiers : TypeExpr → List String
  | .primitive name _ => [name]
  | .reference segments _ => segmentsIdentifiers segments

/-- The identifiers of segments. -/
def segmentsIdentifiers : List TypeSegment → List String
  | [] => []
  | s :: r => s.identifiers ++ segmentsIdentifiers r

/-- The identifiers of a segment. -/
def TypeSegment.identifiers : TypeSegment → List String
  | .plain name => [name]
  | .applied name arguments => name :: argumentsIdentifiers arguments

/-- The identifiers of arguments. -/
def argumentsIdentifiers : List TypeArgument → List String
  | [] => []
  | a :: r => a.identifiers ++ argumentsIdentifiers r

/-- The identifiers of an argument. -/
def TypeArgument.identifiers : TypeArgument → List String
  | .type t => t.identifiers
  | .wildcard => []

end

/-- The identifiers of a field declaration. -/
def Field.identifiers (f : Field) : List String :=
  f.type.identifiers ++ f.declarators.map Declarator.name

/-- The identifiers of a parameter. -/
def Formal.identifiers (f : Formal) : List String :=
  f.name :: f.type.toList.flatMap TypeExpr.identifiers

/-- The identifiers of a method declaration. -/
def Procedure.identifiers (p : Procedure) : List String :=
  p.name :: (p.result.toList.flatMap TypeExpr.identifiers ++
    p.parameters.flatMap Formal.identifiers)

mutual

/-- The identifiers of a declaration. -/
def Declaration.identifiers : Declaration → List String
  | .ofClass _ name superclass interfaces members =>
      name :: (superclass.toList.flatMap segmentsIdentifiers ++
        (interfaces.flatMap segmentsIdentifiers ++ membersIdentifiers members))
  | .ofInterface _ name parents members =>
      name :: (parents.flatMap segmentsIdentifiers ++ membersIdentifiers members)
  | .ofEnum _ name interfaces constants members =>
      name :: (interfaces.flatMap segmentsIdentifiers ++ (constants ++ membersIdentifiers members))

/-- The identifiers of a member. -/
def Member.identifiers : Member → List String
  | .field f => f.identifiers
  | .method p => p.identifiers
  | .constructor name => [name]
  | .block => []
  | .type d => d.identifiers

/-- The identifiers of members. -/
def membersIdentifiers : List Member → List String
  | [] => []
  | m :: r => m.identifiers ++ membersIdentifiers r

end

/-- The identifiers of a source file, without those of its imports. -/
def CompilationUnit.identifiers (u : CompilationUnit) : List String :=
  u.package ++ u.types.flatMap Declaration.identifiers

theorem segmentsIdentifiers_eq (segments : List TypeSegment) :
    segmentsIdentifiers segments = segments.flatMap TypeSegment.identifiers := by
  induction segments with
  | nil => rw [segmentsIdentifiers, List.flatMap_nil]
  | cons s r ih => rw [segmentsIdentifiers, List.flatMap_cons, ih]

theorem argumentsIdentifiers_eq (arguments : List TypeArgument) :
    argumentsIdentifiers arguments = arguments.flatMap TypeArgument.identifiers := by
  induction arguments with
  | nil => rw [argumentsIdentifiers, List.flatMap_nil]
  | cons a r ih => rw [argumentsIdentifiers, List.flatMap_cons, ih]

theorem membersIdentifiers_eq (members : List Member) :
    membersIdentifiers members = members.flatMap Member.identifiers := by
  induction members with
  | nil => rw [membersIdentifiers, List.flatMap_nil]
  | cons m r ih => rw [membersIdentifiers, List.flatMap_cons, ih]

/-- Words that are identifiers. -/
def Identifying (ws : List String) : Prop :=
  ∀ w ∈ ws, IsIdentifier w.toList

namespace Identifying

variable {w : String} {ws vs : List String}

theorem nil : Identifying [] :=
  fun _ hw => absurd hw List.not_mem_nil

theorem cons (hw : IsIdentifier w.toList) (hws : Identifying ws) : Identifying (w :: ws) := by
  intro v hv
  rcases List.mem_cons.mp hv with rfl | hv
  · exact hw
  · exact hws v hv

theorem append (hws : Identifying ws) (hvs : Identifying vs) : Identifying (ws ++ vs) := by
  intro v hv
  rcases List.mem_append.mp hv with hv | hv
  · exact hws v hv
  · exact hvs v hv

theorem flatMap {α : Type} {xs : List α} {f : α → List String}
    (h : ∀ x ∈ xs, Identifying (f x)) : Identifying (xs.flatMap f) := by
  intro v hv
  obtain ⟨x, hx, hv⟩ := List.mem_flatMap.mp hv
  exact h x hx v hv

/-- Of a part that may be missing. -/
theorem option {α : Type} {o : Option α} {f : α → List String}
    (h : ∀ x ∈ o, Identifying (f x)) : Identifying (o.toList.flatMap f) :=
  flatMap fun x hx => h x (Option.mem_toList.mp hx)

theorem map {α : Type} {xs : List α} {f : α → String}
    (h : ∀ x ∈ xs, IsIdentifier (f x).toList) : Identifying (xs.map f) := by
  intro v hv
  obtain ⟨x, hx, rfl⟩ := List.mem_map.mp hv
  exact h x hx

end Identifying

/-! ### Words -/

theorem yields_rawIdentifier : Yields rawIdentifier fun w => IsIdentifier w.toList := by
  have hstart : Yields (satisfy isIdentifierStart) fun c => isIdentifierStart c = true := by
    intro s c r h
    cases s with
    | nil => cases h
    | cons d t =>
        rw [cut_satisfy_cons] at h
        split at h
        · cases h
          assumption
        · cases h
  have hrun : Yields (run isIdentifierContinue) fun t => ∀ d ∈ t, isIdentifierContinue d = true := by
    intro s t r h
    rw [cut_run] at h
    cases h
    exact fun d hd => of_mem_takeWhile hd
  refine hstart.bind fun c hc => hrun.bind fun t ht => .pure ?_
  rw [String.toList_ofList]
  exact ⟨c, t, rfl, hc, ht⟩

/-- A check that lets some words through as they are. -/
theorem yields_word {g : String → Except (Option SyntaxFault) String}
    (hg : ∀ w v, g w = .ok v → v = w) :
    Yields (check rawIdentifier g) fun w => IsIdentifier w.toList :=
  yields_rawIdentifier.check fun w v hw h => by rwa [hg w v h]

theorem yields_identifier : Yields identifier fun w => IsIdentifier w.toList := by
  refine (yields_word fun w v h => ?_).bind fun w hw => .skip _ fun _ => .pure hw
  split at h <;> cases h
  rfl

theorem yields_primitiveName : Yields primitiveName fun w => IsIdentifier w.toList := by
  refine (yields_word fun w v h => ?_).bind fun w hw => .skip _ fun _ => .pure hw
  split at h <;> cases h
  rfl

/-! ### Types -/

theorem yields_typeArgument {type : Recogniser TypeExpr}
    (h : Yields type fun t => Identifying t.identifiers) :
    Yields (typeArgument type) fun a => Identifying a.identifiers := by
  refine .orElse (.skip _ fun _ => .skip _ fun _ => .pure ?_) (h.map fun t ht => ?_)
  · rw [TypeArgument.identifiers]
    exact .nil
  · rw [TypeArgument.identifiers]
    exact ht

theorem yields_typeSegment {type : Recogniser TypeExpr}
    (h : Yields type fun t => Identifying t.identifiers) :
    Yields (typeSegment type) fun s => Identifying s.identifiers := by
  have harguments : Yields (typeArguments type) fun as => ∀ a ∈ as, Identifying a.identifiers :=
    .skip _ fun _ => ((yields_typeArgument h).sepBy _).bind fun as has => .skip _ fun _ => .pure has
  refine yields_identifier.bind fun w hw => harguments.optional.bind fun o ho => .pure ?_
  cases o with
  | none =>
      rw [TypeSegment.identifiers]
      exact .cons hw .nil
  | some as =>
      rw [TypeSegment.identifiers, argumentsIdentifiers_eq]
      exact .cons hw (.flatMap (ho as rfl))

theorem yields_typeExpr : Yields typeExpr fun t => Identifying t.identifiers := by
  refine .recursive fun type h => .orElse ?_ ?_
  · refine yields_primitiveName.bind fun w hw => .skip _ fun n => .pure ?_
    rw [TypeExpr.identifiers]
    exact .cons hw .nil
  · refine ((yields_typeSegment h).sepBy1 _).bind fun segments hs => .skip _ fun n => .pure ?_
    rw [TypeExpr.identifiers, segmentsIdentifiers_eq]
    exact .flatMap hs

theorem yields_classType : Yields classType fun t => Identifying (segmentsIdentifiers t) := by
  refine yields_typeExpr.check fun t c ht h => ?_
  cases t with
  | primitive name n => cases h
  | reference segments n =>
      rw [TypeExpr.identifiers] at ht
      cases n with
      | zero =>
          cases h
          exact ht
      | succ n => cases h

theorem yields_clause (word : String) :
    Yields (clause word) fun ts => ∀ t ∈ ts, Identifying (segmentsIdentifiers t) := by
  refine (Yields.optional (.skip _ fun _ => yields_classType.sepBy1 _)).bind fun o ho => .pure ?_
  cases o with
  | none => exact fun t ht => absurd ht List.not_mem_nil
  | some ts => exact ho ts rfl

/-! ### Members -/

theorem identifiers_addDims (t : TypeExpr) (n : Nat) :
    (t.addDims n).identifiers = t.identifiers := by
  cases t <;> (rw [TypeExpr.addDims, TypeExpr.identifiers, TypeExpr.identifiers])

theorem yields_formal : Yields formal fun f => Identifying f.identifiers := by
  refine .skip _ fun _ => .orElse ?_ ?_
  · refine yields_typeExpr.bind fun t ht => .skip _ fun dots => yields_identifier.bind fun w hw =>
      .skip _ fun n => .pure (.cons hw (.option ?_))
    rintro _ ⟨⟩
    rw [identifiers_addDims]
    exact ht
  · exact yields_identifier.bind fun w hw => .pure (.cons hw .nil)

theorem yields_formals : Yields formals fun fs => ∀ f ∈ fs, Identifying f.identifiers :=
  .skip _ fun _ => (yields_formal.sepBy _).bind fun _ hfs => .skip _ fun _ => .pure hfs

theorem yields_declarator : Yields declarator fun d => IsIdentifier d.name.toList :=
  yields_identifier.bind fun _ hw => .skip _ fun _ => .skip _ fun _ => .pure hw

theorem yields_field (ms : List Modifier) : Yields (field ms) fun m => Identifying m.identifiers := by
  refine yields_typeExpr.bind fun t ht => (yields_declarator.sepBy1 _).bind fun ds hds =>
    .skip _ fun _ => .pure ?_
  rw [Member.identifiers]
  exact ht.append (.map hds)

theorem yields_method (ms : List Modifier) :
    Yields (method ms) fun m => Identifying m.identifiers := by
  have hresult : Yields ((do keyword "void"; return none) <|> some <$> typeExpr)
      fun o : Option TypeExpr => ∀ t ∈ o, Identifying t.identifiers := by
    refine .orElse (.skip _ fun _ => .pure fun t ht => nomatch ht) (yields_typeExpr.map ?_)
    rintro t ht _ ⟨⟩
    exact ht
  refine .skip _ fun _ => hresult.bind fun o ho => yields_identifier.bind fun w hw =>
    yields_formals.bind fun fs hfs => .skip _ fun _ => .skip _ fun _ => .skip _ fun _ => .pure ?_
  rw [Member.identifiers]
  exact .cons hw (.append (.option ho) (.flatMap hfs))

theorem yields_constructor : Yields constructor fun m => Identifying m.identifiers := by
  refine .skip _ fun _ => yields_identifier.bind fun w hw => .skip _ fun _ => .skip _ fun _ =>
    .skip _ fun _ => .pure ?_
  rw [Member.identifiers]
  exact .cons hw .nil

/-! ### Declarations -/

section Nested

variable {nested : Recogniser Declaration}

theorem yields_member (h : Yields nested fun d => Identifying d.identifiers) :
    Yields (member nested) fun o => ∀ m ∈ o, Identifying m.identifiers := by
  refine .orElse (.skip _ fun _ => .pure fun m hm => nomatch hm) (.orElse ?_ ?_)
  · refine h.bind fun d hd => .pure ?_
    rintro _ ⟨⟩
    rw [Member.identifiers]
    exact hd
  · refine .skip _ fun ms => .bind ((yields_method ms).orElse ((yields_field ms).orElse
      (yields_constructor.orElse (.skip _ fun _ => .pure ?_)))) fun m hm => .pure ?_
    · rw [Member.identifiers]
      exact .nil
    · rintro _ ⟨⟩
      exact hm

/-- What comes of parts of which some leave nothing. -/
theorem forall_mem_filterMap_id {α : Type} {P : α → Prop} {os : List (Option α)}
    (h : ∀ o ∈ os, ∀ a ∈ o, P a) : ∀ a ∈ os.filterMap id, P a := by
  intro a ha
  obtain ⟨o, ho, he⟩ := List.mem_filterMap.mp ha
  exact h o ho a he

theorem yields_members (h : Yields nested fun d => Identifying d.identifiers) :
    Yields (members nested) fun ms => Identifying (membersIdentifiers ms) := by
  refine (yields_member h).many.bind fun os hos => .pure ?_
  rw [membersIdentifiers_eq]
  exact .flatMap (forall_mem_filterMap_id hos)

theorem yields_body (h : Yields nested fun d => Identifying d.identifiers) :
    Yields (body nested) fun ms => Identifying (membersIdentifiers ms) :=
  .skip _ fun _ => (yields_members h).bind fun _ hms => .skip _ fun _ => .pure hms

theorem yields_classDeclaration (h : Yields nested fun d => Identifying d.identifiers)
    (ms : List Modifier) : Yields (classDeclaration nested ms) fun d => Identifying d.identifiers := by
  refine .skip _ fun _ => yields_identifier.bind fun w hw => .skip _ fun _ =>
    (Yields.optional (.skip _ fun _ => yields_classType)).bind fun o ho =>
      (yields_clause _).bind fun ts hts => .skip _ fun _ => (yields_body h).bind fun inner hinner =>
        .pure ?_
  rw [Declaration.identifiers]
  exact .cons hw (.append (.option ho) (.append (.flatMap hts) hinner))

theorem yields_interfaceDeclaration (h : Yields nested fun d => Identifying d.identifiers)
    (ms : List Modifier) :
    Yields (interfaceDeclaration nested ms) fun d => Identifying d.identifiers := by
  refine .skip _ fun _ => yields_identifier.bind fun w hw => .skip _ fun _ =>
    (yields_clause _).bind fun ts hts => .skip _ fun _ => (yields_body h).bind fun inner hinner =>
      .pure ?_
  rw [Declaration.identifiers]
  exact .cons hw (.append (.flatMap hts) hinner)

theorem yields_constants : Yields constants fun ws => Identifying ws := by
  have hconstant : Yields constant fun w => IsIdentifier w.toList :=
    .skip _ fun _ => yields_identifier.bind fun _ hw => .skip _ fun _ => .skip _ fun _ => .pure hw
  refine (hconstant.sepBy _).bind fun ws hws => ?_
  dsimp only
  split
  · exact .skip _ fun _ => .pure hws
  · exact .skip _ fun _ => .pure hws

theorem yields_enumDeclaration (h : Yields nested fun d => Identifying d.identifiers)
    (ms : List Modifier) : Yields (enumDeclaration nested ms) fun d => Identifying d.identifiers := by
  refine .skip _ fun _ => yields_identifier.bind fun w hw => (yields_clause _).bind fun ts hts =>
    .skip _ fun _ => yields_constants.bind fun cs hcs =>
      (Yields.optional (.skip _ fun _ => yields_members h)).bind fun o ho =>
        .skip _ fun _ => .pure ?_
  have hinner : Identifying (membersIdentifiers (o.getD [])) := by
    cases o with
    | none =>
        show Identifying (membersIdentifiers [])
        rw [membersIdentifiers]
        exact .nil
    | some inner => exact ho inner rfl
  rw [Declaration.identifiers]
  exact .cons hw (.append (.flatMap hts) (.append hcs hinner))

end Nested

theorem yields_declaration : Yields declaration fun d => Identifying d.identifiers :=
  .recursive fun _ h => .skip _ fun ms => (yields_classDeclaration h ms).orElse
    ((yields_interfaceDeclaration h ms).orElse (yields_enumDeclaration h ms))

/-! ### Files -/

theorem yields_package : Yields package Identifying :=
  .skip _ fun _ => .skip _ fun _ => (yields_identifier.sepBy1 _).bind fun _ hws =>
    .skip _ fun _ => .pure hws

theorem yields_compilationUnit : Yields compilationUnit fun u => Identifying u.identifiers := by
  have htopLevel : Yields topLevel fun o => ∀ d ∈ o, Identifying d.identifiers := by
    refine .orElse (yields_declaration.map ?_) (.skip _ fun _ => .pure fun d hd => nomatch hd)
    rintro d hd _ ⟨⟩
    exact hd
  refine .skip _ fun _ => yields_package.optional.bind fun o ho => .skip _ fun _ =>
    htopLevel.many.bind fun ds hds => .skip _ fun _ => .pure ?_
  have hpackage : Identifying (o.getD []) := by
    cases o with
    | none => exact .nil
    | some ws => exact ho ws rfl
  exact hpackage.append (.flatMap (forall_mem_filterMap_id hds))

/-- **The tree of a source file names everything by identifiers.** -/
theorem identifying_read {text : String} {u : CompilationUnit}
    (h : CompilationUnit.read text = .ok u) : Identifying u.identifiers := by
  unfold CompilationUnit.read at h
  cases houtcome : (compilationUnit (Input.ofChars text.toList)).outcome with
  | none =>
      simp only [houtcome] at h
      cases h
  | some x =>
      simp only [houtcome] at h
      cases h
      have hcut : compilationUnit.cut text.toList = some (x.1, x.2.chars) := by
        unfold cut
        rw [houtcome, Option.map_some]
      exact yields_compilationUnit hcut

end ClassModel.Source
