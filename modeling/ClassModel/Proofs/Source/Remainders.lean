/-
What the recognisers of the grammar leave.

A declaration and a member read a word or a symbol of their own, so a repetition of them goes
on, and a declaration inside a declaration is shorter.  The grammar of declarations is
therefore one round of itself.
-/
import ClassModel.Proofs.Source.Declarations
import ClassModel.Proofs.Source.Values

namespace ClassModel.Source

open Recogniser

variable {α : Type} {p : Recogniser α} {n : Nat}

/-! ### Words, symbols and groups -/

theorem trims_trivia : Trims trivia :=
  (Trims.many _).bind fun _ => .pure _

theorem consumes_token (c : Char) (w : List Char) : Consumes (token (c :: w)) :=
  (Consumes.literal c w).bind fun _ => trims_trivia

theorem consumes_rawIdentifier : Consumes rawIdentifier :=
  (Consumes.satisfy _).bind fun _ => (Trims.run _).bind fun _ => .pure _

theorem consumes_keyword (w : String) : Consumes (keyword w) :=
  consumes_rawIdentifier.check.bind fun _ => trims_trivia

theorem consumes_identifier : Consumes identifier :=
  consumes_rawIdentifier.check.bind fun _ => trims_trivia.bind fun _ => .pure _

theorem consumes_primitiveName : Consumes primitiveName :=
  consumes_rawIdentifier.check.bind fun _ => trims_trivia.bind fun _ => .pure _

theorem consumes_block : Consumes block :=
  (consumes_balanced _ _).bind fun _ => trims_trivia

theorem trims_argumentList : Trims argumentList :=
  (consumes_balanced _ _).trims.bind fun _ => trims_trivia

theorem trims_typeParameters : Trims typeParameters :=
  consumes_angleGroup.trims.bind fun _ => trims_trivia

theorem trims_modifiers : Trims modifiers :=
  (Trims.many _).bind fun _ => .pure _

/-! ### Types -/

theorem trims_dims : Trims dims :=
  (Trims.many _).bind fun _ => .pure _

theorem consumes_typeSegment (type : Recogniser TypeExpr) (h : Trims type) :
    Consumes (typeSegment type) := by
  have hbounds : Trims (bounds type) :=
    ((consumes_keyword _).orElse (consumes_keyword _)).trims.bind fun _ => h.bind fun _ => .pure _
  have hargument : Trims (typeArgument type) :=
    ((consumes_token _ _).trims.bind fun _ => hbounds.optional.bind fun _ => .pure _).orElse h.map
  have harguments : Trims (typeArguments type) :=
    (consumes_token _ _).trims.bind fun _ => hargument.sepBy.bind fun _ =>
      (consumes_token _ _).trims.bind fun _ => .pure _
  exact consumes_identifier.bind fun _ => harguments.optional.bind fun _ => .pure _

theorem consumes_typeExpr : Consumes typeExpr :=
  .recursive fun type h =>
    (consumes_primitiveName.bind fun _ => trims_dims.bind fun _ => .pure _).orElse
      ((consumes_typeSegment type h).sepBy1.bind fun _ => trims_dims.bind fun _ => .pure _)

theorem trims_classType : Trims classType :=
  consumes_typeExpr.trims.check

theorem trims_clause (word : String) : Trims (clause word) :=
  ((consumes_keyword word).trims.bind fun _ => trims_classType.sepBy1).optional.bind fun _ => .pure _

/-! ### Members and declarations -/

theorem trims_formals : Trims formals := by
  have htyped : Trims typedFormal :=
    consumes_typeExpr.trims.bind fun _ => (consumes_token _ _).trims.optional.bind fun _ =>
      consumes_identifier.trims.bind fun _ => trims_dims.bind fun _ => .pure _
  have huntyped : Trims untypedFormal := consumes_identifier.trims.bind fun _ => .pure _
  have hformal : Trims formal := trims_modifiers.bind fun _ => htyped.orElse huntyped
  exact (consumes_token _ _).trims.bind fun _ => hformal.sepBy.bind fun _ =>
    (consumes_token _ _).trims.bind fun _ => .pure _

theorem trims_declarator : Trims declarator :=
  consumes_identifier.trims.bind fun _ => trims_dims.bind fun _ =>
    ((consumes_token _ _).trims.bind fun _ => (Trims.many _).bind fun _ => .pure _).optional.bind
      fun _ => .pure _

theorem consumes_field (ms : List Modifier) : Consumes (field ms) :=
  consumes_typeExpr.bind fun _ => trims_declarator.sepBy1.bind fun _ =>
    (consumes_token _ _).trims.bind fun _ => .pure _

theorem consumes_method (ms : List Modifier) : Consumes (method ms) :=
  .bind_right trims_typeParameters.optional fun _ =>
    (((consumes_keyword _).bind fun _ => .pure _).orElse consumes_typeExpr.map).bind fun _ =>
      consumes_identifier.trims.bind fun _ => trims_formals.bind fun _ => trims_dims.bind fun _ =>
        (trims_clause _).bind fun _ =>
          (consumes_block.orElse (consumes_token _ _)).trims.bind fun _ => .pure _

theorem consumes_constructor : Consumes constructor :=
  .bind_right trims_typeParameters.optional fun _ =>
    consumes_identifier.bind fun _ => trims_formals.bind fun _ => (trims_clause _).bind fun _ =>
      consumes_block.trims.bind fun _ => .pure _

section Nested

variable {nested : Recogniser Declaration}

theorem consumes_member (h : Consumes nested) : Consumes (member nested) :=
  ((consumes_token _ _).bind fun _ => .pure _).orElse ((h.bind fun _ => .pure _).orElse
    (.bind_right trims_modifiers fun ms => ((consumes_method ms).orElse ((consumes_field ms).orElse
      (consumes_constructor.orElse (consumes_block.bind fun _ => .pure _)))).bind fun _ => .pure _))

theorem trims_members (nested : Recogniser Declaration) : Trims (members nested) :=
  (Trims.many _).bind fun _ => .pure _

theorem trims_body (nested : Recogniser Declaration) : Trims (body nested) :=
  (consumes_token _ _).trims.bind fun _ => (trims_members nested).bind fun _ =>
    (consumes_token _ _).trims.bind fun _ => .pure _

theorem trims_constants : Trims constants := by
  have hconstant : Trims constant :=
    (Trims.many _).bind fun _ => consumes_identifier.trims.bind fun _ =>
      trims_argumentList.optional.bind fun _ => consumes_block.trims.optional.bind fun _ => .pure _
  refine hconstant.sepBy.bind fun names => ?_
  dsimp only
  split
  · exact (Trims.pure _).bind fun _ => .pure _
  · exact (consumes_token _ _).trims.optional.bind fun _ => .pure _

end Nested

/-- Each round of the grammar of declarations reads a word of its own. -/
theorem consumes_declaration : Consumes declaration := by
  refine .recursive fun nested _ => .bind_right trims_modifiers fun ms => ?_
  have hclass : Consumes (classDeclaration nested ms) :=
    (consumes_keyword _).bind fun _ => consumes_identifier.trims.bind fun _ =>
      trims_typeParameters.optional.bind fun _ =>
        ((consumes_keyword _).trims.bind fun _ => trims_classType).optional.bind fun _ =>
          (trims_clause _).bind fun _ => (trims_clause _).bind fun _ => (trims_body nested).bind
            fun _ => .pure _
  have hinterface : Consumes (interfaceDeclaration nested ms) :=
    (consumes_keyword _).bind fun _ => consumes_identifier.trims.bind fun _ =>
      trims_typeParameters.optional.bind fun _ => (trims_clause _).bind fun _ =>
        (trims_clause _).bind fun _ => (trims_body nested).bind fun _ => .pure _
  have henum : Consumes (enumDeclaration nested ms) :=
    (consumes_keyword _).bind fun _ => consumes_identifier.trims.bind fun _ =>
      (trims_clause _).bind fun _ => (consumes_token _ _).trims.bind fun _ =>
        trims_constants.bind fun _ =>
          ((consumes_token _ _).trims.bind fun _ => trims_members nested).optional.bind fun _ =>
            (consumes_token _ _).trims.bind fun _ => .pure _
  exact hclass.orElse (hinterface.orElse henum)

theorem consumes_topLevel : Consumes topLevel :=
  consumes_declaration.map.orElse ((consumes_token _ _).bind fun _ => .pure _)

/-! ### Declarations -/

section Declarations

variable {nested nested' : Recogniser Declaration}

theorem AgreesBelow.members (h : AgreesBelow n nested nested') :
    AgreesBelow n (members nested) (members nested') :=
  (AgreesBelow.many ((AgreesBelow.refl n _).orElse ((h.bind_left _).orElse (.refl n _)))).bind_left _

theorem AgreesBelow.body (h : AgreesBelow n nested nested') :
    AgreesBelow n (body nested) (body nested') :=
  .bind_right (consumes_token _ _).trims fun _ => h.members.bind_left _

/-- A declaration begins with a keyword, so the declarations inside are shorter. -/
theorem guarded_declarationStep : Guarded declarationStep := by
  intro n nested nested' h
  have hclass : ∀ ms, AgreesBelow (n + 1) (classDeclaration nested ms)
      (classDeclaration nested' ms) := fun ms =>
    .bind_consumes (consumes_keyword _) fun _ => .bind_right consumes_identifier.trims fun _ =>
      .bind_right trims_typeParameters.optional fun _ =>
        .bind_right ((consumes_keyword _).trims.bind fun _ => trims_classType).optional fun _ =>
          .bind_right (trims_clause _) fun _ => .bind_right (trims_clause _) fun _ =>
            h.body.bind_left _
  have hinterface : ∀ ms, AgreesBelow (n + 1) (interfaceDeclaration nested ms)
      (interfaceDeclaration nested' ms) := fun ms =>
    .bind_consumes (consumes_keyword _) fun _ => .bind_right consumes_identifier.trims fun _ =>
      .bind_right trims_typeParameters.optional fun _ => .bind_right (trims_clause _) fun _ =>
        .bind_right (trims_clause _) fun _ => h.body.bind_left _
  have henum : ∀ ms, AgreesBelow (n + 1) (enumDeclaration nested ms)
      (enumDeclaration nested' ms) := fun ms =>
    .bind_consumes (consumes_keyword _) fun _ => .bind_right consumes_identifier.trims fun _ =>
      .bind_right (trims_clause _) fun _ => .bind_right (consumes_token _ _).trims fun _ =>
        .bind_right trims_constants fun _ =>
          AgreesBelow.bind_left (AgreesBelow.optional
            (.bind_right (consumes_token _ _).trims fun _ => h.members)) _
  exact .bind_right trims_modifiers fun ms => (hclass ms).orElse ((hinterface ms).orElse (henum ms))

/-- A declaration is a round of the grammar with declarations inside. -/
theorem cut_declaration (s : List Char) :
    declaration.cut s = (declarationStep declaration).cut s :=
  cut_recursive guarded_declarationStep s

end Declarations

end ClassModel.Source
