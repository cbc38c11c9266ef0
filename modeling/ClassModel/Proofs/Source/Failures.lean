/-
Where a source file stops being readable.

A failure is recorded by the number of characters left where it occurred, and that number says
something about the text only if it is not greater than the text is long.  A part of the grammar
may be asked about any end of the text, a repetition and a choice keep failures from places they
have left, and a check reports where its part began.  None of them speaks of a place outside the
text it was given, and since what is left of a text is an end of it, no sequence does either.

A file is rejected only where its last declaration ends and something follows.  So a rejected file
always has a failure, and the place of the error is the place of that failure.
-/
import ClassModel.Source.Reader
import ClassModel.Proofs.Source.Positions
import ClassModel.Proofs.Source.Remainders

namespace ClassModel.Source

open Recogniser

variable {α β : Type} {p q : Recogniser α} {f : α → Recogniser β} {separator : Recogniser Unit}
  {s : List Char}

/-! ### Failures inside a text -/

/-- The failure, if there is one, lies in the last so many characters. -/
def Inside (n : Nat) (e : Option Failure) : Prop :=
  ∀ f, e = some f → f.remaining ≤ n

theorem Inside.mono {m n : Nat} {e : Option Failure} (h : Inside m e) (hmn : m ≤ n) :
    Inside n e :=
  fun f hf => Nat.le_trans (h f hf) hmn

theorem inside_none (n : Nat) : Inside n none :=
  fun _ h => nomatch h

/-- A kept failure is one of the two, or lies where both do. -/
theorem Inside.merge {n : Nat} {e e' : Option Failure} (h : Inside n e) (h' : Inside n e') :
    Inside n (Failure.merge e e') := by
  intro g hg
  cases e with
  | none => exact h' g hg
  | some f =>
      cases e' with
      | none => exact h g hg
      | some f' =>
          have hf := h f rfl
          simp only [Failure.merge] at hg
          split at hg
          · cases hg
            exact hf
          · split at hg
            · exact h' g hg
            · cases hg
              exact hf

/-- A recogniser speaks of no place outside the text: it leaves no more than it was given, and
its failures lie inside. -/
structure Stays (p : Recogniser α) : Prop where
  trims : Trims p
  inside : ∀ s, Inside s.length (p (Input.ofChars s)).failure

theorem Stays.inside_of_eq (hp : Stays p) {r : Reply α} (h : p (Input.ofChars s) = r) :
    Inside s.length r.failure := by
  rw [← h]
  exact hp.inside s

theorem inside_fail (fault : Option SyntaxFault) (s : List Char) :
    Inside s.length (fail (α := α) fault (Input.ofChars s)).failure := by
  intro g hg
  cases hg
  exact Nat.le_refl _

/-- The text behind a part that was read, and that it is no longer than the text before. -/
theorem exists_ofChars {a : α} {e : Option Failure} {j : Input} (hp : Trims p)
    (h : p (Input.ofChars s) = ⟨e, some (a, j)⟩) :
    ∃ r, j = Input.ofChars r ∧ r.length ≤ s.length := by
  refine ⟨j.chars, (Input.ofChars_chars j).symm, hp (a := a) (outcome_eq_some_iff.mp ?_)⟩
  rw [h, Input.ofChars_chars]

namespace Stays

theorem pure (a : α) : Stays (pure a) where
  trims := Trims.pure a
  inside := fun _ => inside_none _

theorem bind (hp : Stays p) (hf : ∀ a, Stays (f a)) : Stays (p >>= f) where
  trims := hp.trims.bind fun a => (hf a).trims
  inside := by
    intro s
    rw [bind_apply]
    rcases h : p (Input.ofChars s) with ⟨e, _ | ⟨a, j⟩⟩
    · exact hp.inside_of_eq h
    · obtain ⟨r, rfl, hr⟩ := exists_ofChars hp.trims h
      exact (hp.inside_of_eq h).merge (((hf a).inside r).mono hr)

theorem orElse (hp : Stays p) (hq : Stays q) : Stays (p <|> q) where
  trims := hp.trims.orElse hq.trims
  inside := by
    intro s
    show Inside s.length (Recogniser.orElse p (fun _ => q) (Input.ofChars s)).failure
    unfold Recogniser.orElse
    rcases h : p (Input.ofChars s) with ⟨e, _ | x⟩
    · exact (hp.inside_of_eq h).merge (hq.inside s)
    · exact hp.inside_of_eq h

theorem map {g : α → β} (hp : Stays p) : Stays (g <$> p) := by
  rw [map_eq_pure_bind]
  exact hp.bind fun _ => pure _

theorem optional (hp : Stays p) : Stays (optional p) where
  trims := hp.trims.optional
  inside := by
    intro s
    unfold Recogniser.optional
    rcases h : p (Input.ofChars s) with ⟨e, _ | x⟩ <;> exact hp.inside_of_eq h

/-- The rounds of a repetition are given ever shorter texts. -/
theorem many (hp : Stays p) : Stays (many p) where
  trims := Trims.many p
  inside := by
    intro s
    induction hlen : s.length using Nat.strongRecOn generalizing s with
    | ind n ih =>
        subst hlen
        rw [Recogniser.many]
        rcases h : p (Input.ofChars s) with ⟨e, _ | ⟨a, j⟩⟩
        · exact hp.inside_of_eq h
        · obtain ⟨r, rfl, -⟩ := exists_ofChars hp.trims h
          dsimp only
          split
          · rename_i hlt
            exact (hp.inside_of_eq h).merge ((ih r.length hlt r rfl).mono (Nat.le_of_lt hlt))
          · exact hp.inside_of_eq h

theorem satisfy (c : Char → Bool) : Stays (satisfy c) where
  trims := (Consumes.satisfy c).trims
  inside := by
    intro s
    cases s with
    | nil => exact inside_fail (α := Char) none []
    | cons d r =>
        unfold Recogniser.satisfy
        rw [Input.next?_cons]
        cases hd : c d with
        | true => simpa [hd] using inside_none _
        | false => simpa [hd] using inside_fail (α := Char) none (d :: r)

theorem run (c : Char → Bool) : Stays (run c) where
  trims := Trims.run c
  inside := by
    intro s g hg
    cases hg
    exact Nat.sub_le _ _

theorem literal (w : List Char) : Stays (literal w) := by
  induction w with
  | nil => exact pure ()
  | cons c w ih => exact (satisfy _).bind fun _ => ih

theorem done : Stays done where
  trims := by
    intro s a r h
    cases s with
    | nil =>
        cases h
        exact Nat.le_refl _
    | cons c t => cases h
  inside := by
    intro s
    cases s with
    | nil => exact inside_none _
    | cons c r => exact inside_fail (α := Unit) none (c :: r)

theorem notFollowedBy (p : Recogniser α) : Stays (notFollowedBy p) where
  trims := Trims.notFollowedBy p
  inside := by
    intro s
    unfold Recogniser.notFollowedBy
    cases (p (Input.ofChars s)).outcome with
    | none => exact inside_none _
    | some x => exact inside_fail (α := Unit) none s

/-- A check that fails forgets what is inside its part and speaks of the beginning. -/
theorem check {g : α → Except (Option SyntaxFault) β} (hp : Stays p) : Stays (check p g) where
  trims := hp.trims.check
  inside := by
    intro s
    unfold Recogniser.check
    rcases h : p (Input.ofChars s) with ⟨e, _ | ⟨a, j⟩⟩
    · exact hp.inside_of_eq h
    · cases hg : g a with
      | ok b => simpa [hg] using hp.inside_of_eq h
      | error fault => simpa [hg] using inside_fail (α := β) fault s

theorem sepBy1 (hp : Stays p) (hs : Stays separator) : Stays (sepBy1 p separator) :=
  hp.bind fun _ => (hs.bind fun _ => hp).many.bind fun _ => pure _

theorem sepBy (hp : Stays p) (hs : Stays separator) : Stays (sepBy p separator) :=
  (hp.sepBy1 hs).optional.bind fun _ => pure _

theorem recursive {step : Recogniser α → Recogniser α} (h : ∀ p, Stays p → Stays (step p)) :
    Stays (recursive step) := by
  have hunroll : ∀ n, Stays (unroll step n) := by
    intro n
    induction n with
    | zero => exact ⟨fun _ _ _ hcut => (nomatch hcut), fun _ => inside_none _⟩
    | succ n ih => exact h _ ih
  exact ⟨fun s _ _ hcut => (hunroll (s.length + 1)).trims hcut, fun s =>
    (hunroll (s.length + 1)).inside s⟩

end Stays

/-! ### Words, symbols and groups -/

theorem stays_comments : Stays lineComment ∧ Stays blockComment :=
  ⟨(Stays.literal _).bind fun _ => (Stays.run _).bind fun _ => .pure _,
    (Stays.literal _).bind fun _ =>
      ((Stays.notFollowedBy _).bind fun _ => .satisfy _).many.bind fun _ => .literal _⟩

theorem stays_trivia : Stays trivia :=
  (((Stays.satisfy _).bind fun _ => .pure _).orElse
    (stays_comments.1.orElse stays_comments.2)).many.bind fun _ => .pure _

theorem stays_token (symbol : List Char) : Stays (token symbol) :=
  (Stays.literal _).bind fun _ => stays_trivia

theorem stays_rawIdentifier : Stays rawIdentifier :=
  (Stays.satisfy _).bind fun _ => (Stays.run _).bind fun _ => .pure _

theorem stays_keyword (word : String) : Stays (keyword word) :=
  stays_rawIdentifier.check.bind fun _ => stays_trivia

theorem stays_identifier : Stays identifier :=
  stays_rawIdentifier.check.bind fun _ => stays_trivia.bind fun _ => .pure _

theorem stays_quotedLiteral (quote : Char) : Stays (quotedLiteral quote) := by
  have hitem : Stays (literalItem quote) :=
    ((Stays.satisfy _).bind fun _ => .pure _).orElse
      ((Stays.satisfy _).bind fun _ => (Stays.satisfy _).bind fun _ => .pure _)
  exact (Stays.satisfy _).bind fun _ => hitem.many.bind fun _ => (Stays.satisfy _).bind fun _ =>
    .pure _

theorem stays_balanced (opening closing : Char) : Stays (balanced opening closing) := by
  have hslash : Stays slash :=
    (Stays.notFollowedBy _).bind fun _ => (Stays.notFollowedBy _).bind fun _ =>
      (Stays.satisfy _).bind fun _ => .pure _
  have hplain : Stays (plainCharacter opening closing) := (Stays.satisfy _).bind fun _ => .pure _
  refine .recursive fun nested hnested => ?_
  have hitem : Stays (groupItem opening closing nested) :=
    hnested.orElse ((stays_quotedLiteral _).orElse ((stays_quotedLiteral _).orElse
      (stays_comments.1.orElse (stays_comments.2.orElse (hslash.orElse hplain)))))
  exact (Stays.satisfy _).bind fun _ => hitem.many.bind fun _ => (Stays.satisfy _).bind fun _ =>
    .pure _

theorem stays_angleGroup : Stays angleGroup :=
  .recursive fun _ hnested => (Stays.satisfy _).bind fun _ =>
    (hnested.orElse ((Stays.satisfy _).bind fun _ => .pure _)).many.bind fun _ =>
      (Stays.satisfy _).bind fun _ => .pure _

theorem stays_block : Stays block :=
  (stays_balanced _ _).bind fun _ => stays_trivia

theorem stays_argumentList : Stays argumentList :=
  (stays_balanced _ _).bind fun _ => stays_trivia

theorem stays_typeParameters : Stays typeParameters :=
  stays_angleGroup.bind fun _ => stays_trivia

theorem stays_initialValue : Stays initialValue := by
  have hitem : Stays initialItem :=
    (stays_balanced _ _).orElse ((stays_balanced _ _).orElse ((stays_balanced _ _).orElse
      (stays_angleGroup.orElse ((stays_quotedLiteral _).orElse ((stays_quotedLiteral _).orElse
        (stays_comments.1.orElse (stays_comments.2.orElse
          ((Stays.satisfy _).bind fun _ => .pure _))))))))
  exact hitem.many.bind fun _ => .pure _

/-! ### Modifiers and types -/

theorem stays_annotated : Stays annotation :=
  (Stays.satisfy _).bind fun _ => stays_trivia.bind fun _ =>
    (stays_identifier.sepBy1 (stays_token _)).bind fun _ => stays_argumentList.optional.bind
      fun _ => .pure _

theorem stays_modifiers : Stays modifiers := by
  have hmodifier : Stays modifier :=
    (((Stays.literal _).bind fun _ => .pure _).orElse stays_rawIdentifier.check).bind fun _ =>
      stays_trivia.bind fun _ => .pure _
  exact ((stays_annotated.bind fun _ => .pure _).orElse hmodifier.map).many.bind fun _ => .pure _

theorem stays_dims : Stays dims :=
  ((stays_token _).bind fun _ => stays_token _).many.bind fun _ => .pure _

theorem stays_typeExpr : Stays typeExpr := by
  have hprimitive : Stays primitiveName :=
    stays_rawIdentifier.check.bind fun _ => stays_trivia.bind fun _ => .pure _
  refine .recursive fun type htype => ?_
  have hbounds : Stays (bounds type) :=
    ((stays_keyword _).orElse (stays_keyword _)).bind fun _ => htype.bind fun _ => .pure _
  have hargument : Stays (typeArgument type) :=
    ((stays_token _).bind fun _ => hbounds.optional.bind fun _ => .pure _).orElse htype.map
  have harguments : Stays (typeArguments type) :=
    (stays_token _).bind fun _ => (hargument.sepBy (stays_token _)).bind fun _ =>
      (stays_token _).bind fun _ => .pure _
  have hsegment : Stays (typeSegment type) :=
    stays_identifier.bind fun _ => harguments.optional.bind fun _ => .pure _
  exact (hprimitive.bind fun _ => stays_dims.bind fun _ => .pure _).orElse
    ((hsegment.sepBy1 (stays_token _)).bind fun _ => stays_dims.bind fun _ => .pure _)

theorem stays_classType : Stays classType :=
  stays_typeExpr.check

theorem stays_clause (word : String) : Stays (clause word) :=
  ((stays_keyword word).bind fun _ => stays_classType.sepBy1 (stays_token _)).optional.bind
    fun _ => .pure _

/-! ### Members and declarations -/

theorem stays_formals : Stays formals := by
  have htyped : Stays typedFormal :=
    stays_typeExpr.bind fun _ => (stays_token _).optional.bind fun _ => stays_identifier.bind
      fun _ => stays_dims.bind fun _ => .pure _
  have huntyped : Stays untypedFormal := stays_identifier.bind fun _ => .pure _
  have hformal : Stays formal := stays_modifiers.bind fun _ => htyped.orElse huntyped
  exact (stays_token _).bind fun _ => (hformal.sepBy (stays_token _)).bind fun _ =>
    (stays_token _).bind fun _ => .pure _

theorem stays_field (ms : List Modifier) : Stays (field ms) := by
  have hdeclarator : Stays declarator :=
    stays_identifier.bind fun _ => stays_dims.bind fun _ =>
      ((stays_token _).bind fun _ => stays_initialValue).optional.bind fun _ => .pure _
  exact stays_typeExpr.bind fun _ => (hdeclarator.sepBy1 (stays_token _)).bind fun _ =>
    (stays_token _).bind fun _ => .pure _

theorem stays_method (ms : List Modifier) : Stays (method ms) :=
  stays_typeParameters.optional.bind fun _ =>
    (((stays_keyword _).bind fun _ => .pure _).orElse stays_typeExpr.map).bind fun _ =>
      stays_identifier.bind fun _ => stays_formals.bind fun _ => stays_dims.bind fun _ =>
        (stays_clause _).bind fun _ => (stays_block.orElse (stays_token _)).bind fun _ => .pure _

theorem stays_constructor : Stays constructor :=
  stays_typeParameters.optional.bind fun _ => stays_identifier.bind fun _ =>
    stays_formals.bind fun _ => (stays_clause _).bind fun _ => stays_block.bind fun _ => .pure _

section Nested

variable {nested : Recogniser Declaration}

theorem stays_members (h : Stays nested) : Stays (members nested) := by
  have hmember : Stays (member nested) :=
    ((stays_token _).bind fun _ => .pure _).orElse ((h.bind fun _ => .pure _).orElse
      (stays_modifiers.bind fun ms => ((stays_method ms).orElse ((stays_field ms).orElse
        (stays_constructor.orElse (stays_block.bind fun _ => .pure _)))).bind fun _ => .pure _))
  exact hmember.many.bind fun _ => .pure _

theorem stays_body (h : Stays nested) : Stays (body nested) :=
  (stays_token _).bind fun _ => (stays_members h).bind fun _ => (stays_token _).bind fun _ =>
    .pure _

theorem stays_constants : Stays constants := by
  have hconstant : Stays constant :=
    stays_annotated.many.bind fun _ => stays_identifier.bind fun _ =>
      stays_argumentList.optional.bind fun _ => stays_block.optional.bind fun _ => .pure _
  refine (hconstant.sepBy (stays_token _)).bind fun names => ?_
  dsimp only
  split
  · exact (Stays.pure _).bind fun _ => .pure _
  · exact (stays_token _).optional.bind fun _ => .pure _

end Nested

theorem stays_declaration : Stays declaration := by
  refine .recursive fun nested hnested => stays_modifiers.bind fun ms => ?_
  have hclass : Stays (classDeclaration nested ms) :=
    (stays_keyword _).bind fun _ => stays_identifier.bind fun _ =>
      stays_typeParameters.optional.bind fun _ =>
        ((stays_keyword _).bind fun _ => stays_classType).optional.bind fun _ =>
          (stays_clause _).bind fun _ => (stays_clause _).bind fun _ =>
            (stays_body hnested).bind fun _ => .pure _
  have hinterface : Stays (interfaceDeclaration nested ms) :=
    (stays_keyword _).bind fun _ => stays_identifier.bind fun _ =>
      stays_typeParameters.optional.bind fun _ => (stays_clause _).bind fun _ =>
        (stays_clause _).bind fun _ => (stays_body hnested).bind fun _ => .pure _
  have henum : Stays (enumDeclaration nested ms) :=
    (stays_keyword _).bind fun _ => stays_identifier.bind fun _ => (stays_clause _).bind fun _ =>
      (stays_token _).bind fun _ => stays_constants.bind fun _ =>
        ((stays_token _).bind fun _ => stays_members hnested).optional.bind fun _ =>
          (stays_token _).bind fun _ => .pure _
  exact hclass.orElse (hinterface.orElse henum)

theorem stays_importPath : Stays importPath :=
  (stays_keyword _).bind fun _ => (Stays.run _).bind fun _ => (stays_token _).bind fun _ => .pure _

/-- **Reading a file, no failure lies outside its text.** -/
theorem stays_compilationUnit : Stays compilationUnit := by
  have hpackage : Stays package :=
    stays_annotated.many.bind fun _ => (stays_keyword _).bind fun _ =>
      (stays_identifier.sepBy1 (stays_token _)).bind fun _ => (stays_token _).bind fun _ => .pure _
  have htopLevel : Stays topLevel :=
    stays_declaration.map.orElse ((stays_token _).bind fun _ => .pure _)
  exact stays_trivia.bind fun _ => hpackage.optional.bind fun _ => stays_importPath.many.bind
    fun _ => htopLevel.many.bind fun _ => Stays.done.bind fun _ => .pure _

/-! ### Rejected files -/

/-- A recogniser rejects no text. -/
def Accepts (p : Recogniser α) : Prop :=
  ∀ s, (p (Input.ofChars s)).outcome ≠ none

/-- A recogniser rejects no text without a failure. -/
def Explains (p : Recogniser α) : Prop :=
  ∀ s, (p (Input.ofChars s)).outcome = none → (p (Input.ofChars s)).failure ≠ none

theorem Accepts.explains (hp : Accepts p) : Explains p :=
  fun s h => absurd h (hp s)

theorem accepts_optional (p : Recogniser α) : Accepts (optional p) := by
  intro s
  unfold Recogniser.optional
  rcases p (Input.ofChars s) with ⟨e, _ | x⟩ <;> exact Option.some_ne_none _

/-- A repetition ends without being rejected if its rounds consume something. -/
theorem Consumes.accepts_many (hp : Consumes p) : Accepts (many p) := by
  intro s
  refine mt outcome_eq_none_iff.mp ?_
  induction hlen : s.length using Nat.strongRecOn generalizing s with
  | ind n ih =>
      subst hlen
      cases hcut : p.cut s with
      | none =>
          rw [cut_many_of_none hcut]
          exact Option.some_ne_none _
      | some x =>
          rw [hp.cut_many hcut, Option.map_eq_none_iff]
          exact ih _ (hp hcut) x.2 rfl

theorem merge_ne_none {e e' : Option Failure} (h : e' ≠ none) : Failure.merge e e' ≠ none := by
  cases e with
  | none => exact h
  | some f =>
      cases e' with
      | none => exact absurd rfl h
      | some f' =>
          simp only [Failure.merge]
          split
          · exact Option.some_ne_none _
          · split <;> exact Option.some_ne_none _

theorem Explains.bind (hp : Explains p) (hf : ∀ a, Explains (f a)) : Explains (p >>= f) := by
  intro s
  have hfirst := hp s
  rw [bind_apply]
  rcases h : p (Input.ofChars s) with ⟨e, _ | ⟨a, j⟩⟩
  · rw [h] at hfirst
    exact fun _ => hfirst rfl
  · intro hnone
    rw [← Input.ofChars_chars j] at hnone ⊢
    exact merge_ne_none (hf a _ hnone)

/-- No file is rejected without a failure.  Every part of a file may be missing but its end, so a
file that is rejected goes on where it should end. -/
theorem explains_compilationUnit : Explains compilationUnit := by
  have htrivia : Consumes triviaItem :=
    ((Consumes.satisfy _).bind fun _ => .pure _).orElse
      (consumes_lineComment.orElse consumes_blockComment)
  have himport : Consumes importPath :=
    (consumes_keyword _).bind fun _ => (Trims.run _).bind fun _ => (consumes_token _ _).trims.bind
      fun _ => .pure _
  have hpure : ∀ {γ : Type} (c : γ), Explains (pure c : Recogniser γ) := fun _ _ h => nomatch h
  have hdone : Explains done := by
    intro s h
    cases s with
    | nil => cases h
    | cons c r => exact Option.some_ne_none _
  exact (htrivia.accepts_many.explains.bind fun _ => hpure _).bind fun _ =>
    (accepts_optional _).explains.bind fun _ => himport.accepts_many.explains.bind fun _ =>
      consumes_topLevel.accepts_many.explains.bind fun _ => hdone.bind fun _ => hpure _

/-- The error of a rejected file is the failure that is kept. -/
theorem exists_failure_of_error {text : String} {e : SyntaxError}
    (h : CompilationUnit.read text = .error e) :
    ∃ f, (compilationUnit (Input.ofChars text.toList)).failure = some f ∧
      e = ⟨f.fault, Position.ofOffset text.toList (text.toList.length - f.remaining)⟩ := by
  have hexplains := explains_compilationUnit text.toList
  unfold CompilationUnit.read at h
  dsimp only at h
  cases ho : (compilationUnit (Input.ofChars text.toList)).outcome with
  | some x =>
      rw [ho] at h
      cases h
  | none =>
      rw [ho] at h
      obtain ⟨f, hf⟩ := Option.ne_none_iff_exists'.mp (hexplains ho)
      refine ⟨f, hf, ?_⟩
      rw [hf] at h
      cases h
      rfl

section Places

open Position

/-- **The place of an error lies in the text and is the place of one offset only.**  The place is
that of the failure that is kept, which lies in the text.  Skipping the lines and columns of a
place leads to the offset that it was made of, so places are ordered as offsets are, and it makes
no difference whether offsets count characters or bytes. -/
theorem errors_in_place (text : String) :
    (∀ e, CompilationUnit.read text = .error e →
      ∃ f, (compilationUnit (Input.ofChars text.toList)).failure = some f ∧
        f.remaining ≤ text.toList.length ∧
        e.position = ofOffset text.toList (text.toList.length - f.remaining) ∧
        e.position.Within text.toList) ∧
      (∀ o ≤ text.toList.length, offset text.toList (ofOffset text.toList o) = o ∧
        ofByteOffset text.toList (byteCount (text.toList.take o)) = ofOffset text.toList o) ∧
      (∀ o o', o < o' → o' ≤ text.toList.length →
        Before (ofOffset text.toList o) (ofOffset text.toList o')) ∧
      ∀ o o', o ≤ text.toList.length → o' ≤ text.toList.length →
        ofOffset text.toList o = ofOffset text.toList o' → o = o' := by
  refine ⟨fun e he => ?_, fun o ho => ⟨offset_ofOffset ho, ofByteOffset_byteCount _ o⟩,
    fun o o' h h' => before_ofOffset h h', fun o o' ho ho' heq => ?_⟩
  · obtain ⟨f, hf, rfl⟩ := exists_failure_of_error he
    exact ⟨f, hf, stays_compilationUnit.inside _ f hf, rfl, within_ofOffset _ _⟩
  · rw [← offset_ofOffset ho, heq, offset_ofOffset ho']

end Places

/-- A field that a brace ends. -/
def brokenText : String :=
  "public class Broken \x7b\n  int x \x7d"

theorem errors_in_place_brokenText :
    ∃ e, CompilationUnit.read brokenText = .error e ∧ e.position = ⟨2, 9⟩ ∧
      e.position.Within brokenText.toList ∧ Position.offset brokenText.toList e.position = 30 := by
  have hrejected : (CompilationUnit.read brokenText).isOk = false := by decide +kernel
  have hremaining : (compilationUnit (Input.ofChars brokenText.toList)).failure.map
      Failure.remaining = some 1 := by decide +kernel
  obtain ⟨hplaces, hback, -⟩ := errors_in_place brokenText
  cases hread : CompilationUnit.read brokenText with
  | ok u =>
      rw [hread] at hrejected
      cases hrejected
  | error e =>
      obtain ⟨f, hf, -, hposition, hwithin⟩ := hplaces e hread
      rw [hf] at hremaining
      have hplace : e.position = Position.ofOffset brokenText.toList 30 := by
        rw [hposition, Option.some.inj hremaining]
        rfl
      refine ⟨e, rfl, hplace, hwithin, ?_⟩
      rw [hplace]
      exact (hback 30 (by decide)).1

end ClassModel.Source
