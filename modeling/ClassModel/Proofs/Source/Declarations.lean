/-
Reading declarations.

Members and declarations contain each other, and the grammar refers to itself through the
declarations inside a type.  As with types, a round is followed under the assumption that
declarations of fewer tokens are read, and there are more rounds than tokens.

A member is first tried as a declaration.  That fails behind its modifiers, where a
declaration would say what kind of type it declares.
-/
import ClassModel.Proofs.Source.Members

namespace ClassModel.Source

open Recogniser

variable {us : List Token}

/-! ### The tokens of a declaration -/

/-- The tokens of the clause that names a superclass. -/
def superclassTokens : Option ClassType → List Token
  | none => []
  | some t => .word "extends" :: classTypeTokens t

/-- The tokens of the constants of an enum. -/
def constantsTokens (names : List String) : List Token :=
  separated [','] (fun name => [.word name]) names

mutual

/-- The tokens of a declaration. -/
def Declaration.tokens : Declaration → List Token
  | .ofClass ms name superclass interfaces members =>
      ms.map Modifier.token ++ (.word "class" :: .word name :: (superclassTokens superclass ++
        (clauseTokens "implements" interfaces ++
          (.symbol ['\x7b'] :: (membersTokens members ++ [.symbol ['\x7d']])))))
  | .ofInterface ms name parents members =>
      ms.map Modifier.token ++ (.word "interface" :: .word name ::
        (clauseTokens "extends" parents ++
          (.symbol ['\x7b'] :: (membersTokens members ++ [.symbol ['\x7d']]))))
  | .ofEnum ms name interfaces constants members =>
      ms.map Modifier.token ++ (.word "enum" :: .word name ::
        (clauseTokens "implements" interfaces ++
          (.symbol ['\x7b'] :: (constantsTokens constants ++
            (enumMembersTokens members ++ [.symbol ['\x7d']])))))

/-- The tokens of a member. -/
def Member.tokens : Member → List Token
  | .field f => f.modifiers.map Modifier.token ++ f.rest
  | .method p => p.modifiers.map Modifier.token ++ p.rest
  | .constructor name => constructorTokens name
  | .block => [.block]
  | .type d => d.tokens

/-- The tokens of the members of a type. -/
def membersTokens : List Member → List Token
  | [] => []
  | m :: r => m.tokens ++ membersTokens r

/-- The tokens of the members of an enum, which are set apart from its constants. -/
def enumMembersTokens : List Member → List Token
  | [] => []
  | m :: r => .symbol [';'] :: (m.tokens ++ membersTokens r)

end

theorem membersTokens_eq (members : List Member) :
    membersTokens members = members.flatMap Member.tokens := by
  induction members with
  | nil => rw [membersTokens, List.flatMap_nil]
  | cons m r ih => rw [membersTokens, List.flatMap_cons, ih]

theorem Declaration.tokens_ne_nil (d : Declaration) : d.tokens ≠ [] := by
  cases d <;> simp [Declaration.tokens]

theorem Member.tokens_ne_nil (m : Member) : m.tokens ≠ [] := by
  cases m with
  | field f => simp [Member.tokens, Field.rest]
  | method p => simp [Member.tokens, Procedure.rest]
  | constructor name => simp [Member.tokens, constructorTokens]
  | block => simp [Member.tokens]
  | type d =>
      rw [Member.tokens]
      exact d.tokens_ne_nil

/-! ### Proper declarations -/

mutual

/-- A declaration of names. -/
def Declaration.Proper : Declaration → Prop
  | .ofClass _ name superclass interfaces members =>
      IsName name ∧ (∀ t ∈ superclass, ProperClass t) ∧ (∀ t ∈ interfaces, ProperClass t) ∧
        properMembers members
  | .ofInterface _ name parents members =>
      IsName name ∧ (∀ t ∈ parents, ProperClass t) ∧ properMembers members
  | .ofEnum _ name interfaces constants members =>
      IsName name ∧ (∀ t ∈ interfaces, ProperClass t) ∧ (∀ c ∈ constants, IsName c) ∧
        properMembers members

/-- A member of names. -/
def Member.Proper : Member → Prop
  | .field f => f.Proper
  | .method p => p.Proper
  | .constructor name => IsName name
  | .block => True
  | .type d => d.Proper

/-- Members of names. -/
def properMembers : List Member → Prop
  | [] => True
  | m :: r => m.Proper ∧ properMembers r

end

theorem properMembers_iff {members : List Member} :
    properMembers members ↔ ∀ m ∈ members, m.Proper := by
  induction members with
  | nil => simp [properMembers]
  | cons m r ih => simp [properMembers, ih]

/-! ### Where no declaration is -/

/-- A token that is no modifier and does not say what is declared. -/
structure Token.Undeclared (t : Token) : Prop where
  noModifier : t.NoModifier
  noClass : t.IsNot "class"
  noInterface : t.IsNot "interface"
  noEnum : t.IsNot "enum"

theorem Wordless.undeclared (h : Wordless us) : Heads Token.Undeclared us := by
  intro t ht
  obtain ⟨htight, hnone⟩ := Token.word?_eq_none (h t ht)
  refine ⟨h.noModifier t ht, ⟨htight, ?_⟩, ⟨htight, ?_⟩, ⟨htight, ?_⟩⟩ <;> simp [hnone]

theorem undeclared_typeWord {w : String} (h : w = "void" ∨ IsTypeWord w) :
    (Token.word w).Undeclared := by
  have hne : ∀ v ∈ ["class", "interface", "enum"], (Token.word w).IsNot v := by
    intro v hv
    refine ⟨rfl, fun he => ?_⟩
    obtain rfl : w = v := Option.some.inj he
    have hall : ∀ u ∈ ["class", "interface", "enum"], u ∈ reservedWords ∧ u ∉ primitiveNames ∧
        u ≠ "void" := by decide
    obtain ⟨hreserved, hprimitive, hvoid⟩ := hall w hv
    rcases h with h | h
    · exact hvoid h
    · exact h.ne hreserved hprimitive rfl
  have hmodifier : Modifier.ofKeyword? w = none := by
    rcases h with rfl | h
    · decide
    · exact h.not_modifier
  exact ⟨noModifier_word hmodifier, hne _ (by simp), hne _ (by simp), hne _ (by simp)⟩

theorem undeclared_field {f : Field} (hf : f.Proper) : Heads Token.Undeclared (f.rest ++ us) := by
  obtain ⟨w, r, he, hw⟩ := hf.type.exists_cons
  rw [Field.rest, he, List.cons_append, List.cons_append, heads_cons]
  exact undeclared_typeWord (Or.inr hw)

theorem undeclared_method {p : Procedure} (hp : p.Proper) :
    Heads Token.Undeclared (p.rest ++ us) := by
  obtain ⟨w, r, he, hw⟩ := exists_result_cons hp.result
  rw [Procedure.rest, he, List.cons_append, List.cons_append, heads_cons]
  exact undeclared_typeWord hw

theorem undeclared_constructor {name : String} (hname : IsName name) :
    Heads Token.Undeclared (constructorTokens name ++ us) :=
  heads_cons.mpr (undeclared_typeWord (Or.inr (Or.inr hname)))

/-! ### Reading a round -/

/-- Declarations of at most so many tokens are read, and nothing else is read as one. -/
structure ReadsDeclarations (nested : Recogniser Declaration) (k : Nat) : Prop where
  reads : ∀ d us, d.Proper → d.tokens.length ≤ k → Reads nested (d.tokens ++ us) d us
  fails : ∀ (ms : List Modifier) us, Heads Token.Undeclared us → Fails nested (ms.map Modifier.token ++ us)

section Rounds

variable {nested : Recogniser Declaration} {k : Nat}

theorem mayBegin_semicolon_modifiers (ms : List Modifier)
    (h : Heads (fun t => t.mayBegin ';' = false) us) :
    Heads (fun t => t.mayBegin ';' = false) (ms.map Modifier.token ++ us) := by
  cases ms with
  | nil => exact h
  | cons m r =>
      have hno : isIdentifierStart ';' = false := by decide
      rw [List.map_cons, List.cons_append, heads_cons]
      cases m <;> exact hno

/-- What comes of a member behind its modifiers. -/
def kinds (ms : List Modifier) : Recogniser Member :=
  method ms <|> field ms <|> constructor <|> block >>= fun _ => pure .block

/-- A member that is no declaration is read behind its modifiers. -/
theorem reads_member_of_kinds (h : ReadsDeclarations nested k) (ms : List Modifier) {m : Member}
    {ts : List Token} (hsemicolon : Heads (fun t => t.mayBegin ';' = false) ts)
    (hundeclared : Heads Token.Undeclared ts) (hread : Reads (kinds ms) ts m us) :
    Reads (member nested) (ms.map Modifier.token ++ ts) (some m) us := by
  have hstray : Fails (token [';']) (ms.map Modifier.token ++ ts) :=
    fails_token (mayBegin_semicolon_modifiers ms hsemicolon)
  have hmodifiers : Reads modifiers (ms.map Modifier.token ++ ts) ms ts :=
    reads_modifiers ms fun t ht => (hundeclared t ht).noModifier
  exact Fails.orElse_reads hstray.bind (Fails.orElse_reads (h.fails ms ts hundeclared).bind
    (hmodifiers.bind (hread.bind (.pure _ _))))

theorem noSemicolon_word (w : String) : (Token.word w).mayBegin ';' = false := by
  show isIdentifierStart ';' = false
  decide

/-- A member in front of anything. -/
theorem reads_member (h : ReadsDeclarations nested k) {m : Member} (hm : m.Proper)
    (hlen : m.tokens.length ≤ k) : Reads (member nested) (m.tokens ++ us) (some m) us := by
  cases m with
  | field f =>
      rw [Member.Proper] at hm
      obtain ⟨w, r, he, hw⟩ := hm.type.exists_cons
      have hfirst : Heads (fun t => t.mayBegin ';' = false) (f.rest ++ us) := by
        rw [Field.rest, he]
        exact heads_cons.mpr (noSemicolon_word w)
      have hkinds : Reads (kinds f.modifiers) (f.rest ++ us) (.field f) us :=
        Fails.orElse_reads (fails_method_field _ hm) (Reads.orElse (reads_field _ rfl hm))
      rw [Member.tokens, List.append_assoc]
      exact reads_member_of_kinds h _ hfirst (undeclared_field hm) hkinds
  | method p =>
      rw [Member.Proper] at hm
      obtain ⟨w, r, he, hw⟩ := exists_result_cons hm.result
      have hfirst : Heads (fun t => t.mayBegin ';' = false) (p.rest ++ us) := by
        rw [Procedure.rest, he]
        exact heads_cons.mpr (noSemicolon_word w)
      have hkinds : Reads (kinds p.modifiers) (p.rest ++ us) (.method p) us :=
        Reads.orElse (reads_method _ rfl hm)
      rw [Member.tokens, List.append_assoc]
      exact reads_member_of_kinds h _ hfirst (undeclared_method hm) hkinds
  | constructor name =>
      rw [Member.Proper] at hm
      have hfirst : Heads (fun t => t.mayBegin ';' = false) (constructorTokens name ++ us) :=
        heads_cons.mpr (noSemicolon_word name)
      obtain ⟨hmethod, hfield⟩ := fails_constructor us [] hm
      have hkinds : Reads (kinds []) (constructorTokens name ++ us) (.constructor name) us :=
        Fails.orElse_reads hmethod (Fails.orElse_reads hfield (Reads.orElse (reads_constructor hm)))
      rw [Member.tokens]
      exact reads_member_of_kinds h [] hfirst (undeclared_constructor hm) hkinds
  | block =>
      have hwordless : Wordless (.block :: us) := heads_cons.mpr rfl
      obtain ⟨hmethod, hfield, hconstructor⟩ := fails_kinds [] hwordless (heads_cons.mpr rfl)
      have hkinds : Reads (kinds []) (.block :: us) .block us :=
        Fails.orElse_reads hmethod (Fails.orElse_reads hfield (Fails.orElse_reads hconstructor
          ((reads_block us).bind (.pure _ _))))
      rw [Member.tokens]
      exact reads_member_of_kinds h [] (heads_cons.mpr rfl) hwordless.undeclared hkinds
  | type d =>
      rw [Member.Proper] at hm
      rw [Member.tokens] at hlen ⊢
      have hfirst : Heads (fun t => t.mayBegin ';' = false) (d.tokens ++ us) := by
        cases d <;>
          (rw [Declaration.tokens, List.append_assoc]
           exact mayBegin_semicolon_modifiers _ (heads_cons.mpr (noSemicolon_word _)))
      exact Fails.orElse_reads (Fails.bind (fails_token hfirst))
        (Reads.orElse ((h.reads d us hm hlen).bind (.pure _ _)))

/-- No member begins with the closing brace. -/
theorem fails_member_brace (h : ReadsDeclarations nested k) :
    Fails (member nested) (.symbol ['\x7d'] :: us) := by
  have hwordless : Wordless (.symbol ['\x7d'] :: us) := heads_cons.mpr rfl
  obtain ⟨hmethod, hfield, hconstructor⟩ := fails_kinds [] hwordless (heads_cons.mpr rfl)
  have hblock : Fails block (.symbol ['\x7d'] :: us) := fails_block (heads_cons.mpr rfl)
  have hmodifiers : Reads modifiers (.symbol ['\x7d'] :: us) [] (.symbol ['\x7d'] :: us) :=
    reads_modifiers [] hwordless.noModifier
  refine Fails.orElse (Fails.bind (fails_token (heads_cons.mpr rfl))) (Fails.orElse
    (Fails.bind (h.fails [] _ hwordless.undeclared)) ?_)
  exact hmodifiers.bind_fails (Fails.bind (Fails.orElse hmethod (Fails.orElse hfield
    (Fails.orElse hconstructor hblock.bind))))

/-- The members of a type in front of its closing brace. -/
theorem reads_members (us : List Token) (h : ReadsDeclarations nested k) {members : List Member}
    (hproper : properMembers members) (hlen : (membersTokens members).length ≤ k) :
    Reads (Source.members nested) (membersTokens members ++ .symbol ['\x7d'] :: us) members
      (.symbol ['\x7d'] :: us) := by
  rw [properMembers_iff] at hproper
  rw [membersTokens_eq] at hlen ⊢
  have hshort : ∀ m ∈ members, m.tokens.length ≤ k := fun m hm =>
    Nat.le_trans (List.Sublist.length_le (List.sublist_flatten_of_mem (List.mem_map_of_mem hm))) hlen
  have hne : ∀ m ∈ members, m.tokens ≠ [] := fun m _ => m.tokens_ne_nil
  have hmany : Reads (many (member nested))
      (members.flatMap Member.tokens ++ .symbol ['\x7d'] :: us) (members.map some)
      (.symbol ['\x7d'] :: us) :=
    Reads.many (fails_member_brace h) (fun m hm _ => reads_member h (hproper m hm) (hshort m hm)) hne
  have hall : (members.map some).filterMap id = members := by
    rw [List.filterMap_map]
    exact List.filterMap_some
  refine hmany.bind ?_
  rw [hall]
  exact Reads.pure _ _

/-- The body of a type in front of anything. -/
theorem reads_body (h : ReadsDeclarations nested k) {members : List Member}
    (hproper : properMembers members) (hlen : (membersTokens members).length ≤ k) :
    Reads (body nested) (.symbol ['\x7b'] :: (membersTokens members ++ .symbol ['\x7d'] :: us))
      members us :=
  (reads_token _).bind ((reads_members us h hproper hlen).bind ((reads_token _).bind (.pure _ _)))

/-- What stands in front of a clause and the body behind it. -/
theorem heads_clause {P : Token → Prop} {word : String} {ts : List ClassType}
    (hword : P (.word word)) (hbrace : P (.symbol ['\x7b'])) :
    Heads P (clauseTokens word ts ++ .symbol ['\x7b'] :: us) := by
  cases ts with
  | nil => exact heads_cons.mpr hbrace
  | cons t r => exact heads_cons.mpr hword

theorem isNot_word {v w : String} (h : v ≠ w) : (Token.word v).IsNot w :=
  ⟨rfl, fun he => h (Option.some.inj he)⟩

theorem isNot_symbol (w : String) (s : List Char) : (Token.symbol s).IsNot w :=
  ⟨rfl, by simp [Token.word?]⟩

/-- A brace ends whatever lists types. -/
theorem endsTypes_brace (us : List Token) : EndsTypes (.symbol ['\x7b'] :: us) :=
  ⟨heads_cons.mpr ⟨rfl, rfl, Or.inl rfl⟩, heads_cons.mpr rfl⟩

theorem endsType_clause {word : String} {ts : List ClassType} :
    EndsType (clauseTokens word ts ++ .symbol ['\x7b'] :: us) := by
  have hno : isIdentifierStart '[' = false ∧ isIdentifierStart '<' = false ∧
      isIdentifierStart '.' = false := by decide
  exact heads_clause ⟨hno.1, hno.2.1, Or.inl hno.2.2⟩ ⟨rfl, rfl, Or.inl rfl⟩

theorem reads_noPermits :
    Reads (clause "permits") (.symbol ['\x7b'] :: us) [] (.symbol ['\x7b'] :: us) :=
  reads_noClause (heads_cons.mpr (isNot_symbol _ _))

theorem reads_superclass {superclass : Option ClassType} (h : ∀ t ∈ superclass, ProperClass t)
    {word : String} {ts : List ClassType} (hword : word ≠ "extends") :
    Reads (Recogniser.optional (keyword "extends" >>= fun _ => classType))
      (superclassTokens superclass ++ (clauseTokens word ts ++ .symbol ['\x7b'] :: us)) superclass
      (clauseTokens word ts ++ .symbol ['\x7b'] :: us) := by
  cases superclass with
  | none =>
      exact Fails.optional (Fails.bind (fails_keyword
        (heads_clause (isNot_word hword) (isNot_symbol _ _))))
  | some t => exact Reads.optional ((reads_keyword _ _).bind (reads_classType (h t rfl) endsType_clause))

theorem reads_class (us : List Token) (h : ReadsDeclarations nested k) (ms : List Modifier)
    {name : String}
    {superclass : Option ClassType} {interfaces : List ClassType} {members : List Member}
    (hname : IsName name) (hsuper : ∀ t ∈ superclass, ProperClass t)
    (hinterfaces : ∀ t ∈ interfaces, ProperClass t) (hproper : properMembers members)
    (hlen : (membersTokens members).length ≤ k) :
    Reads (classDeclaration nested ms)
      (.word "class" :: .word name :: (superclassTokens superclass ++
        (clauseTokens "implements" interfaces ++
          (.symbol ['\x7b'] :: (membersTokens members ++ .symbol ['\x7d'] :: us)))))
      (.ofClass ms name superclass interfaces members) us := by
  have hnone : Reads (Recogniser.optional typeParameters)
      (superclassTokens superclass ++ (clauseTokens "implements" interfaces ++
        (.symbol ['\x7b'] :: (membersTokens members ++ .symbol ['\x7d'] :: us)))) none
      (superclassTokens superclass ++ (clauseTokens "implements" interfaces ++
        (.symbol ['\x7b'] :: (membersTokens members ++ .symbol ['\x7d'] :: us)))) := by
    have hno : isIdentifierStart '<' = false := by decide
    refine Fails.optional (fails_typeParameters ?_)
    cases superclass with
    | none => exact heads_clause hno rfl
    | some t => exact heads_cons.mpr hno
  have hclause := reads_clause "implements" hinterfaces
    (endsTypes_brace (membersTokens members ++ .symbol ['\x7d'] :: us))
    (heads_cons.mpr (isNot_symbol _ _))
  exact (reads_keyword _ _).bind ((reads_name hname).bind (hnone.bind
    ((reads_superclass hsuper (by decide)).bind (hclause.bind (reads_noPermits.bind
      ((reads_body h hproper hlen).bind (.pure _ _)))))))

theorem reads_interface (us : List Token) (h : ReadsDeclarations nested k) (ms : List Modifier)
    {name : String}
    {parents : List ClassType} {members : List Member} (hname : IsName name)
    (hparents : ∀ t ∈ parents, ProperClass t) (hproper : properMembers members)
    (hlen : (membersTokens members).length ≤ k) :
    Reads (interfaceDeclaration nested ms)
      (.word "interface" :: .word name :: (clauseTokens "extends" parents ++
        (.symbol ['\x7b'] :: (membersTokens members ++ .symbol ['\x7d'] :: us))))
      (.ofInterface ms name parents members) us := by
  have hno : isIdentifierStart '<' = false := by decide
  have hnone : Reads (Recogniser.optional typeParameters)
      (clauseTokens "extends" parents ++
        (.symbol ['\x7b'] :: (membersTokens members ++ .symbol ['\x7d'] :: us))) none
      (clauseTokens "extends" parents ++
        (.symbol ['\x7b'] :: (membersTokens members ++ .symbol ['\x7d'] :: us))) :=
    Fails.optional (fails_typeParameters (heads_clause hno rfl))
  have hclause := reads_clause "extends" hparents
    (endsTypes_brace (membersTokens members ++ .symbol ['\x7d'] :: us))
    (heads_cons.mpr (isNot_symbol _ _))
  exact (reads_keyword _ _).bind ((reads_name hname).bind (hnone.bind (hclause.bind
    (reads_noPermits.bind ((reads_body h hproper hlen).bind (.pure _ _))))))

/-! ### Enums -/

/-- Tokens that end a constant. -/
structure EndsConstant (us : List Token) : Prop where
  wordless : Wordless us
  noArguments : Heads (fun t => t.mayBegin '(' = false) us
  noBody : Heads (fun t => t.mayBegin '\x7b' = false) us

theorem reads_noAnnotations (h : Heads (fun t => t.isTight = false) us) :
    Reads (many annotation) us [] us :=
  Fails.many (annotation_fails h)

theorem reads_constant {name : String} (hname : IsName name) (hus : EndsConstant us) :
    Reads constant (.word name :: us) name us := by
  have hmarks : Reads (many annotation) (.word name :: us) [] (.word name :: us) :=
    reads_noAnnotations (heads_cons.mpr rfl)
  exact hmarks.bind ((reads_name hname).bind
    ((Fails.optional (fails_argumentList hus.noArguments)).bind
      ((Fails.optional (fails_block hus.noBody)).bind (.pure _ _))))

theorem fails_constant (hus : Wordless us) : Fails constant us := by
  have hmarks : Reads (many annotation) us [] us :=
    reads_noAnnotations fun t ht => (Token.word?_eq_none (hus t ht)).1
  exact hmarks.bind_fails (Fails.bind hus.identifier)

/-- The constants of an enum, without a comma behind the last one. -/
theorem reads_constants {names : List String} (hnames : ∀ c ∈ names, IsName c)
    (hus : EndsConstant us) (hcomma : Heads (fun t => t.mayBegin ',' = false) us) :
    Reads constants (constantsTokens names ++ us) names us := by
  have hnone : Fails (token [',']) us := fails_token hcomma
  have hlist : Reads (sepBy constant (token [','])) (constantsTokens names ++ us) names us := by
    refine Reads.sepBy (F := EndsConstant) (fun _ => ?_) hus hnone.bind
      (fails_constant hus.wordless) fun c hc _ hws => reads_constant (hnames c hc) hws
    exact ⟨heads_cons.mpr rfl, heads_cons.mpr rfl, heads_cons.mpr rfl⟩
  refine hlist.bind ?_
  cases names with
  | nil => exact (Reads.pure none us).bind (.pure _ _)
  | cons c r => exact hnone.optional.bind (.pure _ _)

/-- What stands behind the constants of an enum. -/
theorem heads_enumMembers {P : Token → Prop} (members : List Member)
    (hsemicolon : P (.symbol [';'])) (hbrace : P (.symbol ['\x7d'])) :
    Heads P (enumMembersTokens members ++ .symbol ['\x7d'] :: us) := by
  cases members with
  | nil =>
      rw [enumMembersTokens]
      exact heads_cons.mpr hbrace
  | cons m r =>
      rw [enumMembersTokens]
      exact heads_cons.mpr hsemicolon

/-- The members of an enum, if there are any. -/
theorem reads_enumMembers (us : List Token) (h : ReadsDeclarations nested k) {members : List Member}
    (hproper : properMembers members) (hlen : (enumMembersTokens members).length ≤ k + 1) :
    ∃ inner, Reads (Recogniser.optional (token [';'] >>= fun _ => Source.members nested))
      (enumMembersTokens members ++ .symbol ['\x7d'] :: us) inner (.symbol ['\x7d'] :: us) ∧
        inner.getD [] = members := by
  cases members with
  | nil =>
      rw [enumMembersTokens]
      exact ⟨none, Fails.optional (Fails.bind (fails_token (heads_cons.mpr rfl))), rfl⟩
  | cons m r =>
      have hshort : (membersTokens (m :: r)).length ≤ k := by
        rw [enumMembersTokens, List.length_cons] at hlen
        rw [membersTokens]
        omega
      have hread := reads_members us h hproper hshort
      rw [membersTokens] at hread
      rw [enumMembersTokens]
      exact ⟨some (m :: r), Reads.optional ((reads_token _).bind hread), rfl⟩

theorem reads_enum (us : List Token) (h : ReadsDeclarations nested k) (ms : List Modifier)
    {name : String}
    {interfaces : List ClassType} {names : List String} {members : List Member}
    (hname : IsName name) (hinterfaces : ∀ t ∈ interfaces, ProperClass t)
    (hnames : ∀ c ∈ names, IsName c) (hproper : properMembers members)
    (hlen : (enumMembersTokens members).length ≤ k + 1) :
    Reads (enumDeclaration nested ms)
      (.word "enum" :: .word name :: (clauseTokens "implements" interfaces ++
        (.symbol ['\x7b'] :: (constantsTokens names ++
          (enumMembersTokens members ++ .symbol ['\x7d'] :: us)))))
      (.ofEnum ms name interfaces names members) us := by
  have hends : EndsConstant (enumMembersTokens members ++ .symbol ['\x7d'] :: us) := by
    refine ⟨?_, ?_, ?_⟩ <;> exact heads_enumMembers members rfl rfl
  have hconstants := reads_constants hnames hends (heads_enumMembers members rfl rfl)
  obtain ⟨inner, hinner, hvalue⟩ := reads_enumMembers us h hproper hlen
  have hclause := reads_clause "implements" hinterfaces
    (endsTypes_brace (constantsTokens names ++ (enumMembersTokens members ++ .symbol ['\x7d'] :: us)))
    (heads_cons.mpr (isNot_symbol _ _))
  refine (reads_keyword _ _).bind ((reads_name hname).bind (hclause.bind ((reads_token _).bind
    (hconstants.bind (hinner.bind ((reads_token _).bind ?_))))))
  rw [hvalue]
  exact Reads.pure _ us

/-! ### All rounds -/

/-- A round of the grammar of declarations. -/
def declarationStep (nested : Recogniser Declaration) : Recogniser Declaration :=
  modifiers >>= fun ms =>
    classDeclaration nested ms <|> interfaceDeclaration nested ms <|> enumDeclaration nested ms

theorem declaration_eq : declaration = recursive declarationStep := rfl

theorem noModifier_keyword {w : String} (h : Modifier.ofKeyword? w = none) :
    Heads Token.NoModifier (.word w :: us) :=
  heads_cons.mpr (noModifier_word h)

/-- One more round reads declarations of one more token. -/
theorem ReadsDeclarations.step (h : ReadsDeclarations nested k) :
    ReadsDeclarations (declarationStep nested) (k + 1) where
  fails ms us hus := by
    have hmodifiers : Reads modifiers (ms.map Modifier.token ++ us) ms us :=
      reads_modifiers ms fun t ht => (hus t ht).noModifier
    refine hmodifiers.bind_fails (Fails.orElse ?_ (Fails.orElse ?_ ?_))
    · exact Fails.bind (fails_keyword fun t ht => (hus t ht).noClass)
    · exact Fails.bind (fails_keyword fun t ht => (hus t ht).noInterface)
    · exact Fails.bind (fails_keyword fun t ht => (hus t ht).noEnum)
  reads d us hd hlen := by
    have hmodifiers : ∀ (ms : List Modifier) (w : String) (ts : List Token),
        Modifier.ofKeyword? w = none →
          Reads modifiers (ms.map Modifier.token ++ .word w :: ts) ms (.word w :: ts) :=
      fun ms w ts hw => reads_modifiers ms (noModifier_keyword hw)
    cases d with
    | ofClass ms name superclass interfaces members =>
        rw [Declaration.Proper] at hd
        obtain ⟨hname, hsuper, hinterfaces, hproper⟩ := hd
        have hshort : (membersTokens members).length ≤ k := by
          simp only [Declaration.tokens, List.length_append, List.length_cons] at hlen
          omega
        have hread := reads_class us h ms hname hsuper hinterfaces hproper hshort
        have htokens : (Declaration.ofClass ms name superclass interfaces members).tokens ++ us =
            ms.map Modifier.token ++ (.word "class" :: .word name :: (superclassTokens superclass ++
              (clauseTokens "implements" interfaces ++
                (.symbol ['\x7b'] :: (membersTokens members ++ .symbol ['\x7d'] :: us))))) := by
          simp [Declaration.tokens]
        rw [htokens]
        exact (hmodifiers ms _ _ (by decide)).bind hread.orElse
    | ofInterface ms name parents members =>
        rw [Declaration.Proper] at hd
        obtain ⟨hname, hparents, hproper⟩ := hd
        have hshort : (membersTokens members).length ≤ k := by
          simp only [Declaration.tokens, List.length_append, List.length_cons] at hlen
          omega
        have hread := reads_interface us h ms hname hparents hproper hshort
        have htokens : (Declaration.ofInterface ms name parents members).tokens ++ us =
            ms.map Modifier.token ++ (.word "interface" :: .word name ::
              (clauseTokens "extends" parents ++
                (.symbol ['\x7b'] :: (membersTokens members ++ .symbol ['\x7d'] :: us)))) := by
          simp [Declaration.tokens]
        rw [htokens]
        exact (hmodifiers ms _ _ (by decide)).bind (Fails.orElse_reads
          (Fails.bind (fails_keyword (heads_cons.mpr (isNot_word (by decide))))) hread.orElse)
    | ofEnum ms name interfaces constants members =>
        rw [Declaration.Proper] at hd
        obtain ⟨hname, hinterfaces, hconstants, hproper⟩ := hd
        have hshort : (enumMembersTokens members).length ≤ k + 1 := by
          simp only [Declaration.tokens, List.length_append, List.length_cons] at hlen
          omega
        have hread := reads_enum us h ms hname hinterfaces hconstants hproper hshort
        have htokens : (Declaration.ofEnum ms name interfaces constants members).tokens ++ us =
            ms.map Modifier.token ++ (.word "enum" :: .word name ::
              (clauseTokens "implements" interfaces ++
                (.symbol ['\x7b'] :: (constantsTokens constants ++
                  (enumMembersTokens members ++ .symbol ['\x7d'] :: us))))) := by
          simp [Declaration.tokens]
        rw [htokens]
        exact (hmodifiers ms _ _ (by decide)).bind (Fails.orElse_reads
          (Fails.bind (fails_keyword (heads_cons.mpr (isNot_word (by decide)))))
          (Fails.orElse_reads
            (Fails.bind (fails_keyword (heads_cons.mpr (isNot_word (by decide))))) hread))

theorem readsDeclarations_unroll (n : Nat) : ReadsDeclarations (unroll declarationStep n) n := by
  induction n with
  | zero =>
      refine ⟨fun d us _ hlen => ?_, fun ms us _ _ _ => rfl⟩
      have hpos := List.length_pos_iff.mpr d.tokens_ne_nil
      omega
  | succ n ih => exact ih.step

end Rounds

/-- **A declaration is read back from its tokens**, whatever follows. -/
theorem reads_declaration {d : Declaration} (hd : d.Proper) :
    Reads declaration (d.tokens ++ us) d us := by
  rw [declaration_eq]
  refine Reads.recursive fun n hn => ?_
  rw [List.length_append] at hn
  exact (readsDeclarations_unroll (n + 1)).reads d us hd (by omega)

theorem fails_declaration (h : Heads Token.Undeclared us) : Fails declaration us :=
  Fails.recursive fun n => (readsDeclarations_unroll n).fails [] us h

end ClassModel.Source
