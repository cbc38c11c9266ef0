/-
Reading types.

The tokens of a type are those of its text, and a type is read back from them in front of
anything that it does not go on with: a bracket, an angle bracket or a dot.  The dot needs
care, since an ellipsis begins with one; what saves it is that no segment follows.

The grammar of types refers to itself, so reading is followed round by round.  A type inside
a type has fewer tokens, and there are more rounds than tokens.
-/
import ClassModel.Proofs.Source.Groups

namespace ClassModel.Source

open Recogniser

/-! ### The tokens of a type -/

/-- The tokens of array dimensions. -/
def dimsTokens (n : Nat) : List Token :=
  (List.replicate n ()).flatMap fun _ => [.symbol ['['], .symbol [']']]

mutual

/-- The tokens of a type. -/
def TypeExpr.tokens : TypeExpr → List Token
  | .primitive name dims => .word name :: dimsTokens dims
  | .reference segments dims => classTypeTokens segments ++ dimsTokens dims

/-- The tokens of a class type. -/
def classTypeTokens : List TypeSegment → List Token
  | [] => []
  | s :: r => s.tokens ++ segmentsTokens r

/-- The tokens of further segments, each behind its dot. -/
def segmentsTokens : List TypeSegment → List Token
  | [] => []
  | s :: r => .symbol ['.'] :: s.tokens ++ segmentsTokens r

/-- The tokens of a segment. -/
def TypeSegment.tokens : TypeSegment → List Token
  | .plain name => [.word name]
  | .applied name arguments =>
      .word name :: .symbol ['<'] :: argumentsTokens arguments ++ [.symbol ['>']]

/-- The tokens of a list of arguments. -/
def argumentsTokens : List TypeArgument → List Token
  | [] => []
  | a :: r => a.tokens ++ moreArgumentsTokens r

/-- The tokens of further arguments, each behind its comma. -/
def moreArgumentsTokens : List TypeArgument → List Token
  | [] => []
  | a :: r => .symbol [','] :: a.tokens ++ moreArgumentsTokens r

/-- The tokens of an argument. -/
def TypeArgument.tokens : TypeArgument → List Token
  | .type t => t.tokens
  | .wildcard => [.symbol ['?']]

end

theorem classTypeTokens_eq (segments : List TypeSegment) :
    classTypeTokens segments = separated ['.'] TypeSegment.tokens segments := by
  have hmore : ∀ r, segmentsTokens r = r.flatMap fun s => .symbol ['.'] :: s.tokens := by
    intro r
    induction r with
    | nil => rw [segmentsTokens, List.flatMap_nil]
    | cons s r ih => rw [segmentsTokens, List.flatMap_cons, ih]
  cases segments with
  | nil => rw [classTypeTokens, separated]
  | cons s r => rw [classTypeTokens, separated, hmore]

theorem argumentsTokens_eq (arguments : List TypeArgument) :
    argumentsTokens arguments = separated [','] TypeArgument.tokens arguments := by
  have hmore : ∀ r, moreArgumentsTokens r = r.flatMap fun a => .symbol [','] :: a.tokens := by
    intro r
    induction r with
    | nil => rw [moreArgumentsTokens, List.flatMap_nil]
    | cons a r ih => rw [moreArgumentsTokens, List.flatMap_cons, ih]
  cases arguments with
  | nil => rw [argumentsTokens, separated]
  | cons a r => rw [argumentsTokens, separated, hmore]

/-! ### Proper types -/

/-- A name: an identifier that is no word of the grammar. -/
structure IsName (w : String) : Prop where
  identifier : IsIdentifier w.toList
  notReserved : w ∉ reservedWords
  /-- The modifier `sealed` is not reserved. -/
  notSealed : w ≠ "sealed"

instance (w : String) : Decidable (IsName w) :=
  decidable_of_iff (IsIdentifier w.toList ∧ w ∉ reservedWords ∧ w ≠ "sealed")
    ⟨fun h => ⟨h.1, h.2.1, h.2.2⟩, fun h => ⟨h.identifier, h.notReserved, h.notSealed⟩⟩

mutual

/-- A type of names, with at least one segment. -/
def TypeExpr.Proper : TypeExpr → Prop
  | .primitive name _ => name ∈ primitiveNames
  | .reference segments _ => segments ≠ [] ∧ properSegments segments

/-- Segments of names. -/
def properSegments : List TypeSegment → Prop
  | [] => True
  | s :: r => s.Proper ∧ properSegments r

/-- A segment of names. -/
def TypeSegment.Proper : TypeSegment → Prop
  | .plain name => IsName name
  | .applied name arguments => IsName name ∧ properArguments arguments

/-- Arguments of names. -/
def properArguments : List TypeArgument → Prop
  | [] => True
  | a :: r => a.Proper ∧ properArguments r

/-- An argument of names. -/
def TypeArgument.Proper : TypeArgument → Prop
  | .type t => t.Proper
  | .wildcard => True

end

/-- A class type of names. -/
def ProperClass (t : ClassType) : Prop :=
  t ≠ [] ∧ ∀ s ∈ t, s.Proper

/-- A word that names a type: an identifier that is not reserved. -/
structure IsTypeName (w : String) : Prop where
  identifier : IsIdentifier w.toList
  notReserved : w ∉ reservedWords

instance (w : String) : Decidable (IsTypeName w) :=
  decidable_of_iff (IsIdentifier w.toList ∧ w ∉ reservedWords)
    ⟨fun h => ⟨h.1, h.2⟩, fun h => ⟨h.identifier, h.notReserved⟩⟩

theorem IsName.isTypeName {w : String} (h : IsName w) : IsTypeName w :=
  ⟨h.identifier, h.notReserved⟩

mutual

/-- A type of names, among which a modifier may be that is not reserved. -/
def TypeExpr.Named : TypeExpr → Prop
  | .primitive name _ => name ∈ primitiveNames
  | .reference segments _ => segments ≠ [] ∧ namedSegments segments

/-- Segments that are named. -/
def namedSegments : List TypeSegment → Prop
  | [] => True
  | s :: r => s.Named ∧ namedSegments r

/-- A segment that is named. -/
def TypeSegment.Named : TypeSegment → Prop
  | .plain name => IsTypeName name
  | .applied name arguments => IsTypeName name ∧ namedArguments arguments

/-- Arguments that are named. -/
def namedArguments : List TypeArgument → Prop
  | [] => True
  | a :: r => a.Named ∧ namedArguments r

/-- An argument that is named. -/
def TypeArgument.Named : TypeArgument → Prop
  | .type t => t.Named
  | .wildcard => True

end

mutual

theorem TypeExpr.Proper.named : (t : TypeExpr) → t.Proper → t.Named
  | .primitive _ _, h => by
      rw [TypeExpr.Proper] at h
      rwa [TypeExpr.Named]
  | .reference segments _, h => by
      rw [TypeExpr.Proper] at h
      rw [TypeExpr.Named]
      exact ⟨h.1, namedSegments_of_proper segments h.2⟩

theorem namedSegments_of_proper : (segments : List TypeSegment) → properSegments segments →
    namedSegments segments
  | [], _ => trivial
  | s :: r, h => by
      rw [properSegments] at h
      rw [namedSegments]
      exact ⟨TypeSegment.Proper.named s h.1, namedSegments_of_proper r h.2⟩

theorem TypeSegment.Proper.named : (s : TypeSegment) → s.Proper → s.Named
  | .plain _, h => by
      rw [TypeSegment.Proper] at h
      rw [TypeSegment.Named]
      exact h.isTypeName
  | .applied _ arguments, h => by
      rw [TypeSegment.Proper] at h
      rw [TypeSegment.Named]
      exact ⟨h.1.isTypeName, namedArguments_of_proper arguments h.2⟩

theorem namedArguments_of_proper : (arguments : List TypeArgument) → properArguments arguments →
    namedArguments arguments
  | [], _ => trivial
  | a :: r, h => by
      rw [properArguments] at h
      rw [namedArguments]
      exact ⟨TypeArgument.Proper.named a h.1, namedArguments_of_proper r h.2⟩

theorem TypeArgument.Proper.named : (a : TypeArgument) → a.Proper → a.Named
  | .type t, h => by
      rw [TypeArgument.Proper] at h
      rw [TypeArgument.Named]
      exact TypeExpr.Proper.named t h
  | .wildcard, _ => trivial

end

theorem properSegments_iff {segments : List TypeSegment} :
    properSegments segments ↔ ∀ s ∈ segments, s.Proper := by
  induction segments with
  | nil => simp [properSegments]
  | cons s r ih => simp [properSegments, ih]

theorem namedSegments_iff {segments : List TypeSegment} :
    namedSegments segments ↔ ∀ s ∈ segments, s.Named := by
  induction segments with
  | nil => simp [namedSegments]
  | cons s r ih => simp [namedSegments, ih]

theorem namedArguments_iff {arguments : List TypeArgument} :
    namedArguments arguments ↔ ∀ a ∈ arguments, a.Named := by
  induction arguments with
  | nil => simp [namedArguments]
  | cons a r ih => simp [namedArguments, ih]

/-! ### The first word of a type -/

/-- A word that a type begins with. -/
def IsTypeWord (w : String) : Prop :=
  w ∈ primitiveNames ∨ IsName w

theorem exists_segment_cons {s : TypeSegment} (hs : s.Proper) :
    ∃ w r, s.tokens = .word w :: r ∧ IsName w := by
  cases s with
  | plain name =>
      rw [TypeSegment.Proper] at hs
      exact ⟨name, [], by rw [TypeSegment.tokens], hs⟩
  | applied name arguments =>
      rw [TypeSegment.Proper] at hs
      exact ⟨name, _, by rw [TypeSegment.tokens]; rfl, hs.1⟩

theorem exists_classType_cons {t : ClassType} (ht : ProperClass t) :
    ∃ w r, classTypeTokens t = .word w :: r ∧ IsName w := by
  cases t with
  | nil => exact absurd rfl ht.1
  | cons s r =>
      obtain ⟨w, u, he, hw⟩ := exists_segment_cons (ht.2 s (by simp))
      exact ⟨w, u ++ segmentsTokens r, by rw [classTypeTokens, he, List.cons_append], hw⟩

/-- A type begins with a word. -/
theorem TypeExpr.Proper.exists_cons {t : TypeExpr} (ht : t.Proper) :
    ∃ w r, t.tokens = .word w :: r ∧ IsTypeWord w := by
  cases t with
  | primitive name dims =>
      rw [TypeExpr.Proper] at ht
      exact ⟨name, dimsTokens dims, by rw [TypeExpr.tokens], Or.inl ht⟩
  | reference segments dims =>
      rw [TypeExpr.Proper, properSegments_iff] at ht
      obtain ⟨w, r, he, hw⟩ := exists_classType_cons ht
      exact ⟨w, r ++ dimsTokens dims, by rw [TypeExpr.tokens, he, List.cons_append], Or.inr hw⟩

/-- A class type that is named begins with the name of its first segment. -/
theorem exists_namedSegments_cons {segments : List TypeSegment} (hne : segments ≠ [])
    (h : ∀ s ∈ segments, s.Named) :
    ∃ w r, classTypeTokens segments = .word w :: r ∧ IsTypeName w := by
  cases segments with
  | nil => exact absurd rfl hne
  | cons s r =>
      have hs := h s (by simp)
      rw [classTypeTokens]
      cases s with
      | plain name =>
          rw [TypeSegment.Named] at hs
          exact ⟨name, _, by rw [TypeSegment.tokens]; rfl, hs⟩
      | applied name arguments =>
          rw [TypeSegment.Named] at hs
          exact ⟨name, _, by rw [TypeSegment.tokens]; rfl, hs.1⟩

/-- A type that is named begins with a word. -/
theorem TypeExpr.Named.exists_cons {t : TypeExpr} (ht : t.Named) :
    ∃ w r, t.tokens = .word w :: r := by
  cases t with
  | primitive name dims => exact ⟨name, dimsTokens dims, by rw [TypeExpr.tokens]⟩
  | reference segments dims =>
      rw [TypeExpr.Named, namedSegments_iff] at ht
      obtain ⟨w, r, he, -⟩ := exists_namedSegments_cons ht.1 ht.2
      exact ⟨w, r ++ dimsTokens dims, by rw [TypeExpr.tokens, he, List.cons_append]⟩

/-- No word of the grammar names a type but the primitive ones. -/
theorem IsTypeWord.ne {w v : String} (h : IsTypeWord w) (hv : v ∈ reservedWords)
    (hp : v ∉ primitiveNames) : w ≠ v := by
  rintro rfl
  rcases h with h | h
  · exact hp h
  · exact h.notReserved hv

theorem primitiveNames_subset : ∀ w ∈ primitiveNames, w ∈ reservedWords := by
  decide

theorem IsTypeName.not_primitive {w : String} (h : IsTypeName w) : w ∉ primitiveNames :=
  fun hw => h.notReserved (primitiveNames_subset w hw)

/-! ### What may follow a type -/

variable {us : List Token}

/-- Tokens that a type does not go on with. -/
def EndsType (us : List Token) : Prop :=
  Heads (fun t => t.mayBegin '[' = false ∧ t.mayBegin '<' = false ∧
    (t.mayBegin '.' = false ∨ t = .symbol ['.', '.', '.'])) us

/-- Behind a dot of an ellipsis there is no segment. -/
theorem fails_dot (h : EndsType us) (type : Recogniser TypeExpr) :
    Fails (token ['.'] >>= fun _ => typeSegment type) us := by
  intro s hs
  cases us with
  | nil => exact (Fails.bind (fails_token (heads_nil _))) s hs
  | cons t us =>
      obtain ⟨-, -, hdot⟩ := heads_cons.mp h
      rcases hdot with hdot | rfl
      · exact (Fails.bind (fails_token (heads_cons.mpr hdot))) s hs
      · obtain ⟨x, g, r, rfl, hx, -⟩ := hs.exists_cons
        cases hx
        have hliteral : (literal ['.']).cut (['.', '.', '.'] ++ (g ++ r)) =
            some ((), '.' :: '.' :: (g ++ r)) := cut_literal_append ['.'] _
        have htrivia : trivia.cut ('.' :: '.' :: (g ++ r)) = some ((), '.' :: '.' :: (g ++ r)) :=
          cut_trivia .nil (stops_cons.mpr (by decide))
        have hname : rawIdentifier.cut ('.' :: '.' :: (g ++ r)) = none := by
          rw [rawIdentifier, cut_bind, cut_satisfy_of_stops (stops_cons.mpr (by decide))]
          rfl
        rw [cut_bind_unit, token, cut_bind_unit, hliteral, Option.bind_some, htrivia,
          Option.bind_some, typeSegment, cut_bind, identifier, cut_bind, cut_check, hname]
        rfl

theorem reads_dims (n : Nat) (h : Heads (fun t => t.mayBegin '[' = false) us) :
    Reads dims (dimsTokens n ++ us) n us := by
  have hmany : Reads (many (token ['['] >>= fun _ => token [']'])) (dimsTokens n ++ us)
      ((List.replicate n ()).map id) us :=
    Reads.many (Fails.bind (fails_token h)) (fun _ _ _ => (reads_token _).bind (reads_token _))
      fun _ _ => List.cons_ne_nil _ _
  have hlength : ((List.replicate n ()).map id).length = n := by
    rw [List.length_map, List.length_replicate]
  refine hmany.bind ?_
  rw [hlength]
  exact Reads.pure n us

/-! ### Reading a round -/

section Rounds

variable {type : Recogniser TypeExpr} {k : Nat}

/-- Types of at most so many tokens are read, and no symbol is read as a type. -/
structure ReadsTypes (type : Recogniser TypeExpr) (k : Nat) : Prop where
  reads : ∀ t us, t.Named → EndsType us → t.tokens.length ≤ k →
    Reads type (t.tokens ++ us) t us
  fails : ∀ us, Wordless us → Fails type us

/-- A round of the grammar of types. -/
def typeStep (type : Recogniser TypeExpr) : Recogniser TypeExpr :=
  (primitiveName >>= fun name => dims >>= fun n => pure (.primitive name n)) <|>
    (sepBy1 (typeSegment type) (token ['.']) >>= fun segments => dims >>= fun n =>
      pure (.reference segments n))

theorem typeExpr_eq : typeExpr = recursive typeStep := rfl

theorem fails_bounds (h : Wordless us) : Fails (bounds type) us :=
  Fails.bind (Fails.orElse (h.keyword _) (h.keyword _))

theorem fails_typeStep (h : Wordless us) : Fails (typeStep type) us :=
  Fails.orElse (Fails.bind h.primitiveName) (Fails.bind (Fails.bind (Fails.bind h.identifier)))

/-- An argument in front of a comma or the closing bracket. -/
theorem reads_typeArgument (h : ReadsTypes type k) {a : TypeArgument} (ha : a.Named)
    (hlen : a.tokens.length ≤ k) (hus : EndsType us)
    (hword : Wordless us) :
    Reads (typeArgument type) (a.tokens ++ us) a us := by
  cases a with
  | wildcard =>
      rw [TypeArgument.tokens]
      exact Reads.orElse ((reads_token _).bind ((fails_bounds hword).optional.bind (.pure _ _)))
  | type t =>
      rw [TypeArgument.Named] at ha
      rw [TypeArgument.tokens] at hlen ⊢
      obtain ⟨w, r, he⟩ := ha.exists_cons
      have hfirst : Heads (fun t => t.mayBegin '?' = false) (t.tokens ++ us) := by
        rw [he, List.cons_append, heads_cons]
        show isIdentifierStart '?' = false
        decide
      exact Fails.orElse_reads (Fails.bind (fails_token hfirst)) (h.reads t us ha hus hlen).map

/-- Arguments in angle brackets. -/
theorem reads_typeArguments (us : List Token) (h : ReadsTypes type k) {arguments : List TypeArgument}
    (hnamed : namedArguments arguments) (hlen : (argumentsTokens arguments).length ≤ k) :
    Reads (typeArguments type)
      (.symbol ['<'] :: (argumentsTokens arguments ++ .symbol ['>'] :: us)) arguments us := by
  rw [namedArguments_iff] at hnamed
  rw [argumentsTokens_eq] at hlen ⊢
  have hlist : Reads (sepBy (typeArgument type) (token [',']))
      (separated [','] TypeArgument.tokens arguments ++ .symbol ['>'] :: us) arguments
      (.symbol ['>'] :: us) := by
    -- An argument stands in front of a comma or of the closing bracket.
    refine Reads.sepBy (F := fun ws => EndsType ws ∧ Wordless ws)
      (fun ws => ?_) ?_ (Fails.bind (fails_token ?_)) (Fails.orElse (Fails.bind (fails_token ?_)) ?_)
      fun a ha ws hws => ?_
    · exact ⟨heads_cons.mpr ⟨rfl, rfl, Or.inl rfl⟩, heads_cons.mpr rfl⟩
    · exact ⟨heads_cons.mpr ⟨rfl, rfl, Or.inl rfl⟩, heads_cons.mpr rfl⟩
    · exact heads_cons.mpr rfl
    · exact heads_cons.mpr rfl
    · exact (h.fails _ (heads_cons.mpr rfl)).map
    · exact reads_typeArgument h (hnamed a ha) (Nat.le_trans (length_le_separated ha) hlen) hws.1
        hws.2
  exact (reads_token _).bind (hlist.bind ((reads_token _).bind (.pure _ _)))

/-- A segment in front of anything but an angle bracket. -/
theorem reads_typeSegment (h : ReadsTypes type k) {s : TypeSegment} (hs : s.Named)
    (hlen : s.tokens.length ≤ k + 1) (hus : Heads (fun t => t.mayBegin '<' = false) us) :
    Reads (typeSegment type) (s.tokens ++ us) s us := by
  cases s with
  | plain name =>
      rw [TypeSegment.Named] at hs
      rw [TypeSegment.tokens]
      have hnone : Fails (typeArguments type) us := Fails.bind (fails_token hus)
      exact (reads_identifier hs.notReserved _).bind (hnone.optional.bind (.pure _ _))
  | applied name arguments =>
      rw [TypeSegment.Named] at hs
      rw [TypeSegment.tokens] at hlen ⊢
      have hshort : (argumentsTokens arguments).length ≤ k := by
        simp only [List.cons_append, List.length_cons, List.length_append] at hlen
        omega
      have hread := reads_typeArguments us h hs.2 hshort
      rw [List.cons_append, List.cons_append, List.append_assoc, List.singleton_append]
      exact (reads_identifier hs.1.notReserved _).bind (hread.optional.bind (.pure _ _))

/-- The segments of a class type in front of anything that a type does not go on with. -/
theorem reads_segments (h : ReadsTypes type k) {segments : List TypeSegment}
    (hne : segments ≠ []) (hnamed : ∀ s ∈ segments, s.Named)
    (hlen : (classTypeTokens segments).length ≤ k + 1)
    (hdot : Fails (token ['.'] >>= fun _ => typeSegment type) us)
    (hangle : Heads (fun t => t.mayBegin '<' = false) us) :
    Reads (sepBy1 (typeSegment type) (token ['.'])) (classTypeTokens segments ++ us) segments us := by
  rw [classTypeTokens_eq] at hlen ⊢
  refine Reads.sepBy1 (F := Heads fun t => t.mayBegin '<' = false) (fun ws => heads_cons.mpr rfl)
    hangle hdot hne fun s hs ws hws => ?_
  exact reads_typeSegment h (hnamed s hs) (Nat.le_trans (length_le_separated hs) hlen) hws

/-- One more round reads types of one more token. -/
theorem ReadsTypes.step (h : ReadsTypes type k) : ReadsTypes (typeStep type) (k + 1) where
  fails us hus := fails_typeStep hus
  reads t us ht hus hlen := by
    have hdims : Heads (fun t => t.mayBegin '[' = false) us := fun t ht => (hus t ht).1
    cases t with
    | primitive name dims =>
        rw [TypeExpr.Named] at ht
        rw [TypeExpr.tokens]
        exact Reads.orElse ((reads_primitiveName ht _).bind
          ((reads_dims dims hdims).bind (.pure _ _)))
    | reference segments dims =>
        rw [TypeExpr.Named, namedSegments_iff] at ht
        rw [TypeExpr.tokens] at hlen ⊢
        obtain ⟨w, r, he, hw⟩ := exists_namedSegments_cons ht.1 ht.2
        have hprimitive : Fails primitiveName (classTypeTokens segments ++ (dimsTokens dims ++ us)) := by
          rw [he]
          refine fails_primitiveName (heads_cons.mpr ⟨rfl, fun v hv => ?_⟩)
          cases hv
          exact hw.not_primitive
        have hshort : (classTypeTokens segments).length ≤ k + 1 := by
          rw [List.length_append] at hlen
          omega
        -- Behind the segments stand brackets or what ends the type.
        have hends : ∀ ws, Heads (fun t => t.mayBegin '<' = false) ws →
            Fails (token ['.'] >>= fun _ => typeSegment type) ws →
            Reads (sepBy1 (typeSegment type) (token ['.'])) (classTypeTokens segments ++ ws)
              segments ws := fun ws hangle hdot =>
          reads_segments h ht.1 ht.2 hshort hdot hangle
        have hsegments : Reads (sepBy1 (typeSegment type) (token ['.']))
            (classTypeTokens segments ++ (dimsTokens dims ++ us)) segments (dimsTokens dims ++ us) := by
          cases dims with
          | zero => exact hends us (fun t ht => (hus t ht).2.1) (fails_dot hus type)
          | succ n => exact hends _ (heads_cons.mpr rfl) (Fails.bind (fails_token (heads_cons.mpr rfl)))
        rw [List.append_assoc]
        exact Fails.orElse_reads hprimitive.bind
          (hsegments.bind ((reads_dims dims hdims).bind (.pure _ _)))

theorem readsTypes_unroll (n : Nat) : ReadsTypes (unroll typeStep n) n := by
  induction n with
  | zero =>
      refine ⟨fun t us ht _ hlen => ?_, fun us _ _ _ => rfl⟩
      obtain ⟨w, r, he⟩ := ht.exists_cons
      rw [he, List.length_cons] at hlen
      omega
  | succ n ih => exact ih.step

end Rounds

/-! ### Types and class types -/

section Types

variable {t : TypeExpr}

/-- **A type is read back from its tokens.** -/
theorem reads_typeExpr (ht : t.Named) (hus : EndsType us) : Reads typeExpr (t.tokens ++ us) t us := by
  rw [typeExpr_eq]
  refine Reads.recursive fun n hn => ?_
  rw [List.length_append] at hn
  exact (readsTypes_unroll (n + 1)).reads t us ht hus (by omega)

theorem fails_typeExpr (h : Wordless us) : Fails typeExpr us :=
  Fails.recursive fun n => (readsTypes_unroll n).fails us h

theorem reads_classType {c : ClassType} (hc : ProperClass c) (hus : EndsType us) :
    Reads classType (classTypeTokens c ++ us) c us := by
  have hproper : (TypeExpr.reference c 0).Proper := by
    rw [TypeExpr.Proper, properSegments_iff]
    exact hc
  have hread := reads_typeExpr (TypeExpr.Proper.named _ hproper) hus
  have htokens : (TypeExpr.reference c 0).tokens = classTypeTokens c := by
    rw [TypeExpr.tokens]
    exact List.append_nil _
  rw [htokens] at hread
  exact hread.check rfl

end Types

end ClassModel.Source
