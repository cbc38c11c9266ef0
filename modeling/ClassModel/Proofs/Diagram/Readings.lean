/-
What is read of any line at all.

Whatever a member line looks like, what is read of it is a member that can be written: its
names are words, its types are types, and its types stand in the line beside each other.
So no type holds a character that the line does not.

`FoundIn` says this of a member and the line it was read from.  It only grows weaker when the
line grows, so the parsers in front of a member need not be looked at closely: each of them
leaves an end of the line.
-/
import ClassModel.Proofs.Diagram.Bodies

namespace ClassModel

open LineParser

/-! ### Members that were read -/

/-- The types that a method line writes. -/
def MethodLine.typesText (l : MethodLine) : List Char :=
  (l.returnType.map String.toList).getD [] ++ l.parameters.flatMap fun p => p.type.toList

/-- An attribute as it may be read from a text. -/
structure AttributeLine.FoundIn (l : AttributeLine) (s : List Char) : Prop where
  name : IsWord l.name.toList
  type : IsType TypeSuffix.Readable l.type.toList
  found : l.type.toList.Sublist s

/-- A method as it may be read from a text. -/
structure MethodLine.FoundIn (l : MethodLine) (s : List Char) : Prop where
  name : IsWord l.name.toList
  returnType : ∀ t ∈ l.returnType, IsType TypeSuffix.Readable t.toList
  listed : Listed l.parameters
  parameterName : ∀ p ∈ l.parameters, IsWord p.name.toList
  parameterType : ∀ p ∈ l.parameters, IsType TypeSuffix.Readable p.type.toList
  noParenthesis : ∀ p ∈ l.parameters, ∀ c ∈ p.type.toList, c ≠ '(' ∧ c ≠ ')'
  chars : ∀ c ∈ l.typesText, c ∈ s

theorem AttributeLine.FoundIn.mono {l : AttributeLine} {s t : List Char} (h : l.FoundIn s)
    (hs : s.Sublist t) : l.FoundIn t :=
  ⟨h.name, h.type, h.found.trans hs⟩

theorem MethodLine.FoundIn.mono {l : MethodLine} {s t : List Char} (h : l.FoundIn s)
    (hs : s.Sublist t) : l.FoundIn t :=
  { h with chars := fun c hc => hs.subset (h.chars c hc) }

namespace LineParser

/-- A parameter list is what stands between two parentheses. -/
theorem parameterList_eq_some {s r : List Char} {ps : List Parameter}
    (h : parameterList s = some (ps, r)) :
    ∃ inner, s = '(' :: (inner ++ ')' :: r) ∧ (∀ c ∈ inner, c ≠ '(' ∧ c ≠ ')') ∧
      ps = readParameters inner := by
  simp only [parameterList, bind_apply, Option.bind_eq_some_iff, pure_apply, Option.some.injEq,
    Prod.mk.injEq] at h
  obtain ⟨⟨a, s₁⟩, ha, ⟨inner, s₂⟩, hi, ⟨b, s₃⟩, hb, rfl, rfl⟩ := h
  obtain ⟨rfl, rfl⟩ := char_eq_some_iff.mp ha
  obtain ⟨rfl, rfl⟩ := char_eq_some_iff.mp hb
  rw [run_apply, Option.some.injEq, Prod.mk.injEq] at hi
  obtain ⟨rfl, hrest⟩ := hi
  refine ⟨_, ?_, ?_, rfl⟩
  · rw [← hrest, run_append]
  · intro c hc
    have := of_mem_takeWhile hc
    simpa using this

/-- The parameters of a list can be written again. -/
theorem parameters_foundIn {inner : List Char} (hinner : ∀ c ∈ inner, c ≠ '(' ∧ c ≠ ')') :
    Listed (readParameters inner) ∧ (∀ p ∈ readParameters inner, IsWord p.name.toList) ∧
      (∀ p ∈ readParameters inner, IsType TypeSuffix.Readable p.type.toList) ∧
      ∀ p ∈ readParameters inner, ∀ c ∈ p.type.toList, c ≠ '(' ∧ c ≠ ')' := by
  obtain ⟨hlisted, hsub, hall⟩ := listed_readParameters inner
  refine ⟨hlisted, fun p hp => (hall p hp).1, fun p hp => (hall p hp).2, ?_⟩
  intro p hp c hc
  exact hinner c (hsub.subset (List.mem_flatMap.mpr ⟨p, hp, hc⟩))

/-- The rest of an attribute line behind its visibility. -/
theorem typeNameAttributeRest_eq_some {s r : List Char} {v : Option Visibility} {l : AttributeLine}
    (h : typeNameAttributeRest v s = some (l, r)) : l.FoundIn s := by
  simp only [typeNameAttributeRest, typeBefore, bind_apply, Option.bind_eq_some_iff, pure_apply,
    Option.some.injEq, Prod.mk.injEq] at h
  obtain ⟨⟨type, s₁⟩, ⟨⟨t, s₂⟩, ht, ⟨u, s₃⟩, _, rfl, rfl⟩, ⟨n, s₄⟩, hn, rfl, rfl⟩ := h
  obtain ⟨rfl, htype⟩ := typeText_eq_some ht
  exact ⟨(name_eq_some_iff.mp hn).2.1, htype, List.sublist_append_left _ _⟩

/-- The rest of a method line behind its visibility. -/
theorem typeNameMethodRest_eq_some {s r : List Char} {v : Option Visibility} {l : MethodLine}
    (h : typeNameMethodRest v s = some (l, r)) : l.FoundIn s := by
  simp only [typeNameMethodRest, bind_apply, Option.bind_eq_some_iff, pure_apply,
    Option.some.injEq, Prod.mk.injEq] at h
  obtain ⟨⟨mark, s₁⟩, hmark, ⟨o, s₂⟩, ho, ⟨n, s₃⟩, hn, ⟨u, s₄⟩, hu, ⟨ps, s₅⟩, hps, rfl, rfl⟩ := h
  obtain ⟨inner, rfl, hinner, rfl⟩ := parameterList_eq_some hps
  obtain ⟨hlisted, hpname, hptype, hpparen⟩ := parameters_foundIn hinner
  have hsub : (readParameters inner).flatMap (fun p => p.type.toList) |>.Sublist inner :=
    (listed_readParameters inner).2.1
  have hlist : inner.Sublist s₂ := by
    have h₁ : inner.Sublist ('(' :: (inner ++ ')' :: s₅)) :=
      (List.sublist_append_left _ _).trans (List.sublist_cons_self _ _)
    exact (h₁.trans (Trims.spaces hu).sublist).trans (Trims.name hn).sublist
  have htypes : ((o.map String.toList).getD [] ++
      (readParameters inner).flatMap fun p => p.type.toList).Sublist s₁ := by
    rcases optional_eq_some_iff.mp ho with ⟨t, rfl, ht⟩ | ⟨rfl, -, rfl⟩
    · simp only [typeBefore, bind_apply, Option.bind_eq_some_iff, pure_apply, Option.some.injEq,
        Prod.mk.injEq] at ht
      obtain ⟨⟨t', s₆⟩, ht, ⟨_, s₇⟩, hs, rfl, rfl⟩ := ht
      obtain ⟨rfl, -⟩ := typeText_eq_some ht
      exact (List.Sublist.refl _).append ((hsub.trans hlist).trans (Trims.spaces1 hs).sublist)
    · exact hsub.trans hlist
  have hfound := htypes.trans (Trims.abstractMark hmark).sublist
  refine ⟨(name_eq_some_iff.mp hn).2.1, ?_, hlisted, hpname, hptype, hpparen,
    fun c hc => hfound.subset hc⟩
  intro t ht
  rcases optional_eq_some_iff.mp ho with ⟨t', rfl, ht'⟩ | ⟨rfl, -, -⟩
  · cases ht
    simp only [typeBefore, bind_apply, Option.bind_eq_some_iff, pure_apply, Option.some.injEq,
      Prod.mk.injEq] at ht'
    obtain ⟨⟨t', s₆⟩, ht, ⟨_, s₇⟩, _, rfl, rfl⟩ := ht'
    exact (typeText_eq_some ht).2
  · cases ht

theorem nameTypeAttribute_eq_some {s r : List Char} {l : AttributeLine}
    (h : nameTypeAttribute s = some (l, r)) : l.FoundIn s := by
  simp only [nameTypeAttribute, bind_apply, Option.bind_eq_some_iff, pure_apply,
    Option.some.injEq, Prod.mk.injEq] at h
  obtain ⟨⟨v, s₁⟩, hv, ⟨_, s₂⟩, hs, ⟨n, s₃⟩, hn, ⟨_, s₄⟩, hc, ⟨t, s₅⟩, ht, rfl, rfl⟩ := h
  have hends := (((Trims.colon hc).trans (Trims.name hn)).trans (Trims.spaces hs)).trans
    (Trims.visibility hv)
  obtain ⟨rfl, htype⟩ := typeText_eq_some ht
  exact ⟨(name_eq_some_iff.mp hn).2.1, htype, (List.sublist_append_left _ _).trans hends.sublist⟩

theorem nameTypeMethod_eq_some {s r : List Char} {l : MethodLine}
    (h : nameTypeMethod s = some (l, r)) : l.FoundIn s := by
  simp only [nameTypeMethod, bind_apply, Option.bind_eq_some_iff, pure_apply, Option.some.injEq,
    Prod.mk.injEq] at h
  obtain ⟨⟨v, s₁⟩, hv, ⟨_, s₂⟩, hs, ⟨mark, s₃⟩, hmark, ⟨n, s₄⟩, hn, ⟨_, s₅⟩, hs', ⟨ps, s₆⟩, hps,
    ⟨_, s₇⟩, hc, ⟨t, s₈⟩, ht, rfl, rfl⟩ := h
  have hends := ((((Trims.spaces hs').trans (Trims.name hn)).trans (Trims.abstractMark hmark)).trans
    (Trims.spaces hs)).trans (Trims.visibility hv)
  obtain ⟨inner, rfl, hinner, rfl⟩ := parameterList_eq_some hps
  obtain ⟨hlisted, hpname, hptype, hpparen⟩ := parameters_foundIn hinner
  have hsub := (listed_readParameters inner).2.1
  have hcolon := Trims.colon hc
  obtain ⟨rfl, htype⟩ := typeText_eq_some ht
  -- In the line the parameters come first.
  have hfound : ((readParameters inner).flatMap (fun p => p.type.toList) ++ t.toList).Sublist s := by
    have htail : t.toList.Sublist (')' :: s₆) :=
      ((List.sublist_append_left _ _).trans hcolon.sublist).trans (List.sublist_cons_self _ _)
    exact ((hsub.append htail).trans (List.sublist_cons_self _ _)).trans hends.sublist
  refine ⟨(name_eq_some_iff.mp hn).2.1, ?_, hlisted, hpname, hptype, hpparen, ?_⟩
  · intro t' ht'
    cases ht'
    exact htype
  · intro c hc
    refine hfound.subset ?_
    rw [MethodLine.typesText, List.mem_append] at hc
    exact List.mem_append.mpr hc.symm

theorem typeNameAttribute_eq_some {s r : List Char} {l : AttributeLine}
    (h : typeNameAttribute s = some (l, r)) : l.FoundIn s := by
  simp only [typeNameAttribute, bind_apply, Option.bind_eq_some_iff] at h
  obtain ⟨⟨v, s₁⟩, hv, ⟨_, s₂⟩, hs, h⟩ := h
  exact (typeNameAttributeRest_eq_some h).mono
    ((Trims.spaces hs).trans (Trims.visibility hv)).sublist

theorem typeNameMethod_eq_some {s r : List Char} {l : MethodLine}
    (h : typeNameMethod s = some (l, r)) : l.FoundIn s := by
  simp only [typeNameMethod, bind_apply, Option.bind_eq_some_iff] at h
  obtain ⟨⟨v, s₁⟩, hv, ⟨_, s₂⟩, hs, h⟩ := h
  exact (typeNameMethodRest_eq_some h).mono
    ((Trims.spaces hs).trans (Trims.visibility hv)).sublist

theorem Trims.inlineTarget : Trims inlineTarget :=
  bind visibility fun _ => bind spaces fun _ => bind name fun _ => bind colon fun _ =>
    bind visibility fun _ => bind spaces fun _ => pure _

end LineParser

/-! ### Whole lines -/

/-- Spaces around it do not keep a member from being found. -/
theorem exists_of_accept_fullLine {α : Type} {p : LineParser α} {line : List Char} {a : α}
    (h : accept (fullLine p) line = some a) : ∃ s r, s <:+ line ∧ p s = some (a, r) := by
  obtain ⟨r, hp, -⟩ := accept_fullLine_eq_some_iff.mp h
  exact ⟨_, r, List.dropWhile_suffix _, hp⟩

theorem attributeLine?_eq_some {line : List Char} {l : AttributeLine}
    (h : attributeLine? line = some l) : l.FoundIn line := by
  rw [attributeLine?, Option.or_eq_some_iff] at h
  rcases h with h | ⟨-, h⟩
  · obtain ⟨s, r, hs, hp⟩ := exists_of_accept_fullLine h
    exact (nameTypeAttribute_eq_some hp).mono hs.sublist
  · obtain ⟨s, r, hs, hp⟩ := exists_of_accept_fullLine h
    exact (typeNameAttribute_eq_some hp).mono hs.sublist

theorem methodLine?_eq_some {line : List Char} {l : MethodLine}
    (h : methodLine? line = some l) : l.FoundIn line := by
  rw [methodLine?, Option.or_eq_some_iff] at h
  rcases h with h | ⟨-, h⟩
  · obtain ⟨s, r, hs, hp⟩ := exists_of_accept_fullLine h
    exact (nameTypeMethod_eq_some hp).mono hs.sublist
  · obtain ⟨s, r, hs, hp⟩ := exists_of_accept_fullLine h
    exact (typeNameMethod_eq_some hp).mono hs.sublist

/-- A member as it may be read from a text. -/
def MemberLine.FoundIn : MemberLine → List Char → Prop
  | field l, s => l.FoundIn s
  | method l, s => l.FoundIn s

/-- **A member that was read from a line can be written.** -/
theorem memberLine?_eq_some {line : List Char} {l : MemberLine}
    (h : memberLine? line = some l) : l.FoundIn line := by
  rw [memberLine?, Option.or_eq_some_iff] at h
  rcases h with h | ⟨-, h⟩
  · obtain ⟨a, ha, rfl⟩ := Option.map_eq_some_iff.mp h
    exact attributeLine?_eq_some ha
  · obtain ⟨m, hm, rfl⟩ := Option.map_eq_some_iff.mp h
    exact methodLine?_eq_some hm

/-- So can a member that a line attaches to a type. -/
theorem inlineMember?_eq_some {line : List Char} {m : InlineMember}
    (h : inlineMember? line = some m) : m.member.FoundIn line := by
  rw [inlineMember?, inlineMethod?, Option.or_eq_some_iff] at h
  rcases h with h | ⟨-, h⟩
  · obtain ⟨s, r, hs, hp⟩ := exists_of_accept_fullLine h
    simp only [inlineAttribute, bind_apply, Option.bind_eq_some_iff, pure_apply,
      Option.some.injEq, Prod.mk.injEq] at hp
    obtain ⟨⟨⟨target, v⟩, s₁⟩, ht, ⟨l, s₂⟩, hl, rfl, rfl⟩ := hp
    exact (typeNameAttributeRest_eq_some hl).mono ((Trims.inlineTarget ht).trans hs).sublist
  · obtain ⟨s, r, hs, hp⟩ := exists_of_accept_fullLine h
    simp only [inlineMethod, bind_apply, Option.bind_eq_some_iff, pure_apply,
      Option.some.injEq, Prod.mk.injEq] at hp
    obtain ⟨⟨⟨target, v⟩, s₁⟩, ht, ⟨l, s₂⟩, hl, rfl, rfl⟩ := hp
    exact (typeNameMethodRest_eq_some hl).mono ((Trims.inlineTarget ht).trans hs).sublist

end ClassModel
