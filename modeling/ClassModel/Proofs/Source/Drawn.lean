/-
Sources that are drawn as diagrams.

The diagram of source files is written of the model that they are read into.  In that model a
type bears its name with the package of its file in front, and everything else is made of
identifiers and of the punctuation of types.  So its texts are smooth and the model is legible:
the diagram declares each type again, but under the first word of its name.

For a type in a package that word is the first segment of the package.  All classes of a
package are found as one class then, and so are all its interfaces and all its enums.
Without packages the names stay as they are.
-/
import ClassModel.Proofs.Diagram.Names
import ClassModel.Proofs.Source.Identifiers
import ClassModel.Proofs.Source.Restored

namespace ClassModel

namespace Source

/-! ### Smooth texts -/

theorem isSmoothChar_of_isIdentifierContinue {c : Char} (h : isIdentifierContinue c = true) :
    isSmoothChar c = true := by
  have hne : ∀ d, isIdentifierContinue d = false → c ≠ d := by
    rintro d hd rfl
    rw [h] at hd
    cases hd
  have hopen := hne '\x7b' (by decide +kernel)
  have hclose := hne '\x7d' (by decide +kernel)
  have hreturn := hne '\r' (by decide +kernel)
  have hfeed := hne '\n' (by decide +kernel)
  simp [isSmoothChar, isIntactChar, hopen, hclose, hreturn, hfeed]

theorem smooth_of_isIdentifier {w : List Char} (h : IsIdentifier w) : Smooth w := by
  obtain ⟨c, r, rfl, hc, hr⟩ := h
  exact Smooth.cons (isSmoothChar_of_isIdentifierContinue (isIdentifierContinue_of_start hc))
    fun d hd => isSmoothChar_of_isIdentifierContinue (hr d hd)

theorem smooth_of_isWord {w : List Char} (h : IsWord w) : Smooth w := fun c hc =>
  isSmoothChar_of_isIdentifierContinue (isIdentifierContinue_of_isWordChar (h.chars c hc))

/-- Texts behind one another, each with a separator in front. -/
theorem smooth_flatMap {α : Type} {xs : List α} {f : α → List Char} (h : ∀ x ∈ xs, Smooth (f x)) :
    Smooth (xs.flatMap f) := by
  intro c hc
  obtain ⟨x, hx, hc⟩ := List.mem_flatMap.mp hc
  exact h x hx c hc

theorem smooth_intercalate {ws : List String} (h : ∀ w ∈ ws, Smooth w.toList) :
    Smooth (String.intercalate "." ws).toList := by
  cases ws with
  | nil => exact .of_all rfl
  | cons w ws =>
      rw [toList_intercalate_cons]
      exact (h w List.mem_cons_self).append
        (smooth_flatMap fun v hv => Smooth.cons rfl (h v (List.mem_cons_of_mem _ hv)))

theorem smooth_dimsText (n : Nat) : Smooth (dimsText n).toList := by
  induction n with
  | zero => exact .of_all rfl
  | succ n ih =>
      rw [dimsText, String.toList_append]
      exact Smooth.append (.of_all rfl) ih

/-- Names with smooth texts. -/
def SmoothNames (ws : List String) : Prop :=
  ∀ w ∈ ws, Smooth w.toList

theorem Identifying.smoothNames {ws : List String} (h : Identifying ws) : SmoothNames ws :=
  fun w hw => smooth_of_isIdentifier (h w hw)

mutual

/-- The text of a type is smooth if its names are. -/
theorem TypeExpr.smooth : (t : TypeExpr) → SmoothNames t.identifiers → Smooth t.text.toList
  | .primitive name dims, h => by
      rw [TypeExpr.identifiers] at h
      rw [TypeExpr.text, String.toList_append]
      exact (h name List.mem_cons_self).append (smooth_dimsText dims)
  | .reference segments dims, h => by
      rw [TypeExpr.identifiers] at h
      rw [TypeExpr.text, String.toList_append]
      exact (smooth_classTypeText segments h).append (smooth_dimsText dims)

theorem smooth_classTypeText : (segments : List TypeSegment) →
    SmoothNames (segmentsIdentifiers segments) → Smooth (classTypeText segments).toList
  | [], _ => by
      rw [classTypeText]
      exact .of_all rfl
  | s :: r, h => by
      rw [segmentsIdentifiers] at h
      obtain ⟨hs, hr⟩ := List.forall_mem_append.mp h
      rw [classTypeText, String.toList_append]
      exact (TypeSegment.smooth s hs).append (smooth_segmentsText r hr)

theorem smooth_segmentsText : (segments : List TypeSegment) →
    SmoothNames (segmentsIdentifiers segments) → Smooth (segmentsText segments).toList
  | [], _ => by
      rw [segmentsText]
      exact .of_all rfl
  | s :: r, h => by
      rw [segmentsIdentifiers] at h
      obtain ⟨hs, hr⟩ := List.forall_mem_append.mp h
      rw [segmentsText, String.toList_append, String.toList_append]
      exact (Smooth.cons rfl (TypeSegment.smooth s hs)).append (smooth_segmentsText r hr)

theorem TypeSegment.smooth : (s : TypeSegment) → SmoothNames s.identifiers → Smooth s.text.toList
  | .plain name, h => by
      rw [TypeSegment.identifiers] at h
      rw [TypeSegment.text]
      exact h name List.mem_cons_self
  | .applied name arguments, h => by
      rw [TypeSegment.identifiers] at h
      obtain ⟨hname, harguments⟩ := List.forall_mem_cons.mp h
      rw [TypeSegment.text, String.toList_append, String.toList_append, String.toList_append]
      exact ((hname.append (.of_all rfl)).append
        (smooth_argumentsText arguments harguments)).append (.of_all rfl)

theorem smooth_argumentsText : (arguments : List TypeArgument) →
    SmoothNames (argumentsIdentifiers arguments) → Smooth (argumentsText arguments).toList
  | [], _ => by
      rw [argumentsText]
      exact .of_all rfl
  | a :: r, h => by
      rw [argumentsIdentifiers] at h
      obtain ⟨ha, hr⟩ := List.forall_mem_append.mp h
      rw [argumentsText, String.toList_append]
      exact (TypeArgument.smooth a ha).append (smooth_moreArgumentsText r hr)

theorem smooth_moreArgumentsText : (arguments : List TypeArgument) →
    SmoothNames (argumentsIdentifiers arguments) → Smooth (moreArgumentsText arguments).toList
  | [], _ => by
      rw [moreArgumentsText]
      exact .of_all rfl
  | a :: r, h => by
      rw [argumentsIdentifiers] at h
      obtain ⟨ha, hr⟩ := List.forall_mem_append.mp h
      rw [moreArgumentsText, String.toList_append, String.toList_append]
      exact (Smooth.append (.of_all rfl) (TypeArgument.smooth a ha)).append
        (smooth_moreArgumentsText r hr)

theorem TypeArgument.smooth : (a : TypeArgument) → SmoothNames a.identifiers → Smooth a.text.toList
  | .type t, h => by
      rw [TypeArgument.identifiers] at h
      rw [TypeArgument.text]
      exact TypeExpr.smooth t h
  | .wildcard, _ => by
      rw [TypeArgument.text]
      exact .of_all rfl

end

theorem TypeSegment.name_mem_identifiers (s : TypeSegment) : s.name ∈ s.identifiers := by
  cases s <;> (rw [TypeSegment.identifiers]; exact List.mem_cons_self)

theorem smooth_qualifiedName {t : ClassType} (h : Identifying (segmentsIdentifiers t)) :
    Smooth (qualifiedName t).toList := by
  refine smooth_intercalate fun w hw => ?_
  obtain ⟨s, hs, rfl⟩ := List.mem_map.mp hw
  rw [segmentsIdentifiers_eq] at h
  exact smooth_of_isIdentifier
    (h s.name (List.mem_flatMap.mpr ⟨s, hs, s.name_mem_identifiers⟩))

/-- What a type holds many of is part of its text. -/
theorem StandsForMany.smooth {t : TypeExpr} {target : String} (hmany : StandsForMany t target)
    (h : Identifying t.identifiers) : Smooth target.toList := by
  cases hmany with
  | array hdims =>
      cases t with
      | primitive name dims =>
          rw [TypeExpr.identifiers] at h
          exact smooth_of_isIdentifier (h name List.mem_cons_self)
      | reference segments dims =>
          rw [TypeExpr.identifiers] at h
          exact smooth_classTypeText segments h.smoothNames
  | list front arguments =>
      rw [TypeExpr.identifiers, segmentsIdentifiers_eq] at h
      have hsegment : Identifying (TypeSegment.applied "ArrayList" arguments).identifiers :=
        fun w hw => h w (List.mem_flatMap.mpr ⟨_, List.mem_concat_self, hw⟩)
      rw [TypeSegment.identifiers] at hsegment
      exact smooth_argumentsText arguments (Identifying.smoothNames (List.forall_mem_cons.mp hsegment).2)

/-! ### Members -/

section Members

variable {f : Field} {p : Procedure}

/-- The types of a field are those of its declaration with more dimensions. -/
theorem identifying_entries (h : Identifying f.identifiers) :
    ∀ e ∈ f.entries, IsIdentifier e.1.toList ∧ Identifying e.2.identifiers := by
  obtain ⟨htype, hnames⟩ := List.forall_mem_append.mp h
  intro e he
  obtain ⟨d, hd, rfl⟩ := List.mem_map.mp he
  refine ⟨hnames d.name (List.mem_map_of_mem hd), ?_⟩
  rw [identifiers_addDims]
  exact htype

theorem smooth_attributes (h : Identifying f.identifiers) :
    ∀ a ∈ f.attributes, Smooth a.name.toList ∧ Smooth a.type.toList := by
  intro a ha
  obtain ⟨e, he, hattribute⟩ := List.mem_filterMap.mp ha
  obtain ⟨hname, htype⟩ := identifying_entries h e he
  dsimp only at hattribute
  split at hattribute
  · cases hattribute
  · cases hattribute
    exact ⟨smooth_of_isIdentifier hname, e.2.smooth htype.smoothNames⟩

/-- The associations of a field belong to the class of the field. -/
theorem legible_fieldAssociations (h : Identifying f.identifiers) {owner : String}
    (htitle : IsTitle owner) (howner : Smooth owner.toList) :
    ∀ a ∈ f.associations owner, a.Legible := by
  intro a ha
  obtain ⟨e, he, hassociation⟩ := List.mem_filterMap.mp ha
  obtain ⟨hname, htype⟩ := identifying_entries h e he
  obtain ⟨target, htarget, rfl⟩ := Option.map_eq_some_iff.mp hassociation
  exact ⟨htitle, howner, (manyOf?_eq_some_iff.mp htarget).smooth htype, smooth_of_isIdentifier hname⟩

theorem smooth_parameter {f : Formal} (h : Identifying f.identifiers) :
    Smooth f.parameter.name.toList ∧ Smooth f.parameter.type.toList := by
  obtain ⟨hname, htype⟩ := List.forall_mem_cons.mp h
  refine ⟨smooth_of_isIdentifier hname, ?_⟩
  unfold Formal.parameter
  cases hf : f.type with
  | none =>
      show Smooth "UnknownType".toList
      exact .of_all rfl
  | some t =>
      rw [hf] at htype
      refine TypeExpr.smooth _ ?_
      rw [identifiers_addDims]
      exact fun w hw => smooth_of_isIdentifier (htype w (List.mem_append_left _ hw))

theorem legible_methodWith (h : Identifying p.identifiers) (v : Visibility) :
    (p.methodWith v).Legible := by
  obtain ⟨hname, hrest⟩ := List.forall_mem_cons.mp h
  obtain ⟨hresult, hparameters⟩ := List.forall_mem_append.mp hrest
  refine ⟨smooth_of_isIdentifier hname, ?_, fun q hq => ?_⟩
  · unfold Procedure.methodWith
    cases hp : p.result with
    | none =>
        show Smooth "void".toList
        exact .of_all rfl
    | some t =>
        rw [hp] at hresult
        exact t.smooth fun w hw =>
          smooth_of_isIdentifier (hresult w (List.mem_append_left _ hw))
  · obtain ⟨f, hf, rfl⟩ := List.mem_map.mp hq
    exact smooth_parameter fun w hw => hparameters w (List.mem_flatMap.mpr ⟨f, hf, hw⟩)

end Members

/-! ### Types -/

theorem legible_addAttribute {c : Class} (hc : c.Legible) {a : Attribute}
    (ha : Smooth a.name.toList ∧ Smooth a.type.toList) : (c.addAttribute a).Legible := by
  refine { hc with attributes := fun b hb => ?_ }
  rcases OrderedMap.mem_values_insert hb with rfl | hb
  · exact ha
  · exact hc.attributes b hb

theorem legible_addMethod {c : Class} (hc : c.Legible) {m : ClassModel.Method} (hm : m.Legible) :
    (c.addMethod m).Legible := by
  refine { hc with methods := fun n hn => ?_ }
  rcases OrderedMap.mem_values_insert hn with rfl | hn
  · exact hm
  · exact hc.methods n hn

/-- Each member keeps a class legible. -/
theorem legible_addMember {c : Class} (hc : c.Legible) {m : Member}
    (hm : Identifying m.identifiers) : (addMember c m).Legible := by
  cases m with
  | field f =>
      rw [Member.identifiers] at hm
      exact List.foldlRecOn f.attributes Class.addAttribute hc fun d hd a ha =>
        legible_addAttribute hd (smooth_attributes hm a ha)
  | method p =>
      rw [Member.identifiers] at hm
      exact legible_addMethod hc (legible_methodWith hm _)
  | constructor | block | type => exact hc

theorem legible_addInterfaceMember {i : Interface} (hi : i.Legible) {m : Member}
    (hm : Identifying m.identifiers) : (addInterfaceMember i m).Legible := by
  cases m with
  | method p =>
      rw [Member.identifiers] at hm
      refine { hi with methods := fun n hn => ?_ }
      rcases OrderedMap.mem_values_insert hn with rfl | hn
      · exact legible_methodWith hm _
      · exact hi.methods n hn
  | field | constructor | block | type => exact hi

/-- The texts of clauses are smooth if their names are. -/
theorem smooth_clausesText {c : Class} (hsuper : ∀ p ∈ c.superclass, Smooth p.toList)
    (hinterfaces : ∀ i ∈ c.interfaces, Smooth i.toList) : Smooth (clausesText c) := by
  refine Smooth.append ?_ ?_
  · cases h : c.superclass with
    | none => exact .of_all rfl
    | some p => exact Smooth.cons rfl (Smooth.append (.of_all rfl)
        (Smooth.cons rfl (hsuper p h)))
  · cases h : c.interfaces with
    | nil => exact .of_all rfl
    | cons i is =>
        rw [h] at hinterfaces
        refine Smooth.cons rfl (Smooth.append (.of_all rfl) (Smooth.cons rfl
          ((hinterfaces i List.mem_cons_self).append (smooth_flatMap fun n hn => ?_))))
        exact Smooth.cons rfl (Smooth.cons rfl (hinterfaces n (List.mem_cons_of_mem _ hn)))

section Types

variable {package : List String} {name : String}

/-- A name in a package is the last of the segments that have dots between them. -/
theorem qualify_eq_intercalate (package : List String) (name : String) :
    qualify package name = String.intercalate "." (package ++ [name]) := by
  cases package with
  | nil => exact (String.intercalate_singleton ..).symm
  | cons s ss =>
      show String.intercalate "." (s :: ss) ++ "." ++ name = _
      rw [← String.toList_inj, String.toList_append, String.toList_append, List.cons_append,
        toList_intercalate_cons, toList_intercalate_cons, List.flatMap_append]
      simp

/-- A name in a package goes on behind the first segment of the package. -/
theorem exists_qualify (s : String) (ss : List String) (name : String) :
    ∃ r, (qualify (s :: ss) name).toList = s.toList ++ '.' :: r := by
  rw [qualify_eq_intercalate, List.cons_append, toList_intercalate_cons]
  cases ss with
  | nil => exact ⟨_, rfl⟩
  | cons v vs => exact ⟨_, rfl⟩

/-- The first word of a name in a package is the first segment of the package. -/
theorem leadingWord_qualify {s : String} (hs : IsWord s.toList) (ss : List String) (name : String) :
    leadingWord (qualify (s :: ss) name) = s := by
  obtain ⟨r, hr⟩ := exists_qualify s ss name
  rw [leadingWord, hr, takeWhile_append_of_stops hs.chars (stops_cons.mpr rfl),
    String.ofList_toList]

theorem isTitle_qualify (hpackage : ∀ s ∈ package, IsWord s.toList) (hname : IsWord name.toList) :
    IsTitle (qualify package name) := by
  cases package with
  | nil => exact (IsTitle.of_isWord hname).1
  | cons s ss =>
      have hs := hpackage s List.mem_cons_self
      obtain ⟨r, hr⟩ := exists_qualify s ss name
      refine ⟨by rwa [leadingWord_qualify hs], fun c hc => ?_⟩
      rw [hr, dropWhile_append_of_stops hs.chars (stops_cons.mpr rfl)] at hc
      cases hc
      rfl

theorem smooth_qualify (hpackage : ∀ s ∈ package, IsWord s.toList) (hname : IsWord name.toList) :
    Smooth (qualify package name).toList := by
  unfold qualify
  split
  · exact smooth_of_isWord hname
  · rw [String.toList_append, String.toList_append]
    exact ((smooth_intercalate fun s hs => smooth_of_isWord (hpackage s hs)).append
      (.of_all rfl)).append (smooth_of_isWord hname)

/-- The class of a declaration is legible. -/
theorem legible_classOf (hpackage : ∀ s ∈ package, IsWord s.toList) (hname : IsWord name.toList)
    (ms : List Modifier) {superclass : Option ClassType} {interfaces : List ClassType}
    {members : List Member}
    (hsuper : ∀ t ∈ superclass, Identifying (segmentsIdentifiers t))
    (hinterfaces : ∀ t ∈ interfaces, Identifying (segmentsIdentifiers t))
    (hmembers : ∀ m ∈ members, Identifying m.identifiers) :
    (classOf package ms name superclass interfaces members).Legible := by
  have hclauses : ∀ c : Class, c.superclass = superclass.map qualifiedName →
      c.interfaces = interfaces.map qualifiedName → Smooth (clausesText c) := by
    intro c hs hi
    refine smooth_clausesText (fun p hp => ?_) fun i hi' => ?_
    · rw [hs] at hp
      obtain ⟨t, ht, rfl⟩ := Option.map_eq_some_iff.mp hp
      exact smooth_qualifiedName (hsuper t ht)
    · rw [hi] at hi'
      obtain ⟨t, ht, rfl⟩ := List.mem_map.mp hi'
      exact smooth_qualifiedName (hinterfaces t ht)
  unfold classOf
  refine List.foldlRecOn members addMember ?_ fun c hc m hm => legible_addMember hc (hmembers m hm)
  exact ⟨isTitle_qualify hpackage hname,
    (smooth_qualify hpackage hname).append (hclauses _ rfl rfl),
    fun _ ha => absurd ha List.not_mem_nil, fun _ hm => absurd hm List.not_mem_nil⟩

theorem legible_interfaceOf (hpackage : ∀ s ∈ package, IsWord s.toList)
    (hname : IsWord name.toList) (ms : List Modifier) {members : List Member}
    (hmembers : ∀ m ∈ members, Identifying m.identifiers) :
    (interfaceOf package ms name members).Legible := by
  unfold interfaceOf
  refine List.foldlRecOn members addInterfaceMember ?_ fun i hi m hm =>
    legible_addInterfaceMember hi (hmembers m hm)
  exact ⟨isTitle_qualify hpackage hname, smooth_qualify hpackage hname,
    fun _ hm => absurd hm List.not_mem_nil⟩

theorem legible_enumOf (hpackage : ∀ s ∈ package, IsWord s.toList) (hname : IsWord name.toList)
    {constants : List String} (hconstants : Identifying constants) :
    (enumOf package name constants).Legible := by
  unfold enumOf
  refine List.foldlRecOn constants _ ?_ fun e he c hc => ?_
  · exact ⟨isTitle_qualify hpackage hname, smooth_qualify hpackage hname,
      fun _ hp => absurd hp List.not_mem_nil⟩
  · refine { he with properties := fun p hp => ?_ }
    rcases OrderedMap.mem_values_insert hp with rfl | hp
    · exact ⟨smooth_of_isIdentifier (hconstants c hc), .of_all rfl⟩
    · exact he.properties p hp

end Types

/-! ### Names of declarations -/

theorem name_classOf (package : List String) (ms : List Modifier) (name : String)
    (superclass : Option ClassType) (interfaces : List ClassType) (members : List Member) :
    (classOf package ms name superclass interfaces members).name = qualify package name := by
  have hmember : ∀ c m, (addMember c m).name = c.name := by
    intro c m
    cases m with
    | field f => exact foldl_preserves (fun d a => d.name_addAttribute a) f.attributes c
    | method p => exact c.name_addMethod p.method
    | constructor | block | type => rfl
  unfold classOf
  rw [foldl_preserves hmember]

theorem name_interfaceOf (package : List String) (ms : List Modifier) (name : String)
    (members : List Member) : (interfaceOf package ms name members).name = qualify package name := by
  have hmember : ∀ i m, (addInterfaceMember i m).name = i.name := by
    intro i m
    cases m with
    | method p => exact i.name_addMethod p.interfaceMethod
    | field | constructor | block | type => rfl
  unfold interfaceOf
  rw [foldl_preserves hmember]

theorem name_enumOf (package : List String) (name : String) (constants : List String) :
    (enumOf package name constants).name = qualify package name := by
  unfold enumOf
  exact foldl_preserves (fun (e : Enum) (c : String) => e.name_addProperty { name := c })
    constants _

/-! ### Registering a declaration -/

/-- A map whose values stand under their own names, which satisfy a condition. -/
def NamedBy {α : Type} (name : α → String) (P : String → Prop) (m : OrderedMap α) : Prop :=
  ∀ e ∈ m.entries, e.1 = name e.2 ∧ P (name e.2)

theorem NamedBy.insert {α : Type} {name : α → String} {P : String → Prop} {m : OrderedMap α}
    (h : NamedBy name P m) {v : α} (hv : P (name v)) : NamedBy name P (m.insert (name v) v) := by
  intro e he
  rcases OrderedMap.mem_place he with rfl | he
  · exact ⟨rfl, hv⟩
  · exact h e he

/-- Distinct words are read as they are. -/
theorem NamedBy.eraseDups_leadingWord {α : Type} {name : α → String} {m : OrderedMap α}
    (h : NamedBy name (fun w => IsWord w.toList) m) :
    ((m.values.map name).map leadingWord).eraseDups = m.values.map name := by
  refine eraseDups_map_leadingWord (fun w hw => ?_)
    (OrderedMap.nodup_values fun e he => (h e he).1)
  obtain ⟨v, hv, rfl⟩ := List.mem_map.mp hw
  obtain ⟨e, he, rfl⟩ := List.mem_map.mp hv
  exact (h e he).2

/-- A legible model whose types stand under their own names, which satisfy a condition. -/
structure Drawn (P : String → Prop) (m : Model) : Prop where
  legible : m.Legible
  classes : NamedBy Class.name P m.classes
  interfaces : NamedBy Interface.name P m.interfaces
  enums : NamedBy Enum.name P m.enums

namespace Drawn

variable {P : String → Prop} {m : Model}

theorem empty : Drawn P {} := by
  refine ⟨⟨?_, ?_, ?_, ?_⟩, ?_, ?_, ?_⟩ <;> exact fun _ h => absurd h List.not_mem_nil

theorem addAssociation (h : Drawn P m) {a : Association} (ha : a.Legible) :
    Drawn P (m.addAssociation a) := by
  refine { h with legible := { h.legible with associations := fun b hb => ?_ } }
  rcases List.mem_append.mp hb with hb | hb
  · exact h.legible.associations b hb
  · rw [List.mem_singleton.mp hb]
    exact ha

theorem addClass (h : Drawn P m) {c : Class} (hc : c.Legible) (hname : P c.name) :
    Drawn P (m.addClass c) := by
  refine { h with
    legible := { h.legible with classes := fun d hd => ?_ }
    classes := h.classes.insert hname }
  rcases OrderedMap.mem_values_insert hd with rfl | hd
  · exact hc
  · exact h.legible.classes d hd

theorem addInterface (h : Drawn P m) {i : Interface} (hi : i.Legible) (hname : P i.name) :
    Drawn P (m.addInterface i) := by
  refine { h with
    legible := { h.legible with interfaces := fun d hd => ?_ }
    interfaces := h.interfaces.insert hname }
  rcases OrderedMap.mem_values_insert hd with rfl | hd
  · exact hi
  · exact h.legible.interfaces d hd

theorem addEnum (h : Drawn P m) {e : Enum} (he : e.Legible) (hname : P e.name) :
    Drawn P (m.addEnum e) := by
  refine { h with
    legible := { h.legible with enums := fun d hd => ?_ }
    enums := h.enums.insert hname }
  rcases OrderedMap.mem_values_insert hd with rfl | hd
  · exact he
  · exact h.legible.enums d hd

/-- A declaration of words adds a type that is legible, and associations that are. -/
theorem register (h : Drawn P m) {package : List String} {d : Declaration}
    (hpackage : ∀ s ∈ package, IsWord s.toList) (hname : IsWord d.name.toList)
    (hd : Identifying d.identifiers) (hqualified : P (qualify package d.name)) :
    Drawn P (register package m d).value := by
  cases d with
  | ofClass ms name superclass interfaces members =>
      rw [Declaration.identifiers, membersIdentifiers_eq] at hd
      obtain ⟨-, hrest⟩ := List.forall_mem_cons.mp hd
      obtain ⟨hsuper, hrest⟩ := List.forall_mem_append.mp hrest
      obtain ⟨hinterfaces, hmembers⟩ := List.forall_mem_append.mp hrest
      have hmember : ∀ member ∈ members, Identifying member.identifiers := fun member hm w hw =>
        hmembers w (List.mem_flatMap.mpr ⟨member, hm, hw⟩)
      have hassociation : ∀ a ∈ members.flatMap (Member.associations (qualify package name)),
          a.Legible := by
        intro a ha
        obtain ⟨member, hm, ha⟩ := List.mem_flatMap.mp ha
        have hidentifying := hmember member hm
        cases member with
        | field f =>
            rw [Member.identifiers] at hidentifying
            exact legible_fieldAssociations hidentifying (isTitle_qualify hpackage hname)
              (smooth_qualify hpackage hname) a ha
        | method | constructor | block | type => cases ha
      refine Drawn.addClass (List.foldlRecOn _ Model.addAssociation h fun m' hm' a ha =>
        hm'.addAssociation (hassociation a ha)) ?_ ?_
      · exact legible_classOf hpackage hname ms
          (fun t ht w hw => hsuper w (List.mem_flatMap.mpr ⟨t, Option.mem_toList.mpr ht, hw⟩))
          (fun t ht w hw => hinterfaces w (List.mem_flatMap.mpr ⟨t, ht, hw⟩)) hmember
      · rw [name_classOf]
        exact hqualified
  | ofInterface ms name parents members =>
      rw [Declaration.identifiers, membersIdentifiers_eq] at hd
      obtain ⟨-, hrest⟩ := List.forall_mem_cons.mp hd
      obtain ⟨-, hmembers⟩ := List.forall_mem_append.mp hrest
      refine Drawn.addInterface h ?_ ?_
      · exact legible_interfaceOf hpackage hname ms fun member hm w hw =>
          hmembers w (List.mem_flatMap.mpr ⟨member, hm, hw⟩)
      · rw [name_interfaceOf]
        exact hqualified
  | ofEnum ms name interfaces constants members =>
      rw [Declaration.identifiers] at hd
      obtain ⟨-, hrest⟩ := List.forall_mem_cons.mp hd
      obtain ⟨hinterfaces, hrest⟩ := List.forall_mem_append.mp hrest
      obtain ⟨hconstants, -⟩ := List.forall_mem_append.mp hrest
      -- An enum is associated under its bare name, whatever the package.
      refine Drawn.addEnum (List.foldlRecOn interfaces _ h fun m' hm' t ht =>
        hm'.addAssociation ⟨(IsTitle.of_isWord hname).1, smooth_of_isWord hname,
          smooth_qualifiedName fun w hw => hinterfaces w (List.mem_flatMap.mpr ⟨t, ht, hw⟩),
          .of_all rfl⟩) ?_ ?_
      · exact legible_enumOf hpackage hname hconstants
      · rw [name_enumOf]
        exact hqualified

end Drawn

/-- A source file with words for the segments of its package and for the names of its types. -/
structure CompilationUnit.Worded (u : CompilationUnit) : Prop where
  package : ∀ s ∈ u.package, IsWord s.toList
  types : ∀ d ∈ u.types, IsWord d.name.toList

end Source

open Source

/-! ### Diagrams of sources -/

namespace Conversion

/-- What holds of no types at all, and goes on to hold whatever declaration of a file is
registered, holds of the model of the files. -/
theorem sourcesToModel_induction {motive : Model → Prop} {files : List SourceFile}
    (hempty : motive {})
    (hregister : ∀ f ∈ files, ∀ u, CompilationUnit.read f.text = .ok u → ∀ d ∈ u.types, ∀ m,
      motive m → motive (register u.package m d).value) :
    motive (sourcesToModel files).value := by
  rw [value_sourcesToModel]
  refine List.foldlRecOn files readInto hempty fun m hm f hf => ?_
  unfold readInto
  cases hread : CompilationUnit.read f.text with
  | error e => exact hm
  | ok u =>
      show motive (u.types.foldlM (register u.package) m).value
      rw [Traced.value_foldlM]
      exact List.foldlRecOn u.types _ hm fun m' hm' d hd => hregister f hf u hread d hd m' hm'

/-- The model of source files of words is legible, and its types bear the names of declarations
with their packages. -/
theorem drawn_sourcesToModel {P : String → Prop} {files : List SourceFile}
    (hfiles : ∀ f ∈ files, ∀ u, CompilationUnit.read f.text = .ok u → u.Worded)
    (hnames : ∀ f ∈ files, ∀ u, CompilationUnit.read f.text = .ok u → ∀ d ∈ u.types,
      P (qualify u.package d.name)) : Drawn P (sourcesToModel files).value := by
  refine sourcesToModel_induction Drawn.empty fun f hf u hread d hd m hm => ?_
  have hworded := hfiles f hf u hread
  have hidentifiers := (List.forall_mem_append.mp (identifying_read hread)).2
  exact hm.register hworded.package (hworded.types d hd)
    (fun w hw => hidentifiers w (List.mem_flatMap.mpr ⟨d, hd, hw⟩)) (hnames f hf u hread d hd)

/-- **The diagram of source files declares their types again, each under the first word of its
name, and so under its name if no file has a package.** -/
theorem names_read_sourcesToDiagram {files : List SourceFile}
    (hfiles : ∀ f ∈ files, ∀ u, CompilationUnit.read f.text = .ok u → u.Worded) :
    (Diagram.read (sourcesToDiagram files).value).value.names =
        (sourcesToModel files).value.names.written ∧
      ((∀ f ∈ files, ∀ u, CompilationUnit.read f.text = .ok u → u.package = []) →
        (Diagram.read (sourcesToDiagram files).value).value.names =
          (sourcesToModel files).value.names) := by
  have hnames : (Diagram.read (sourcesToDiagram files).value).value.names =
      (sourcesToModel files).value.names.written :=
    names_read_render (drawn_sourcesToModel (P := fun _ => True) hfiles
      fun _ _ _ _ _ _ => trivial).legible
  refine ⟨hnames, fun hpackage => ?_⟩
  have hdrawn : Drawn (fun w => IsWord w.toList) (sourcesToModel files).value := by
    refine drawn_sourcesToModel hfiles fun f hf u hread d hd => ?_
    rw [hpackage f hf u hread]
    exact (hfiles f hf u hread).types d hd
  rw [hnames]
  exact Names.ext hdrawn.classes.eraseDups_leadingWord hdrawn.interfaces.eraseDups_leadingWord
    hdrawn.enums.eraseDups_leadingWord

/-- A file with an empty class, in a package or in none. -/
def emptyClassFile (package? : Bool) (name : String) : SourceFile where
  path := name ++ ".java"
  text := (if package? then "package lib; " else "") ++ ("class " ++ name ++ " \x7b\x7d")

/-- The tree of such a file. -/
def emptyClassUnit (package? : Bool) (name : String) : CompilationUnit :=
  ⟨if package? then ["lib"] else [], [], [.ofClass [] name none [] []]⟩

theorem read_emptyClassFile (package? : Bool) {name : String} (hname : IsName name) :
    CompilationUnit.read (emptyClassFile package? name).text =
      .ok (emptyClassUnit package? name) := by
  have hdeclaration : LaidOut [.word "class", .word name, .symbol ['\x7b'], .symbol ['\x7d']]
      ("class".toList ++ ' ' :: (name.toList ++ ' ' :: (['\x7b'] ++ (['\x7d'] ++ [])))) :=
    .word (by decide) rfl (.word hname.identifier rfl
      (.symbol (by decide) (.symbol (by decide) .nil)))
  have hpackage : ∀ s ∈ (if package? then ["lib"] else []), IsName s := by
    cases package? <;> decide
  refine read_of_laidOut ⟨hpackage, fun p hp => absurd hp List.not_mem_nil, fun d hd => ?_⟩ ?_
  · rw [List.mem_singleton.mp hd, Declaration.Proper, properMembers]
    exact ⟨hname, fun t ht => absurd ht (by simp), fun t ht => absurd ht List.not_mem_nil, trivial⟩
  · cases package? with
    | false =>
        have htokens : (emptyClassUnit false name).tokens =
            [.word "class", .word name, .symbol ['\x7b'], .symbol ['\x7d']] := by
          simp [emptyClassUnit, CompilationUnit.tokens, packageTokens, Declaration.tokens,
            superclassTokens, clauseTokens, membersTokens]
        have htext : (emptyClassFile false name).text.toList = "class".toList ++ ' ' ::
            (name.toList ++ ' ' :: (['\x7b'] ++ (['\x7d'] ++ []))) := by
          simp [emptyClassFile, String.toList_append]
        rw [htokens, htext]
        exact hdeclaration
    | true =>
        have htokens : (emptyClassUnit true name).tokens =
            .word "package" :: .word "lib" :: .symbol [';'] ::
              [.word "class", .word name, .symbol ['\x7b'], .symbol ['\x7d']] := by
          simp [emptyClassUnit, CompilationUnit.tokens, packageTokens, separated,
            Declaration.tokens, superclassTokens, clauseTokens, membersTokens]
        have htext : (emptyClassFile true name).text.toList = "package".toList ++ ' ' ::
            ("lib".toList ++ ([';'] ++ ' ' :: ("class".toList ++ ' ' ::
              (name.toList ++ ' ' :: (['\x7b'] ++ (['\x7d'] ++ [])))))) := by
          simp [emptyClassFile, String.toList_append]
        rw [htokens, htext]
        exact .word (by decide) rfl (.wordEnd (by decide) rfl
          (.symbol (by decide) (.white rfl hdeclaration)))

/-- Two classes of one package, or of none. -/
def bookFiles (package? : Bool) : List SourceFile :=
  [emptyClassFile package? "Book", emptyClassFile package? "Page"]

theorem read_bookFiles {package? : Bool} {f : SourceFile} (hf : f ∈ bookFiles package?)
    {u : CompilationUnit} (hu : CompilationUnit.read f.text = .ok u) :
    ∃ name ∈ ["Book", "Page"], u = emptyClassUnit package? name := by
  rcases List.mem_cons.mp hf with rfl | hf
  · rw [read_emptyClassFile package? (by decide)] at hu
    cases hu
    exact ⟨"Book", by decide, rfl⟩
  · rw [List.mem_singleton.mp hf, read_emptyClassFile package? (by decide)] at hu
    cases hu
    exact ⟨"Page", by decide, rfl⟩

theorem worded_bookFiles (package? : Bool) : ∀ f ∈ bookFiles package?, ∀ u,
    CompilationUnit.read f.text = .ok u → u.Worded := by
  intro f hf u hu
  obtain ⟨name, hname, rfl⟩ := read_bookFiles hf hu
  have hword : ∀ w ∈ ["Book", "Page"], IsWord w.toList := by decide
  have hpackage : ∀ s ∈ (if package? then ["lib"] else []), IsWord s.toList := by
    cases package? <;> decide
  refine ⟨hpackage, fun d hd => ?_⟩
  rw [List.mem_singleton.mp hd]
  exact hword name hname

theorem names_read_sourcesToDiagram_bookFiles :
    (∀ package?, ∀ f ∈ bookFiles package?, ∀ u,
        CompilationUnit.read f.text = .ok u → u.Worded) ∧
      (∀ f ∈ bookFiles false, ∀ u, CompilationUnit.read f.text = .ok u → u.package = []) ∧
      (Diagram.read (sourcesToDiagram (bookFiles true)).value).value.names =
        (sourcesToModel (bookFiles true)).value.names.written ∧
      (Diagram.read (sourcesToDiagram (bookFiles false)).value).value.names =
        (sourcesToModel (bookFiles false)).value.names := by
  have hpackage : ∀ f ∈ bookFiles false, ∀ u,
      CompilationUnit.read f.text = .ok u → u.package = [] := by
    intro f hf u hu
    obtain ⟨name, -, rfl⟩ := read_bookFiles hf hu
    rfl
  exact ⟨worded_bookFiles, hpackage, (names_read_sourcesToDiagram (worded_bookFiles true)).1,
    (names_read_sourcesToDiagram (worded_bookFiles false)).2 hpackage⟩

/-- Two classes of a package are read as one class. -/
theorem names_read_sourcesToDiagram_bookFiles_ne :
    (∀ f ∈ bookFiles true, ∀ u, CompilationUnit.read f.text = .ok u →
        ∀ w ∈ u.identifiers, IsWord w.toList) ∧
      (sourcesToModel (bookFiles true)).value.names =
        { classes := ["lib.Book", "lib.Page"], interfaces := [], enums := [] } ∧
      (Diagram.read (sourcesToDiagram (bookFiles true)).value).value.names =
        { classes := ["lib"], interfaces := [], enums := [] } := by
  have hmodel : (sourcesToModel (bookFiles true)).value.names =
      { classes := ["lib.Book", "lib.Page"], interfaces := [], enums := [] } := by
    rw [value_sourcesToModel, bookFiles, List.foldl_cons, List.foldl_cons, List.foldl_nil]
    unfold readInto
    rw [read_emptyClassFile true (by decide), read_emptyClassFile true (by decide)]
    rfl
  refine ⟨fun f hf u hu => ?_, hmodel, ?_⟩
  · obtain ⟨name, hname, rfl⟩ := read_bookFiles hf hu
    have hword : ∀ w ∈ ["lib", "Book", "Page"], IsWord w.toList := by decide
    intro w hw
    simp [CompilationUnit.identifiers, emptyClassUnit, Declaration.identifiers,
      membersIdentifiers] at hw
    rcases hw with rfl | rfl
    · exact hword "lib" (by decide)
    · exact hword w (List.mem_cons_of_mem _ hname)
  · have hlegible := (drawn_sourcesToModel (P := fun _ => True) (worded_bookFiles true)
      fun _ _ _ _ _ _ => trivial).legible
    have hread := names_read_render hlegible
    rw [hmodel] at hread
    exact hread.trans (by decide)

end Conversion

end ClassModel
