/-
Source files that are left out or read in another order.

Each file adds its declarations to the model, and a file that does not read has none.  So it may
as well be missing, but for the warning that it is passed over.

The order of the files shows in two places only.  Entities and associations stand in the order
of the files, and of several entities of one kind and name the last one counts.  As long as no
two files declare the same type, what stands under a name does not depend on the order.
-/
import ClassModel.Proofs.Source.Drawn

namespace ClassModel

/-! ### Warnings -/

namespace Traced

variable {α β : Type}

@[simp]
theorem warnings_bind (x : Traced α) (f : α → Traced β) :
    (x >>= f).warnings = x.warnings ++ (f x.value).warnings := by
  unfold warnings
  rw [events_bind, List.filter_append]

@[simp]
theorem warnings_pure (a : α) : (pure a : Traced α).warnings = [] := rfl

@[simp]
theorem warnings_map (g : α → β) (x : Traced α) : (g <$> x).warnings = x.warnings := by
  unfold warnings
  rw [events_map]

@[simp]
theorem warnings_within (a : Activity) (x : Traced α) : (x.within a).warnings = x.warnings := by
  unfold warnings
  rw [events_within]

theorem warnings_ofEvents (a : α) (es : List Event) :
    (ofEvents a es).warnings = es.filter fun e => e.level = .warn := by
  unfold warnings
  rw [events_ofEvents]

@[simp]
theorem warnings_emit (e : Event) :
    (emit e).warnings = if e.level = .warn then [e] else [] := by
  unfold emit
  rw [warnings_ofEvents, List.filter_cons]
  simp

/-- If what a step warns of does not depend on how far the steps have come, they warn one after
the other. -/
theorem warnings_foldlM {f : β → α → Traced β} {w : α → List Event}
    (h : ∀ b a, (f b a).warnings = w a) (l : List α) (b : β) :
    (l.foldlM f b).warnings = l.flatMap w := by
  induction l generalizing b with
  | nil => rfl
  | cons a l ih => rw [List.foldlM_cons, warnings_bind, h, ih, List.flatMap_cons]

end Traced

/-! ### Declarations -/

namespace Source

/-- What a declaration of a file declares, under the name with the package in front of it. -/
def Declaration.declared (package : List String) : Declaration → Declared
  | .ofClass _ name _ _ _ => .ofClass (qualify package name)
  | .ofInterface _ name _ _ => .ofInterface (qualify package name)
  | .ofEnum _ name _ _ _ => .ofEnum (qualify package name)

/-- The class that a declaration registers. -/
def Declaration.class? (package : List String) : Declaration → Option Class
  | .ofClass ms name superclass interfaces members =>
      some (classOf package ms name superclass interfaces members)
  | _ => none

/-- The interface that a declaration registers. -/
def Declaration.interface? (package : List String) : Declaration → Option Interface
  | .ofInterface ms name _ members => some (interfaceOf package ms name members)
  | _ => none

/-- The enum that a declaration registers. -/
def Declaration.enum? (package : List String) : Declaration → Option Enum
  | .ofEnum _ name _ constants _ => some (enumOf package name constants)
  | _ => none

/-- The associations that a declaration appends. -/
def Declaration.associations (package : List String) : Declaration → List Association
  | .ofClass _ name _ _ members =>
      members.flatMap (Member.associations (qualify package name))
  | .ofInterface .. => []
  | .ofEnum _ name interfaces _ _ => interfaces.map fun parent =>
      { left := name, right := qualifiedName parent, separator := "-->" }

/-- Register the type of a declaration without its associations. -/
def Declaration.enter (package : List String) (m : Model) : Declaration → Model
  | .ofClass ms name superclass interfaces members =>
      m.addClass (classOf package ms name superclass interfaces members)
  | .ofInterface ms name _ members => m.addInterface (interfaceOf package ms name members)
  | .ofEnum _ name _ constants _ => m.addEnum (enumOf package name constants)

/-- A declaration appends its associations and registers its type. -/
theorem value_register (package : List String) (m : Model) (d : Declaration) :
    (register package m d).value =
      d.enter package { m with associations := m.associations ++ d.associations package } := by
  cases d with
  | ofClass ms name superclass interfaces members =>
      unfold register
      rw [Traced.value_ofEvents, foldl_addAssociation]
      rfl
  | ofInterface ms name parents members =>
      have hnone : m.associations ++ [] = m.associations := List.append_nil _
      show m.addInterface _ = ({ m with associations := m.associations ++ [] } : Model).addInterface _
      rw [hnone]
  | ofEnum ms name interfaces constants members =>
      unfold register
      rw [Traced.value_pure, ← List.foldl_map (f := fun parent : ClassType =>
        ({ left := name, right := qualifiedName parent, separator := "-->" } : Association)) (g := Model.addAssociation),
        foldl_addAssociation]
      rfl

theorem associations_register (package : List String) (m : Model) (d : Declaration) :
    (register package m d).value.associations = m.associations ++ d.associations package := by
  rw [value_register]
  cases d <;> rfl

/-- A map of the model that a declaration leaves alone or inserts into, under a name that it
declares. -/
structure Collects {α : Type} (part : Model → OrderedMap α)
    (entity? : List String → Declaration → Option α) (key : α → String)
    (tag : String → Declared) : Prop where
  register : ∀ package m d, part (register package m d).value =
    (entity? package d).elim (part m) fun v => (part m).insert (key v) v
  declared : ∀ package d v, entity? package d = some v → d.declared package = tag (key v)

theorem collects_classes :
    Collects Model.classes Declaration.class? Class.name Declared.ofClass where
  register := by
    intro package m d
    rw [value_register]
    cases d <;> rfl
  declared := by
    intro package d v hv
    cases d <;> cases hv
    rw [name_classOf]
    rfl

theorem collects_interfaces :
    Collects Model.interfaces Declaration.interface? Interface.name Declared.ofInterface where
  register := by
    intro package m d
    rw [value_register]
    cases d <;> rfl
  declared := by
    intro package d v hv
    cases d <;> cases hv
    rw [name_interfaceOf]
    rfl

theorem collects_enums : Collects Model.enums Declaration.enum? Enum.name Declared.ofEnum where
  register := by
    intro package m d
    rw [value_register]
    cases d <;> rfl
  declared := by
    intro package d v hv
    cases d <;> cases hv
    rw [name_enumOf]
    rfl

end Source

open Source

/-! ### Files -/

namespace SourceFile

/-- The file reads as a compilation unit. -/
def reads (f : SourceFile) : Bool :=
  (CompilationUnit.read f.text).isOk

/-- The top-level declarations of a file, each with the package of the file; none if the file
does not read. -/
def declarations (f : SourceFile) : List (List String × Declaration) :=
  match CompilationUnit.read f.text with
  | .ok u => u.types.map fun d => (u.package, d)
  | .error _ => []

/-- What a file declares: classes, interfaces and enums under their qualified names. -/
def declares (f : SourceFile) : List Declared :=
  f.declarations.map fun d => d.2.declared d.1

end SourceFile

namespace Conversion

/-- Register a declaration of a package. -/
def registerIn (m : Model) (d : List String × Declaration) : Model :=
  (register d.1 m d.2).value

theorem readInto_eq (m : Model) (f : SourceFile) :
    readInto m f = f.declarations.foldl registerIn m := by
  unfold readInto SourceFile.declarations
  cases CompilationUnit.read f.text with
  | ok u =>
      show (u.types.foldlM (register u.package) m).value = _
      rw [Traced.value_foldlM, List.foldl_map]
      rfl
  | error e => rfl

/-- The model of source files is made of their declarations in order. -/
theorem value_sourcesToModel_eq (files : List SourceFile) :
    (sourcesToModel files).value =
      (files.flatMap SourceFile.declarations).foldl registerIn {} := by
  rw [value_sourcesToModel, List.foldl_flatMap]
  exact congrArg (List.foldl · _ files) (funext fun m => funext fun f => readInto_eq m f)

/-! ### Files that do not read -/

theorem declarations_of_not_reads {f : SourceFile} (h : ¬f.reads) : f.declarations = [] := by
  unfold SourceFile.reads at h
  unfold SourceFile.declarations
  cases hread : CompilationUnit.read f.text with
  | ok u =>
      rw [hread] at h
      exact absurd rfl h
  | error e => rfl

theorem value_sourcesToModel_filter (files : List SourceFile) :
    (sourcesToModel (files.filter SourceFile.reads)).value = (sourcesToModel files).value := by
  have hdeclarations : (files.filter SourceFile.reads).flatMap SourceFile.declarations =
      files.flatMap SourceFile.declarations := by
    induction files with
    | nil => rfl
    | cons f files ih =>
        by_cases hf : f.reads
        · rw [List.filter_cons_of_pos hf, List.flatMap_cons, List.flatMap_cons, ih]
        · rw [List.filter_cons_of_neg hf, List.flatMap_cons, declarations_of_not_reads hf, ih]
          rfl
  rw [value_sourcesToModel_eq, value_sourcesToModel_eq, hdeclarations]

/-- Registering types warns of nothing. -/
theorem warnings_visit (m : Model) (u : CompilationUnit) : (m.visit u).warnings = [] := by
  have hregister : ∀ (m : Model) (d : Declaration), (register u.package m d).warnings = [] := by
    intro m d
    cases d with
    | ofClass ms name superclass interfaces members =>
        unfold register
        rw [Traced.warnings_ofEvents, List.filter_eq_nil_iff]
        intro e he
        obtain ⟨member, -, hmember⟩ := List.mem_filterMap.mp he
        cases member <;> cases hmember
        simp [Event.level]
    | ofInterface | ofEnum => rfl
  unfold Model.visit
  rw [Traced.warnings_bind, Traced.warnings_foldlM hregister]
  simp [Event.level]

/-- The warning that a file is passed over. -/
def warningOf (f : SourceFile) : List Event :=
  if f.reads then [] else [.sourceSkipped f.path]

theorem warnings_next (s : SourcesState) (f : SourceFile) :
    (s.next f).warnings = warningOf f := by
  unfold SourcesState.next Model.readSource warningOf SourceFile.reads
  cases CompilationUnit.read f.text with
  | ok u => simp [Event.level, warnings_visit, Except.isOk, Except.toBool]
  | error e => simp [Event.level, Except.isOk, Except.toBool]

theorem warnings_sourcesToModel (files : List SourceFile) :
    (sourcesToModel files).warnings =
      (files.filter (!·.reads)).map fun f => .sourceSkipped f.path := by
  have hskipped : files.flatMap warningOf =
      (files.filter (!·.reads)).map fun f => .sourceSkipped f.path := by
    induction files with
    | nil => rfl
    | cons f files ih =>
        rw [List.flatMap_cons, ih, List.filter_cons, warningOf]
        cases f.reads <;> rfl
  unfold sourcesToModel
  rw [Traced.warnings_within, Traced.warnings_bind, Traced.warnings_foldlM warnings_next, hskipped]
  simp [Event.level]

/-! ### Files in another order -/

/-- What is found last among what comes from several sources does not depend on their order, as
long as only one of them has it. -/
theorem findRev?_flatMap_perm {α β : Type} {g : α → List β} {p : β → Bool} {as bs : List α}
    (h : as.Perm bs)
    (hapart : as.Pairwise fun a b => (∀ x ∈ g a, ¬p x) ∨ ∀ x ∈ g b, ¬p x) :
    (as.flatMap g).findRev? p = (bs.flatMap g).findRev? p := by
  have hcons : ∀ a (cs : List α), ((a :: cs).flatMap g).findRev? p =
      ((cs.flatMap g).findRev? p).or ((g a).findRev? p) := by
    intro a cs
    simp only [List.flatMap_cons, List.findRev?_eq_find?_reverse, List.reverse_append,
      List.find?_append]
  have hnone : ∀ a, (∀ x ∈ g a, ¬p x) → (g a).findRev? p = none := by
    intro a ha
    rw [List.findRev?_eq_find?_reverse, List.find?_eq_none]
    exact fun x hx => ha x (List.mem_reverse.mp hx)
  induction h with
  | nil => rfl
  | cons a _ ih => rw [hcons, hcons, ih hapart.of_cons]
  | swap a b cs =>
      have hab : (∀ x ∈ g b, ¬p x) ∨ ∀ x ∈ g a, ¬p x :=
        List.rel_of_pairwise_cons hapart List.mem_cons_self
      rw [hcons, hcons, hcons, hcons, Option.or_assoc, Option.or_assoc]
      rcases hab with hb | ha
      · rw [hnone b hb, Option.or_none, Option.none_or]
      · rw [hnone a ha, Option.or_none, Option.none_or]
  | trans hfirst _ ih₁ ih₂ =>
      rw [ih₁ hapart]
      exact ih₂ (hfirst.pairwise hapart fun hab => hab.symm)

section Parts

variable {α : Type} {part : Model → OrderedMap α} {entity? : List String → Declaration → Option α}
  {key : α → String} {tag : String → Declared}

/-- Declarations insert what they register, one after the other. -/
theorem foldl_registerIn (h : Collects part entity? key tag)
    (ds : List (List String × Declaration)) (m : Model) :
    part (ds.foldl registerIn m) =
      (ds.filterMap fun d => entity? d.1 d.2).foldl (fun acc v => acc.insert (key v) v)
        (part m) := by
  induction ds generalizing m with
  | nil => rfl
  | cons d ds ih =>
      rw [List.foldl_cons, ih, registerIn, h.register, List.filterMap_cons]
      cases entity? d.1 d.2 <;> rfl

/-- Under a name stands the last type that a file declares under it. -/
theorem get?_sourcesToModel (h : Collects part entity? key tag) (hnone : part {} = ∅)
    (files : List SourceFile) (name : String) :
    (part (sourcesToModel files).value).get? name =
      (files.flatMap fun f => f.declarations.filterMap fun d => entity? d.1 d.2).findRev?
        fun v => key v = name := by
  rw [value_sourcesToModel_eq, foldl_registerIn h, OrderedMap.get?_foldl_insert, hnone,
    OrderedMap.get?_empty, Option.or_none, List.filterMap_flatMap]

/-- A file registers a type only if it declares it. -/
theorem mem_declares (h : Collects part entity? key tag) {f : SourceFile} {v : α}
    (hv : v ∈ f.declarations.filterMap fun d => entity? d.1 d.2) :
    tag (key v) ∈ f.declares := by
  obtain ⟨d, hd, hentity⟩ := List.mem_filterMap.mp hv
  exact List.mem_map.mpr ⟨d, hd, h.declared _ _ _ hentity⟩

end Parts

/-- No two of the files declare a type of one kind under one name. -/
def Apart (files : List SourceFile) : Prop :=
  files.Pairwise fun f g => ∀ d ∈ f.declares, d ∉ g.declares

theorem get?_sourcesToModel_perm {α : Type} {part : Model → OrderedMap α}
    {entity? : List String → Declaration → Option α} {key : α → String} {tag : String → Declared}
    (h : Collects part entity? key tag) (hnone : part {} = ∅) {files files' : List SourceFile}
    (hperm : files.Perm files') (hapart : Apart files) (name : String) :
    (part (sourcesToModel files).value).get? name =
      (part (sourcesToModel files').value).get? name := by
  rw [get?_sourcesToModel h hnone, get?_sourcesToModel h hnone]
  refine findRev?_flatMap_perm hperm (hapart.imp fun {f g} hdisjoint => ?_)
  by_cases hf : tag name ∈ f.declares
  · refine Or.inr fun v hv hname => hdisjoint _ hf ?_
    rw [← of_decide_eq_true hname]
    exact mem_declares h hv
  · refine Or.inl fun v hv hname => hf ?_
    rw [← of_decide_eq_true hname]
    exact mem_declares h hv

theorem associations_sourcesToModel (files : List SourceFile) :
    (sourcesToModel files).value.associations =
      (files.flatMap SourceFile.declarations).flatMap fun d => d.2.associations d.1 := by
  have hfold : ∀ (ds : List (List String × Declaration)) (m : Model),
      (ds.foldl registerIn m).associations =
        m.associations ++ ds.flatMap fun d => d.2.associations d.1 := by
    intro ds
    induction ds with
    | nil => exact fun m => (List.append_nil _).symm
    | cons d ds ih =>
        intro m
        rw [List.foldl_cons, ih, registerIn, associations_register, List.flatMap_cons,
          List.append_assoc]
  rw [value_sourcesToModel_eq, hfold]
  rfl

/-- The models have the same types under every name, and the same associations in whatever
order. -/
structure Alike (m m' : Model) : Prop where
  classes : ∀ name, m.class? name = m'.class? name
  interfaces : ∀ name, m.interface? name = m'.interface? name
  enums : ∀ name, m.enum? name = m'.enum? name
  associations : m.associations.Perm m'.associations

/-- The order of files that declare different types hardly matters. -/
theorem alike_sourcesToModel_perm {files files' : List SourceFile} (hperm : files.Perm files')
    (hapart : Apart files) : Alike (sourcesToModel files).value (sourcesToModel files').value where
  classes := get?_sourcesToModel_perm collects_classes rfl hperm hapart
  interfaces := get?_sourcesToModel_perm collects_interfaces rfl hperm hapart
  enums := get?_sourcesToModel_perm collects_enums rfl hperm hapart
  associations := by
    rw [associations_sourcesToModel, associations_sourcesToModel]
    exact (hperm.flatMap_right _).flatMap_right _

theorem readSource_of_not_reads {f : SourceFile} (h : ¬f.reads) (m : Model) :
    ∃ e, m.readSource f.text = .error e := by
  unfold SourceFile.reads at h
  unfold Model.readSource
  cases hread : CompilationUnit.read f.text with
  | ok u =>
      rw [hread] at h
      exact absurd rfl h
  | error e => exact ⟨e, rfl⟩

/-- **A file that does not read leaves a warning and nothing else, and the order of files that
declare different types shows in nothing but order.** -/
theorem sourcesToModel_filter_perm (files : List SourceFile) :
    (sourcesToModel files).value = (sourcesToModel (files.filter SourceFile.reads)).value ∧
      (sourcesToModel files).warnings =
        (files.filter (!·.reads)).map (fun f => .sourceSkipped f.path) ∧
      (∀ f : SourceFile, ¬f.reads → ∀ s : SourcesState,
        (∃ e, s.model.readSource f.text = .error e) ∧ (s.next f).value.model = s.model) ∧
      ∀ files', files.Perm files' → Apart files →
        Alike (sourcesToModel files).value (sourcesToModel files').value := by
  refine ⟨(value_sourcesToModel_filter files).symm, warnings_sourcesToModel files, ?_, ?_⟩
  · intro f hf s
    refine ⟨readSource_of_not_reads hf s.model, ?_⟩
    rw [model_next, readInto_eq, declarations_of_not_reads hf]
    rfl
  · exact fun files' hperm hapart => alike_sourcesToModel_perm hperm hapart

/-- A file that breaks off. -/
def brokenFile : SourceFile where
  path := "Quay.java"
  text := "class Quay \x7b"

/-- Types of one name that differ in package or kind, and a file that breaks off. -/
def pierFiles : List SourceFile :=
  [⟨"port/Pier.java", "package port; class Pier \x7b Ship[] berths; \x7d"⟩, brokenFile,
    ⟨"Pier.java", "class Pier \x7b \x7d interface Pier \x7b \x7d"⟩]

theorem sourcesToModel_filter_perm_pierFiles :
    ¬brokenFile.reads ∧ pierFiles.Perm pierFiles.reverse ∧ Apart pierFiles ∧
      (sourcesToModel pierFiles).warnings = [.sourceSkipped "Quay.java"] ∧
      (SourcesState.next {} brokenFile).value.model = {} ∧
      Alike (sourcesToModel pierFiles).value (sourcesToModel pierFiles.reverse).value := by
  have hbroken : ¬brokenFile.reads := by decide +kernel
  have hperm : pierFiles.Perm pierFiles.reverse := pierFiles.reverse_perm.symm
  have hapart : Apart pierFiles := by
    unfold Apart
    decide +kernel
  have hrejected : pierFiles.filter (!·.reads) = [brokenFile] := by decide +kernel
  obtain ⟨-, hwarnings, hskipped, halike⟩ := sourcesToModel_filter_perm pierFiles
  rw [hrejected] at hwarnings
  exact ⟨hbroken, hperm, hapart, hwarnings, (hskipped brokenFile hbroken {}).2,
    halike _ hperm hapart⟩

end Conversion

end ClassModel
