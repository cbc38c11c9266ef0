/-
The stubs of a diagram as files.

A diagram may declare a class, an interface and an enum of one name, and each of them has a
stub.  The stubs are written into one directory by their names alone, classes before
interfaces before enums, so of entities that share a name the last one has the file.

`lastingStubs` are the stubs that are left.  They are all the stubs exactly if no two entities
share a name, and only then are there as many files as there are entities.
-/
import ClassModel.Proofs.Cli.Directories
import ClassModel.Proofs.Cli.Steps
import ClassModel.Proofs.Diagram.ReadModels

namespace ClassModel

/-! ### Writing the stubs -/

open Source (Stub)

section Writing

variable {filter : LogFilter} {s : Sandbox} {d : String} {p : List String}

/-- A stub as a file: its name and its text. -/
def Source.Stub.file (x : Stub) : String × String :=
  (x.fileName, x.body)

/-- A stub that can be written into a directory: its name may be that of a file, and the path
that it gets is not too long. -/
structure Source.Stub.Fits (x : Stub) (d : String) : Prop where
  name : IsFileName x.fileName
  path : (joinPath d x.fileName).utf8ByteSize < 4096

theorem leaves_writeStub (hd : s.files.Leads d p) {x : Stub} (hx : x.Fits d)
    (hroom : s.files.HasRoom (p ++ [x.fileName])) :
    Leaves filter s (writeStub d x) () (s.files.put (p ++ [x.fileName]) (.file x.body)) := by
  have hrun : (Host.writeFile (joinPath d x.fileName) x.body :
      StateM Sandbox (Except FileError Unit)).run s =
        (Sandbox.change (s.files.writeFile (joinPath d x.fileName) x.body)).run s := rfl
  rw [hd.writeFile_joinPath hx.name hx.path hroom] at hrun
  refine (leaves_attempt _ hrun rfl _).bind fun s₁ h₁ _ => ?_
  have hfiles : s₁.files = s.files.put (p ++ [x.fileName]) (.file x.body) := h₁
  rw [← hfiles]
  exact leaves_traced _

/-- The stubs arrive one after the other. -/
theorem leaves_writeStubs {stubs : List Stub} (hd : s.files.Leads d p)
    (hfit : ∀ x ∈ stubs, x.Fits d) (hroom : ∀ x ∈ stubs, s.files.HasRoom (p ++ [x.fileName])) :
    Leaves filter s (stubs.forM (writeStub d)) ()
      (s.files.putFiles p (stubs.map Stub.file)) := by
  induction stubs generalizing s with
  | nil => exact leaves_pure ()
  | cons x xs ih =>
      obtain ⟨hx, hxs⟩ := List.forall_mem_cons.mp hfit
      obtain ⟨hroomx, hroomxs⟩ := List.forall_mem_cons.mp hroom
      refine (leaves_writeStub hd hx hroomx).bind fun s₁ h₁ _ => ?_
      have hrest := ih (s := s₁) (h₁ ▸ hd.put hroomx.ne_directory) hxs fun y hy =>
        h₁ ▸ (hroomxs y hy).put _ (by simp) x.body
      rw [h₁] at hrest
      exact hrest

/-- The command writes the stubs of its input into the directory. -/
theorem leaves_diagramToStubs {input : Option String} {text : String} (verbose : Bool)
    (htext : s.text? input = .ok text) (hd : s.files.Leads d p)
    (hfit : ∀ x ∈ (Conversion.diagramToStubs text).value, x.Fits d)
    (hroom : ∀ x ∈ (Conversion.diagramToStubs text).value, s.files.HasRoom (p ++ [x.fileName])) :
    Leaves filter s ((Command.diagramToStubs input (some d)).perform verbose) ()
      (s.files.putFiles p
        ((Conversion.diagramToStubs text).value.map Stub.file)) := by
  refine (leaves_readText htext).bind fun s₁ h₁ _ => ?_
  refine (leaves_traced _).bind fun s₂ h₂ _ => ?_
  have hfiles : s₂.files = s.files := h₂.trans h₁
  have hrun : (Host.makeDirectories d : StateM Sandbox (Except FileError Unit)).run s₂ =
      ((s₂.files.makeDirectories d).2, { s₂ with files := (s₂.files.makeDirectories d).1 }) := rfl
  rw [hfiles, hd.makeDirectories] at hrun
  refine (leaves_attempt _ hrun rfl _).bind fun s₃ h₃ _ => ?_
  have hfiles₃ : s₃.files = s.files := h₃
  have hwrite := @leaves_writeStubs filter s₃ d p _ (hfiles₃ ▸ hd) hfit fun x hx =>
    hfiles₃ ▸ hroom x hx
  rw [hfiles₃] at hwrite
  refine hwrite.bind fun s₄ h₄ _ => ?_
  rw [← h₄]
  exact leaves_remark _ _

end Writing

/-! ### The stubs that are left -/

/-- No two entities of a model share a name, of whatever kind they are. -/
def Model.HasDistinctNames (m : Model) : Prop :=
  (m.classes.keys ++ m.interfaces.keys ++ m.enums.keys).Nodup

namespace Source

/-- The stub of a class of a model. -/
def classStub (m : Model) (c : Class) : Stub where
  name := c.name
  body := Stub.renderClassIn m c

/-- The stub of an interface. -/
def interfaceStub (i : Interface) : Stub where
  name := i.name
  body := Stub.renderInterface i

/-- The stub of an enum. -/
def enumStub (e : Enum) : Stub where
  name := e.name
  body := Stub.renderEnum e

/-- The stubs of a model without those that another one is written over: an enum keeps its
file, an interface unless there is an enum of its name, and a class unless there is either. -/
def lastingStubs (m : Model) : List Stub :=
  (m.classes.values.filter fun c => c.name ∉ m.interfaces.keys ++ m.enums.keys).map (classStub m) ++
    ((m.interfaces.values.filter fun i => i.name ∉ m.enums.keys).map interfaceStub ++
      m.enums.values.map enumStub)

theorem Stub.fileName_inj {x y : Stub} : x.fileName = y.fileName ↔ x.name = y.name := by
  constructor
  · intro h
    have hlist := congrArg String.toList h
    rw [fileName, fileName, String.toList_append, String.toList_append] at hlist
    exact String.toList_inj.mp (List.append_cancel_right hlist)
  · intro h
    rw [fileName, fileName, h]

theorem nodup_fileNames {l : List Stub} :
    (l.map Stub.fileName).Nodup ↔ (l.map Stub.name).Nodup := by
  unfold List.Nodup
  rw [List.pairwise_map, List.pairwise_map]
  exact List.Pairwise.iff fun x y => not_congr Stub.fileName_inj

theorem forall_ne_file_iff {l : List Stub} {x : Stub} :
    (∀ f ∈ l.map Stub.file, x.fileName ≠ f.1) ↔ x.name ∉ l.map Stub.name := by
  constructor
  · intro h hx
    obtain ⟨y, hy, he⟩ := List.mem_map.mp hx
    exact h _ (List.mem_map_of_mem hy) (Stub.fileName_inj.mpr he.symm)
  · intro h f hf he
    obtain ⟨y, hy, rfl⟩ := List.mem_map.mp hf
    exact h (List.mem_map.mpr ⟨y, hy, (Stub.fileName_inj.mp he).symm⟩)

/-- Of stubs with different names those last whose names do not come again. -/
theorem lastOfEach_append_files {l : List Stub} (h : (l.map Stub.name).Nodup) (more : List Stub) :
    FileTree.lastOfEach ((l ++ more).map Stub.file) =
      (l.filter fun x => x.name ∉ more.map Stub.name).map Stub.file ++
        FileTree.lastOfEach (more.map Stub.file) := by
  have hnames : ((l.map Stub.file).map Prod.fst).Nodup := by
    rw [List.map_map]
    exact nodup_fileNames.mpr h
  have hkept : (l.map Stub.file).filter (fun f => ∀ g ∈ more.map Stub.file, f.1 ≠ g.1) =
      (l.filter fun x => x.name ∉ more.map Stub.name).map Stub.file := by
    rw [List.filter_map]
    exact congrArg _ (List.filter_congr fun x _ => decide_eq_decide.mpr forall_ne_file_iff)
  rw [List.map_append, FileTree.lastOfEach_append hnames, hkept]

section Names

variable {m : Model}

/-- Stubs that bear the names of entities bear the keys they stand under. -/
theorem map_name_values {α : Type} {name : α → String} {entities : OrderedMap α}
    (h : entities.Keyed name) {stub : α → Stub} (hstub : ∀ a, (stub a).name = name a) :
    (entities.values.map stub).map Stub.name = entities.keys := by
  rw [← OrderedMap.map_values h, List.map_map]
  exact List.map_congr_left fun a _ => hstub a

theorem stubs_eq (m : Model) :
    stubs m = m.classes.values.map (classStub m) ++
      (m.interfaces.values.map interfaceStub ++ m.enums.values.map enumStub) :=
  List.append_assoc ..

/-- File names are different exactly if the names of the entities are. -/
theorem nodup_fileNames_stubs (hm : m.Keyed) :
    ((stubs m).map Stub.fileName).Nodup ↔ m.HasDistinctNames := by
  rw [nodup_fileNames, stubs_eq, List.map_append, List.map_append,
    map_name_values hm.classes fun _ => rfl, map_name_values hm.interfaces fun _ => rfl,
    map_name_values hm.enums fun _ => rfl, ← List.append_assoc]
  rfl

theorem length_stubs (m : Model) :
    (stubs m).length = m.classes.size + m.interfaces.size + m.enums.size := by
  simp only [stubs, OrderedMap.values, OrderedMap.size, List.length_append, List.length_map]

/-- **What is left of the files is the lasting stubs.** -/
theorem lastOfEach_stubs (hm : m.Keyed) :
    FileTree.lastOfEach ((stubs m).map Stub.file) = (lastingStubs m).map Stub.file := by
  have hclasses : (m.classes.values.map (classStub m)).map Stub.name = m.classes.keys :=
    map_name_values hm.classes fun _ => rfl
  have hinterfaces : (m.interfaces.values.map interfaceStub).map Stub.name = m.interfaces.keys :=
    map_name_values hm.interfaces fun _ => rfl
  have henums : (m.enums.values.map enumStub).map Stub.name = m.enums.keys :=
    map_name_values hm.enums fun _ => rfl
  have hlast : FileTree.lastOfEach ((m.enums.values.map enumStub).map Stub.file) =
      (m.enums.values.map enumStub).map Stub.file := by
    refine FileTree.lastOfEach_of_nodup ?_
    rw [List.map_map]
    exact nodup_fileNames.mpr (henums ▸ m.enums.nodup)
  rw [stubs_eq, lastOfEach_append_files (hclasses ▸ m.classes.nodup),
    lastOfEach_append_files (hinterfaces ▸ m.interfaces.nodup), hlast, List.map_append,
    hinterfaces, henums, List.filter_map, List.filter_map, lastingStubs, List.map_append,
    List.map_append]
  rfl

end Names

end Source

/-! ### The command -/

/-- A word is the name of a file if it is short enough. -/
theorem isFileName_of_isWord {x : Stub} (h : IsWord x.name.toList)
    (hshort : x.fileName.utf8ByteSize ≤ 255) : IsFileName x.fileName := by
  have htext : x.fileName.toList = x.name.toList ++ ".java".toList := String.toList_append
  have hlength : ∀ s : String, s.toList.length ≤ 2 → x.fileName ≠ s := by
    intro s hs he
    rw [← he, htext, List.length_append] at hs
    have hjava : ".java".toList.length = 5 := rfl
    omega
  refine ⟨?_, hlength _ (by decide), hlength _ (by decide), hlength _ (by decide), hshort⟩
  rw [htext, List.mem_append, not_or]
  exact ⟨fun hc => absurd (h.chars _ hc) (by decide), by decide⟩

theorem isWord_of_mem_stubs {m : Model} (hm : m.Drawable) {x : Stub} (hx : x ∈ Source.stubs m) :
    IsWord x.name.toList := by
  rw [Source.stubs_eq, List.mem_append, List.mem_append] at hx
  rcases hx with hx | hx | hx
  · obtain ⟨c, hc, rfl⟩ := List.mem_map.mp hx
    exact (hm.classes c hc).name
  · obtain ⟨i, hi, rfl⟩ := List.mem_map.mp hx
    exact (hm.interfaces i hi).name
  · obtain ⟨e, he, rfl⟩ := List.mem_map.mp hx
    exact (hm.enums e he).name

/-- A directory has the given stubs for files, and nothing else below it. -/
def FileTree.HoldsStubs (t : FileTree) (p : List String) (l : List Stub) : Prop :=
  (t.below p).Perm (l.map fun x => ([x.fileName], .file x.body))

/-- What becomes of the stubs of a model that are written into an empty directory. -/
structure StubsWritten (m : Model) (p : List String) (before after : FileTree) : Prop where
  /-- Nothing changes outside the directory. -/
  outside : ∀ q, ¬p <+: q → after.find? q = before.find? q
  /-- The files in the directory are those of the lasting stubs. -/
  lasting : after.HoldsStubs p (Source.lastingStubs m)
  /-- Every entity has its own stub in a file exactly if no two share a name. -/
  complete : after.HoldsStubs p (Source.stubs m) ↔ m.HasDistinctNames
  /-- Only then there are as many files as entities. -/
  count : (after.below p).length = m.classes.size + m.interfaces.size + m.enums.size ↔
    m.HasDistinctNames

theorem stubsWritten_putFiles {m : Model} (hm : m.Keyed) {t : FileTree} {p : List String}
    (hempty : t.below p = []) :
    StubsWritten m p t (t.putFiles p ((Source.stubs m).map Stub.file)) := by
  have hdistinct : (((Source.stubs m).map Stub.file).map Prod.fst).Nodup ↔ m.HasDistinctNames := by
    rw [List.map_map]
    exact Source.nodup_fileNames_stubs hm
  have hbelow := t.below_putFiles p ((Source.stubs m).map Stub.file)
  rw [hempty, List.filter_nil, List.nil_append] at hbelow
  have hcount := hbelow.length_eq
  rw [List.length_map] at hcount
  have hall := FileTree.length_lastOfEach_eq_iff.trans hdistinct
  rw [← hcount, List.length_map] at hall
  refine ⟨fun q hq => ?_, ?_, ⟨fun h => ?_, fun h => ?_⟩, ?_⟩
  · refine t.find?_putFiles fun f _ he => hq ?_
    rw [he]
    exact List.prefix_append p [f.1]
  · rw [Source.lastOfEach_stubs hm, List.map_map] at hbelow
    exact hbelow
  · exact hall.mp (by rw [h.length_eq, List.length_map])
  · rw [FileTree.lastOfEach_of_nodup (hdistinct.mpr h), List.map_map] at hbelow
    exact hbelow
  · rw [← Source.length_stubs]
    exact hall

/-- A command line that asks for stubs in an empty directory succeeds, and leaves them there. -/
theorem exists_stubsWritten {args : List String} {env : Environment} {i : Invocation}
    {input : Option String} {s : Sandbox} {d text : String} {p : List String}
    (hargs : Invocation.ofArguments args = .ok i)
    (hcommand : i.command = .diagramToStubs input (some d)) (htext : s.text? input = .ok text)
    (hd : s.files.Leads d p) (hempty : s.files.below p = [])
    (hshort : ∀ x ∈ (Conversion.diagramToStubs text).value,
      x.fileName.utf8ByteSize ≤ 255 ∧ (joinPath d x.fileName).utf8ByteSize < 4096) :
    ∃ s', (runArguments args env : StateM Sandbox Nat).run s = (0, s') ∧
      StubsWritten (Diagram.read text).value p s.files s'.files := by
  have hsound := sound_read text
  have hfit : ∀ x ∈ (Conversion.diagramToStubs text).value, x.Fits d := fun x hx =>
    ⟨isFileName_of_isWord (isWord_of_mem_stubs hsound.drawable hx) (hshort x hx).1,
      (hshort x hx).2⟩
  have hperform : ∀ (filter : LogFilter) (s₁ : Sandbox), s₁.files = s.files → s₁.input = s.input →
      Leaves filter s₁ (i.command.perform i.verbose) ()
        (s.files.putFiles p ((Conversion.diagramToStubs text).value.map Stub.file)) := by
    intro filter s₁ hfiles hinput
    rw [hcommand, ← hfiles]
    rw [← Sandbox.text?_congr hfiles hinput input] at htext
    exact leaves_diagramToStubs i.verbose htext (hfiles ▸ hd) hfit fun x _ =>
      FileTree.hasRoom_of_below (hfiles ▸ hempty) x.fileName
  obtain ⟨s', hrun, hfiles⟩ := exists_runArguments hargs hperform
  refine ⟨s', hrun, ?_⟩
  rw [hfiles]
  exact stubsWritten_putFiles hsound.keyed hempty

/-- **The files of a diagram have different names exactly if no two entities share one, and
written into an empty directory every entity finds its stub there exactly then**, so far as no
name and no path is too long for the files. -/
theorem nodup_fileNames_iff_and_written (text : String) :
    (((Conversion.diagramToStubs text).value.map Stub.fileName).Nodup ↔
        (Diagram.read text).value.HasDistinctNames) ∧
      ∀ (args : List String) (env : Environment) (i : Invocation) (input : Option String)
        (s : Sandbox) (d : String) (p : List String),
        Invocation.ofArguments args = .ok i → i.command = .diagramToStubs input (some d) →
        s.text? input = .ok text → s.files.Leads d p → s.files.below p = [] →
        (∀ x ∈ (Conversion.diagramToStubs text).value,
          x.fileName.utf8ByteSize ≤ 255 ∧ (joinPath d x.fileName).utf8ByteSize < 4096) →
        ∃ s', (runArguments args env : StateM Sandbox Nat).run s = (0, s') ∧
          StubsWritten (Diagram.read text).value p s.files s'.files := by
  refine ⟨Source.nodup_fileNames_stubs (sound_read text).keyed, ?_⟩
  intro args env i input s d p hargs hcommand htext hd hempty hshort
  exact exists_stubsWritten hargs hcommand htext hd hempty hshort

/-- A class and an interface of one name. -/
def ferryText : String :=
  "class Ferry\ninterface Ferry"

theorem not_nodup_fileNames_ferryText :
    ¬((Conversion.diagramToStubs ferryText).value.map Stub.fileName).Nodup := by
  decide +kernel

/-- A command that writes stubs into the directory where it works. -/
def ferryInvocation : Invocation where
  command := .diagramToStubs none (some ".")
  verbose := false
  level := none
  format := .compact

/-- An empty directory, and the two declarations as the input. -/
def ferrySandbox : Sandbox where
  files := FileTree.fresh
  input := ferryText

theorem nodup_fileNames_iff_and_written_ferryText :
    Invocation.ofArguments ["uml-to-java", "--out-dir", "."] = .ok ferryInvocation ∧
      (((Conversion.diagramToStubs ferryText).value.map Stub.fileName).Nodup ↔
        (Diagram.read ferryText).value.HasDistinctNames) ∧
      ∃ s', (runArguments ["uml-to-java", "--out-dir", "."] {} : StateM Sandbox Nat).run
          ferrySandbox = (0, s') ∧
        StubsWritten (Diagram.read ferryText).value ["tmp", "work"] FileTree.fresh s'.files := by
  have hargs : Invocation.ofArguments ["uml-to-java", "--out-dir", "."] = .ok ferryInvocation := by
    rfl
  have hd : FileTree.fresh.Leads "." ["tmp", "work"] :=
    ⟨by decide, by decide +kernel, by decide +kernel⟩
  have hempty : FileTree.fresh.below ["tmp", "work"] = [] :=
    FileTree.below_eq_nil_iff.mpr (by decide +kernel)
  have hshort : ∀ x ∈ (Conversion.diagramToStubs ferryText).value,
      x.fileName.utf8ByteSize ≤ 255 ∧ (joinPath "." x.fileName).utf8ByteSize < 4096 := by
    decide +kernel
  obtain ⟨hnames, hwritten⟩ := nodup_fileNames_iff_and_written ferryText
  exact ⟨hargs, hnames,
    hwritten _ {} ferryInvocation none ferrySandbox "." _ hargs rfl rfl hd hempty hshort⟩

end ClassModel
