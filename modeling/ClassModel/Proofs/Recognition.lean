/-
Texts that are recognised before they are read.

Each notation has a quick test for its texts.  For a diagram the test asks whether some line
declares a type, wherever the line stands; for a source file it asks whether the file reads and
declares one.  Neither test promises too much: what is recognised puts an entity into the model.

For diagrams the line that was recognised need not be the one that is read, since it may stand in
the body of another declaration.  Then it is that declaration which leaves an entity.  For source
files every declaration leaves one, though a later declaration of the same name may take its
place.
-/
import ClassModel.Proofs.Diagram.Announcements
import ClassModel.Proofs.Source.Ordering

namespace ClassModel

open Source

/-- The model has an entity of the kind and the name that are declared. -/
def Model.Has (m : Model) : Declared → Prop
  | .ofClass name => ∃ c ∈ m.classes.values, c.name = name
  | .ofInterface name => ∃ i ∈ m.interfaces.values, i.name = name
  | .ofEnum name => ∃ e ∈ m.enums.values, e.name = name

namespace Conversion

variable {ds : List (List String × Declaration)} {d : List String × Declaration}

/-- Under the name that a declaration registers something of its kind is left, be it from that
declaration or from a later one. -/
theorem exists_mem_registered {α : Type} {part : Model → OrderedMap α}
    {entity? : List String → Declaration → Option α} {key : α → String} {tag : String → Declared}
    (h : Collects part entity? key tag) {v : α} (hd : d ∈ ds) (hv : entity? d.1 d.2 = some v)
    (m : Model) : ∃ w ∈ (part (ds.foldl registerIn m)).values, key w = key v := by
  have hmem : v ∈ ds.filterMap fun d => entity? d.1 d.2 := List.mem_filterMap.mpr ⟨d, hd, hv⟩
  obtain ⟨before, after, hsplit⟩ := List.append_of_mem hmem
  obtain ⟨w, hfind, hkey, -⟩ := OrderedMap.exists_findRev?_append_cons
    (p := fun w => decide (key w = key v)) (v := v) before after (decide_eq_true rfl)
  refine ⟨w, OrderedMap.mem_values_of_get? (k := key v) ?_, of_decide_eq_true hkey⟩
  rw [foldl_registerIn h, OrderedMap.get?_foldl_insert, hsplit, hfind, Option.some_or]

/-- What is declared is in the model afterwards. -/
theorem has_declared (hd : d ∈ ds) (m : Model) :
    (ds.foldl registerIn m).Has (d.2.declared d.1) := by
  obtain ⟨package, declaration⟩ := d
  cases declaration with
  | ofClass ms name superclass interfaces members =>
      rw [collects_classes.declared package _ _ rfl]
      exact exists_mem_registered collects_classes hd rfl m
  | ofInterface ms name parents members =>
      rw [collects_interfaces.declared package _ _ rfl]
      exact exists_mem_registered collects_interfaces hd rfl m
  | ofEnum ms name interfaces constants members =>
      rw [collects_enums.declared package _ _ rfl]
      exact exists_mem_registered collects_enums hd rfl m

/-- A text that reads is read into every model, by registering its declarations. -/
theorem exists_readSource {text : String} {u : CompilationUnit}
    (h : CompilationUnit.read text = .ok u) (m : Model) :
    ∃ t, m.readSource text = .ok t ∧
      t.value = (u.types.map fun d => (u.package, d)).foldl registerIn m := by
  unfold Model.readSource
  rw [h]
  refine ⟨_, rfl, ?_⟩
  show (u.types.foldlM (register u.package) m).value = _
  rw [Traced.value_foldlM, List.foldl_map]
  rfl

end Conversion

theorem read_of_looksLike {text : String} (h : Source.looksLike text = true) :
    ∃ u, CompilationUnit.read text = .ok u ∧ u.types ≠ [] := by
  unfold Source.looksLike at h
  cases hread : CompilationUnit.read text with
  | ok u =>
      rw [hread] at h
      exact ⟨u, rfl, fun hnil => by simp [hnil] at h⟩
  | error e =>
      rw [hread] at h
      cases h

/-- **What is recognised leaves an entity in the model.**  A text with a line that declares a type
is a diagram with a class, an interface or an enum.  A text that is recognised as a source file
reads into every model, and each of its declarations is in the model afterwards under the name
with the package in front of it. -/
theorem entities_of_looksLike :
    (∀ text : String, occursIn "@startuml".toList text.toList = false →
      Diagram.looksLike text = true → (Diagram.read text).value.HasEntity) ∧
      ∀ text : String, Source.looksLike text = true →
        ∃ u, CompilationUnit.read text = .ok u ∧ u.types ≠ [] ∧ ∀ m : Model,
          ∃ t, m.readSource text = .ok t ∧ ∀ d ∈ u.types, t.value.Has (d.declared u.package) := by
  refine ⟨fun text hdirective h => hasEntity_read hdirective h, fun text h => ?_⟩
  obtain ⟨u, hread, htypes⟩ := read_of_looksLike h
  refine ⟨u, hread, htypes, fun m => ?_⟩
  obtain ⟨t, hok, hvalue⟩ := Conversion.exists_readSource hread m
  refine ⟨t, hok, fun d hd => ?_⟩
  rw [hvalue]
  exact Conversion.has_declared (d := (u.package, d)) (List.mem_map_of_mem hd) m

/-- A mark that cuts a keyword in two hides it from neither the test nor the reader. -/
theorem entities_of_looksLike_pier :
    Diagram.looksLike "note\r\nabstr\x7babstract\x7dact class Pier\r" = true ∧
      (Diagram.read "note\r\nabstr\x7babstract\x7dact class Pier\r").value.HasEntity ∧
      Source.looksLike "package port; enum Berth \x7b \x7d" = true ∧
      ∃ t, Model.readSource {} "package port; enum Berth \x7b \x7d" = .ok t ∧
        t.value.Has (.ofEnum "port.Berth") := by
  have hdiagram : Diagram.looksLike "note\r\nabstr\x7babstract\x7dact class Pier\r" = true := by
    decide +kernel
  have hsource : Source.looksLike "package port; enum Berth \x7b \x7d" = true := by decide +kernel
  have hdeclares : SourceFile.declares ⟨"Berth.java", "package port; enum Berth \x7b \x7d"⟩ =
      [.ofEnum "port.Berth"] := by decide +kernel
  obtain ⟨u, hread, -, hmodels⟩ := entities_of_looksLike.2 _ hsource
  obtain ⟨t, hok, hhas⟩ := hmodels {}
  have hmem : Declared.ofEnum "port.Berth" ∈
      (u.types.map fun d => (u.package, d)).map fun d => d.2.declared d.1 := by
    unfold SourceFile.declares SourceFile.declarations at hdeclares
    rw [hread] at hdeclares
    rw [hdeclares]
    exact List.mem_singleton_self _
  rw [List.map_map] at hmem
  obtain ⟨d, hd, hdeclared⟩ := List.mem_map.mp hmem
  rw [← hdeclared]
  exact ⟨hdiagram, entities_of_looksLike.1 _ (by decide +kernel) hdiagram, hsource, t, hok,
    hhas d hd⟩

end ClassModel
