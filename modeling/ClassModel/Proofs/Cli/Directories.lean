/-
Writing files into a directory.

A path that leads to a directory, with the name of a file behind it, leads into the directory,
and a file is written there unless something that is no file has the place.  Files that are
written one after the other all arrive, but each of them takes the place of an earlier one of
the same name, so below the directory the last file of each name is found.

A directory may be named in a roundabout way, such as `a/../a`.  No file can come to stand in
that way, since a path leads through directories only and these are not replaced.
-/
import Mathlib.Data.List.Basic
import Mathlib.Data.List.Pairwise
import ClassModel.Cli.FileTree
import ClassModel.Proofs.Diagram.Layout

namespace ClassModel

/-! ### The text of a path -/

/-- A name that a file may have in a directory. -/
structure IsFileName (name : String) : Prop where
  plain : '/' ∉ name.toList
  ne_empty : name ≠ ""
  ne_here : name ≠ "."
  ne_up : name ≠ ".."
  short : name.utf8ByteSize ≤ 255

section Joining

variable {d name : String}

/-- A name goes behind the text of a path, with a slash between them. -/
theorem exists_toList_joinPath (d name : String) :
    ∃ s, (joinPath d name).toList = s ++ '/' :: name.toList ∧
      (d.toList = s ∨ d.toList = s ++ ['/']) := by
  unfold joinPath
  split
  · rename_i h
    obtain ⟨s, hs⟩ := List.getLast?_eq_some_iff.mp h
    exact ⟨s, by rw [String.toList_append, hs, List.append_assoc]; rfl, Or.inr hs⟩
  · exact ⟨d.toList, by simp, Or.inl rfl⟩

theorem IsFileName.names_joinPath (h : IsFileName name) (d : String) :
    (Path.ofString (joinPath d name)).names = (Path.ofString d).names ++ [name] := by
  obtain ⟨s, hjoin, hd⟩ := exists_toList_joinPath d name
  have hname : splitOnChar '/' name.toList = [name.toList] := splitOnChar_of_not_mem h.plain
  have hkept : [name].filter (· ≠ "") = [name] := by simp [h.ne_empty]
  have hparts : ((splitOnChar '/' s).map String.ofList).filter (· ≠ "") =
      (Path.ofString d).names := by
    rcases hd with hd | hd
    · rw [Path.ofString, splitText, hd]
    · rw [Path.ofString, splitText, hd, splitOnChar_append_cons, List.map_append,
        List.filter_append]
      exact (List.append_nil _).symm
  rw [← hparts, Path.ofString, splitText, hjoin, splitOnChar_append_cons, hname, List.map_append,
    List.filter_append, List.map_singleton, String.ofList_toList, hkept]

theorem fromRoot_joinPath (hd : d ≠ "") (name : String) :
    (Path.ofString (joinPath d name)).fromRoot = (Path.ofString d).fromRoot := by
  have hhead : (joinPath d name).toList.head? = d.toList.head? := by
    obtain ⟨c, r, hc⟩ := List.exists_cons_of_ne_nil (mt String.toList_eq_nil_iff.mp hd)
    unfold joinPath
    split <;> simp [hc]
  rw [Path.ofString, Path.ofString, hhead]

theorem IsFileName.trailing_joinPath (h : IsFileName name) (d : String) :
    (Path.ofString (joinPath d name)).trailing = false := by
  obtain ⟨s, hjoin, -⟩ := exists_toList_joinPath d name
  rw [Path.ofString, decide_eq_false_iff_not, hjoin, List.getLast?_append, List.getLast?_cons]
  intro hlast
  obtain ⟨c, hc⟩ := Option.ne_none_iff_exists'.mp
    (mt List.getLast?_eq_none_iff.mp (mt String.toList_eq_nil_iff.mp h.ne_empty))
  rw [hc] at hlast
  obtain rfl : c = '/' := by simpa using hlast
  exact h.plain (List.mem_of_getLast? hc)

end Joining

namespace FileTree

variable {t : FileTree} {d : String} {p q : List String}

/-! ### Where a path leads -/

theorem follow_append {here : List String} {names : List String} (h : t.follow here names = .ok p)
    (more : List String) : t.follow here (names ++ more) = t.follow p more := by
  induction names generalizing here with
  | nil =>
      cases h
      rfl
  | cons name rest ih =>
      rw [follow] at h
      rw [List.cons_append, follow]
      split at h
      · split at h
        · cases h
        · rename_i hshort
          rw [if_neg hshort]
          exact ih h
      · cases h
      · cases h

/-- Where a path leads does not change if something is put in a place that is no directory. -/
theorem follow_put {here names : List String} {e : Entry} (hq : t.find? q ≠ some .directory)
    (h : t.follow here names = .ok p) : (t.put q e).follow here names = .ok p := by
  induction names generalizing here with
  | nil => exact h
  | cons name rest ih =>
      rw [follow] at h ⊢
      split at h
      · rename_i hhere
        have hne : here ≠ q := fun he => hq (he ▸ hhere)
        rw [find?_put_of_ne t e hne, hhere]
        simp only
        split at h
        · cases h
        · rename_i hshort
          rw [if_neg hshort]
          exact ih h
      · cases h
      · cases h

/-- If there is anything in a place, it is a file. -/
def HasRoom (t : FileTree) (q : List String) : Prop :=
  ∀ e, t.find? q = some e → ∃ text, e = .file text

theorem HasRoom.ne_directory (h : t.HasRoom q) : t.find? q ≠ some .directory := fun hq => by
  obtain ⟨text, he⟩ := h _ hq
  cases he

theorem HasRoom.put (h : t.HasRoom q) (r : List String) (hr : r ≠ []) (text : String) :
    (t.put r (.file text)).HasRoom q := by
  intro e he
  by_cases hqr : q = r
  · rw [hqr, find?_put_self t _ hr] at he
    exact ⟨text, (Option.some.inj he).symm⟩
  · rw [find?_put_of_ne t _ hqr] at he
    exact h e he

/-- A path text leads to a directory. -/
structure Leads (t : FileTree) (d : String) (p : List String) : Prop where
  ne_empty : d ≠ ""
  locate : t.locate (Path.ofString d) = .ok p
  directory : t.find? p = some .directory

namespace Leads

/-- The path is not too long, and leads to the directory name by name. -/
theorem follow (h : t.Leads d p) : (Path.ofString d).isTooLong = false ∧
    t.follow (t.startOf (Path.ofString d)) (Path.ofString d).names = .ok p := by
  have hlocate := h.locate
  unfold FileTree.locate at hlocate
  split at hlocate
  · cases hlocate
  · rename_i hlong
    exact ⟨eq_false_of_ne_true hlong, hlocate⟩

theorem put (h : t.Leads d p) {e : Entry} (hq : t.find? q ≠ some .directory) :
    (t.put q e).Leads d p where
  ne_empty := h.ne_empty
  locate := by
    rw [FileTree.locate, if_neg (ne_true_of_eq_false h.follow.1)]
    exact follow_put hq h.follow.2
  directory := by
    have hne : p ≠ q := fun he => hq (he ▸ h.directory)
    rw [find?_put_of_ne t e hne]
    exact h.directory

/-- A directory that is there need not be made. -/
theorem makeDirectories (h : t.Leads d p) : t.makeDirectories d = (t, .ok ()) := by
  obtain ⟨hlong, hfollow⟩ := h.follow
  have hleads : t.leadsToDirectory (t.startOf (Path.ofString d)) (Path.ofString d).names = true := by
    rw [leadsToDirectory, hfollow]
    simp [isDirectory, h.directory]
  have hmake : t.makeDirectory (t.startOf (Path.ofString d)) (Path.ofString d).names =
      .error .alreadyExists := by
    rw [makeDirectory, hfollow]
    show (if (t.find? p).isSome then _ else _) = _
    rw [h.directory]
    rfl
  rw [FileTree.makeDirectories]
  simp only [hlong, ensureAfter, ensureDirectory, hmake, hleads, if_true]
  rfl

variable {name : String}

/-- A name behind the path leads into the directory. -/
theorem locate_joinPath (h : t.Leads d p) (hname : IsFileName name)
    (hlength : (joinPath d name).utf8ByteSize < 4096) :
    t.locate (Path.ofString (joinPath d name)) = .ok (p ++ [name]) := by
  have hlong : (Path.ofString (joinPath d name)).isTooLong = false :=
    decide_eq_false (Nat.not_le.mpr hlength)
  have hstart : t.startOf (Path.ofString (joinPath d name)) = t.startOf (Path.ofString d) := by
    rw [startOf, startOf, fromRoot_joinPath h.ne_empty]
  have hstep : t.follow p [name] = .ok (p ++ [name]) := by
    rw [FileTree.follow, h.directory]
    simp only [Nat.not_lt.mpr hname.short, hname.ne_here, hname.ne_up, if_false, FileTree.follow]
  rw [FileTree.locate, if_neg (ne_true_of_eq_false hlong), hstart, hname.names_joinPath,
    follow_append h.follow.2, hstep]

/-- A file is written into the directory unless something that is no file has its place. -/
theorem writeFile_joinPath (h : t.Leads d p) (hname : IsFileName name)
    (hlength : (joinPath d name).utf8ByteSize < 4096)
    (hroom : t.HasRoom (p ++ [name])) (text : String) :
    t.writeFile (joinPath d name) text = .ok (t.put (p ++ [name]) (.file text)) := by
  unfold FileTree.writeFile
  simp only [hname.trailing_joinPath, h.locate_joinPath hname hlength, bind, Except.bind]
  cases hfind : t.find? (p ++ [name]) with
  | none => rfl
  | some e =>
      obtain ⟨old, rfl⟩ := hroom e hfind
      rfl

end Leads

/-! ### What lies below a directory -/

/-- An entry by its path from a directory that it lies below. -/
def relative? (p : List String) (x : List String × Entry) : Option (List String × Entry) :=
  if p.isPrefixOf x.1 && p ≠ x.1 then some (x.1.drop p.length, x.2) else none

theorem below_perm (t : FileTree) (p : List String) :
    (t.below p).Perm (t.entries.filterMap (relative? p)) :=
  (List.mergeSort_perm _ _).filterMap _

theorem relative?_append {r : List String} (hr : r ≠ []) (e : Entry) :
    relative? p (p ++ r, e) = some (r, e) := by
  simp [relative?, hr]

theorem relative?_eq_some {x y : List String × Entry} (h : relative? p x = some y) :
    x = (p ++ y.1, y.2) := by
  unfold relative? at h
  split at h
  · rename_i hc
    cases h
    rw [Bool.and_eq_true, List.isPrefixOf_iff_prefix] at hc
    obtain ⟨r, hr⟩ := hc.1
    rw [← hr, List.drop_left]
    exact Prod.ext hr.symm rfl
  · cases h

theorem below_eq_nil_iff : t.below p = [] ↔ t.entries.filterMap (relative? p) = [] := by
  constructor
  · intro h
    have hperm := below_perm t p
    rw [h] at hperm
    exact hperm.nil_eq.symm
  · intro h
    have hperm := below_perm t p
    rw [h] at hperm
    exact hperm.eq_nil

/-- Where nothing lies below a directory, nothing is found there. -/
theorem find?_eq_none_of_below (h : t.below p = []) {r : List String} (hr : r ≠ []) :
    t.find? (p ++ r) = none := by
  rw [find?, if_neg (by simp [hr]), Option.map_eq_none_iff, List.find?_eq_none]
  rintro ⟨q, e⟩ hx hq
  obtain rfl : q = p ++ r := by simpa using hq
  have hnone := List.filterMap_eq_nil_iff.mp (below_eq_nil_iff.mp h) _ hx
  rw [relative?_append hr] at hnone
  cases hnone

theorem hasRoom_of_below (h : t.below p = []) (name : String) : t.HasRoom (p ++ [name]) := by
  intro e he
  rw [find?_eq_none_of_below h (List.cons_ne_nil name [])] at he
  cases he

/-- What is put into a directory lies below it, in the place of what was there. -/
theorem below_put (t : FileTree) (p : List String) {r : List String} (hr : r ≠ []) (e : Entry) :
    ((t.put (p ++ r) e).below p).Perm ((t.below p).filter (·.1 ≠ r) ++ [(r, e)]) := by
  have hothers : (t.entries.filter (·.1 ≠ p ++ r)).filterMap (relative? p) =
      (t.entries.filterMap (relative? p)).filter (·.1 ≠ r) := by
    rw [List.filterMap_filter, List.filter_filterMap]
    refine List.filterMap_congr fun x _ => ?_
    cases hx : relative? p x with
    | none => simp
    | some y =>
        rw [relative?_eq_some hx]
        simp [Option.filter]
  refine (below_perm _ p).trans ?_
  show ((t.entries.filter (·.1 ≠ p ++ r) ++ [(p ++ r, e)]).filterMap (relative? p)).Perm _
  rw [List.filterMap_append, hothers, List.filterMap_cons_some (relative?_append hr e),
    List.filterMap_nil]
  exact ((below_perm t p).symm.filter _).append_right _

/-! ### Several files -/

/-- Put files into a directory, one after the other. -/
def putFiles (t : FileTree) (p : List String) (files : List (String × String)) : FileTree :=
  files.foldl (fun t f => t.put (p ++ [f.1]) (.file f.2)) t

/-- The files that no later one of the same name follows. -/
def lastOfEach (files : List (String × String)) : List (String × String) :=
  files.pwFilter fun f g => f.1 ≠ g.1

theorem find?_putFiles (t : FileTree) {files : List (String × String)}
    (hq : ∀ f ∈ files, q ≠ p ++ [f.1]) : (t.putFiles p files).find? q = t.find? q := by
  induction files generalizing t with
  | nil => rfl
  | cons f fs ih =>
      show ((t.put (p ++ [f.1]) (.file f.2)).putFiles p fs).find? q = _
      rw [ih _ fun g hg => hq g (List.mem_cons_of_mem f hg),
        find?_put_of_ne t _ (hq f List.mem_cons_self)]

theorem forall_ne_lastOfEach {files : List (String × String)} {name : String} :
    (∀ g ∈ lastOfEach files, name ≠ g.1) ↔ ∀ g ∈ files, name ≠ g.1 := by
  have htrans : ∀ {f g h : String × String}, f.1 ≠ h.1 → f.1 ≠ g.1 ∨ g.1 ≠ h.1 := by
    intro f g h hne
    by_cases hfg : f.1 = g.1
    · exact Or.inr fun hgh => hne (hfg.trans hgh)
    · exact Or.inl hfg
  exact List.forall_mem_pwFilter (R := fun f g : String × String => f.1 ≠ g.1) htrans (name, "")
    files

theorem lastOfEach_of_nodup {files : List (String × String)} (h : (files.map Prod.fst).Nodup) :
    lastOfEach files = files :=
  List.pwFilter_eq_self.mpr (List.pairwise_map.mp h)

/-- No file is followed by a later one exactly if no two files share a name. -/
theorem length_lastOfEach_eq_iff {files : List (String × String)} :
    (lastOfEach files).length = files.length ↔ (files.map Prod.fst).Nodup := by
  constructor
  · intro h
    have hall : lastOfEach files = files := (List.pwFilter_sublist files).eq_of_length h
    exact List.pairwise_map.mpr (List.pwFilter_eq_self.mp hall)
  · intro h
    rw [lastOfEach_of_nodup h]

theorem lastOfEach_append {files : List (String × String)} (h : (files.map Prod.fst).Nodup)
    (more : List (String × String)) :
    lastOfEach (files ++ more) =
      files.filter (fun f => ∀ g ∈ more, f.1 ≠ g.1) ++ lastOfEach more := by
  induction files with
  | nil => rfl
  | cons f fs ih =>
      rw [List.map_cons, List.nodup_cons] at h
      have hown : ∀ g ∈ fs, f.1 ≠ g.1 := fun g hg he => h.1 (he ▸ List.mem_map_of_mem hg)
      rw [List.cons_append]
      by_cases hlast : ∀ g ∈ more, f.1 ≠ g.1
      · have hkeep : lastOfEach (f :: (fs ++ more)) = f :: lastOfEach (fs ++ more) :=
          List.pwFilter_cons_of_pos
            (forall_ne_lastOfEach.mpr (List.forall_mem_append.mpr ⟨hown, hlast⟩))
        rw [hkeep, ih h.2, List.filter_cons_of_pos (by simpa using hlast), List.cons_append]
      · have hdrop : lastOfEach (f :: (fs ++ more)) = lastOfEach (fs ++ more) :=
          List.pwFilter_cons_of_neg fun hall =>
            hlast (List.forall_mem_append.mp (forall_ne_lastOfEach.mp hall)).2
        rw [hdrop, ih h.2, List.filter_cons_of_neg (by simpa using hlast)]

/-- Of the files that are put into a directory the last of each name is found below it, and
what was there stays unless a file has its place. -/
theorem below_putFiles (t : FileTree) (p : List String) (files : List (String × String)) :
    ((t.putFiles p files).below p).Perm
      ((t.below p).filter (fun x => ∀ f ∈ files, x.1 ≠ [f.1]) ++
        (lastOfEach files).map fun f => ([f.1], .file f.2)) := by
  induction files generalizing t with
  | nil =>
      have hall : (t.below p).filter (fun x => ∀ f ∈ ([] : List (String × String)), x.1 ≠ [f.1]) =
          t.below p := List.filter_eq_self.mpr (by simp)
      rw [hall]
      exact List.Perm.of_eq (List.append_nil _).symm
  | cons f fs ih =>
      refine (ih (t.put (p ++ [f.1]) (.file f.2))).trans ?_
      have hput := (below_put t p (List.cons_ne_nil f.1 []) (.file f.2)).filter
        fun x => ∀ g ∈ fs, x.1 ≠ [g.1]
      refine (hput.append_right _).trans ?_
      rw [List.filter_append, List.filter_filter, List.append_assoc]
      have hold : (t.below p).filter
            (fun x => decide (∀ g ∈ fs, x.1 ≠ [g.1]) && decide (x.1 ≠ [f.1])) =
          (t.below p).filter (fun x => ∀ g ∈ f :: fs, x.1 ≠ [g.1]) := by
        refine List.filter_congr fun x _ => ?_
        rw [← Bool.decide_and, decide_eq_decide, List.forall_mem_cons, and_comm]
      rw [hold]
      refine List.Perm.append_left _ (List.Perm.of_eq ?_)
      by_cases hlast : ∀ g ∈ fs, f.1 ≠ g.1
      · have hkeep : lastOfEach (f :: fs) = f :: lastOfEach fs :=
          List.pwFilter_cons_of_pos (forall_ne_lastOfEach.mpr hlast)
        rw [hkeep, List.filter_cons_of_pos (by simpa using hlast)]
        rfl
      · have hdrop : lastOfEach (f :: fs) = lastOfEach fs :=
          List.pwFilter_cons_of_neg (mt forall_ne_lastOfEach.mp hlast)
        rw [hdrop, List.filter_cons_of_neg (by simpa using hlast)]
        rfl

end FileTree

end ClassModel
