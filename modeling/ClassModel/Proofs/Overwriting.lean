/-
Maps written over.

Several values are put into a map one after the other, or several values of it are changed.
The two views say what is there afterwards.  Keys that were there keep their places and new
ones follow in the order of their first arrival.  Under a key stands the last value that came
for it, or else the old one.

Both views together are the whole map, so writing the same values over a map a second time
changes nothing.
-/
import ClassModel.Proofs.Construction

namespace ClassModel

namespace OrderedMap

variable {α : Type} {key : α → String}

/-! ### A map is its two views -/

theorem find?_of_mem {l : List (String × α)} (hl : (l.map Prod.fst).Nodup) {e : String × α}
    (he : e ∈ l) : l.find? (fun d => d.1 = e.1) = some e := by
  induction l with
  | nil => cases he
  | cons d r ih =>
      rw [List.map_cons, List.nodup_cons] at hl
      rcases List.mem_cons.mp he with rfl | he
      · exact List.find?_cons_of_pos (by simp)
      · have hde : d.1 ≠ e.1 := fun h => hl.1 (h ▸ List.mem_map_of_mem he)
        rw [List.find?_cons_of_neg (by simpa using hde)]
        exact ih hl.2 he

theorem get?_of_mem {m : OrderedMap α} {e : String × α} (he : e ∈ m.entries) :
    m.get? e.1 = some e.2 := by
  rw [get?, find?_of_mem m.nodup he]
  rfl

/-- A value stands under its own key. -/
theorem get?_of_mem_values {m : OrderedMap α} (h : m.Keyed key) {v : α} (hv : v ∈ m.values) :
    m.get? (key v) = some v := by
  obtain ⟨e, he, rfl⟩ := List.mem_map.mp hv
  rw [← h e he]
  exact get?_of_mem he

/-- The entries of a map, read off its views. -/
theorem map_entries (m : OrderedMap α) :
    m.entries.map (fun e => (e.1, some e.2)) = m.keys.map fun k => (k, m.get? k) := by
  rw [keys, List.map_map]
  refine List.map_congr_left fun e he => ?_
  rw [Function.comp_apply, get?_of_mem he]

/-- **Maps with the same keys in the same order and the same values under them are equal.** -/
theorem ext_views {m₁ m₂ : OrderedMap α} (hkeys : m₁.keys = m₂.keys)
    (hget : ∀ k, m₁.get? k = m₂.get? k) : m₁ = m₂ := by
  have hentries : m₁.entries.map (fun e => (e.1, some e.2)) =
      m₂.entries.map (fun e => (e.1, some e.2)) := by
    rw [map_entries, map_entries, hkeys, funext hget]
  refine ext ((List.map_inj_right ?_).mp hentries)
  rintro ⟨k, v⟩ ⟨j, w⟩ h
  simpa using h

/-! ### The last of several -/

section Last

variable {p : α → Bool} {vs : List α} {v : α}

theorem of_findRev? (h : vs.findRev? p = some v) : v ∈ vs ∧ p v = true := by
  rw [List.findRev?_eq_find?_reverse] at h
  exact ⟨List.mem_reverse.mp (List.mem_of_find?_eq_some h), List.find?_some h⟩

/-- The last image of a kind is the image of the last that has one. -/
theorem findRev?_map {β : Type} (f : β → α) (bs : List β) (p : α → Bool) :
    (bs.map f).findRev? p = (bs.findRev? fun b => p (f b)).map f := by
  rw [List.findRev?_eq_find?_reverse, List.findRev?_eq_find?_reverse, ← List.map_reverse,
    List.find?_map]
  rfl

/-- The last of a kind is the given one or comes behind it. -/
theorem exists_findRev?_append_cons (before after : List α) (hp : p v = true) :
    ∃ w, (before ++ v :: after).findRev? p = some w ∧ p w = true ∧ (w = v ∨ w ∈ after) := by
  rw [List.findRev?_eq_find?_reverse, List.reverse_append, List.reverse_cons, List.append_assoc,
    List.singleton_append, List.find?_append, List.find?_cons_of_pos hp,
    ← List.findRev?_eq_find?_reverse]
  cases hafter : after.findRev? p with
  | none => exact ⟨v, rfl, hp, Or.inl rfl⟩
  | some w =>
      obtain ⟨hw, hpw⟩ := of_findRev? hafter
      exact ⟨w, rfl, hpw, Or.inr hw⟩

/-- The last of a kind stands at the given place or behind it. -/
theorem exists_getElem_findRev? (i : Fin vs.length) (hp : p vs[i] = true) :
    ∃ j : Fin vs.length, i ≤ j ∧ p vs[j] = true ∧ vs.findRev? p = some vs[j] := by
  have hsplit : vs = vs.take i ++ vs[i] :: vs.drop (i + 1) := by
    rw [Fin.getElem_fin, List.getElem_cons_drop, List.take_append_drop]
  obtain ⟨w, hfind, hw, hplace⟩ :=
    exists_findRev?_append_cons (vs.take i) (vs.drop (i + 1)) hp
  rw [← hsplit] at hfind
  rcases hplace with rfl | hbehind
  · exact ⟨i, Nat.le_refl _, hw, hfind⟩
  · obtain ⟨k, hk, rfl⟩ := List.mem_drop_iff_getElem.mp hbehind
    refine ⟨⟨i + 1 + k, by omega⟩, ?_, hw, hfind⟩
    show (i : Nat) ≤ i + 1 + k
    omega

end Last

/-! ### Several values put in -/

/-- Keys keep their places, and new ones follow in the order of their first arrival. -/
theorem keys_foldl_insert (m : OrderedMap α) (vs : List α) :
    (vs.foldl (fun acc v => acc.insert (key v) v) m).keys =
      m.keys ++ ((vs.map key).filter (· ∉ m.keys)).eraseDups := by
  induction vs generalizing m with
  | nil => simp
  | cons v vs ih =>
      rw [List.foldl_cons, ih, keys_insert, List.map_cons]
      by_cases hk : key v ∈ m.keys
      · rw [if_pos hk, List.filter_cons_of_neg (by simpa using hk)]
      · rw [if_neg hk, List.filter_cons_of_pos (by simpa using hk), List.eraseDups_cons,
          List.filter_filter, List.append_assoc, List.singleton_append]
        congr 3
        refine List.filter_congr fun k _ => ?_
        by_cases h : k = key v <;> simp [h]

/-- Under a key stands the last value that came for it, or else the old one. -/
theorem get?_foldl_insert (m : OrderedMap α) (vs : List α) (k : String) :
    (vs.foldl (fun acc v => acc.insert (key v) v) m).get? k =
      (vs.findRev? fun v => key v = k).or (m.get? k) := by
  induction vs generalizing m with
  | nil => rfl
  | cons v vs ih =>
      rw [List.foldl_cons, ih, get?_insert, List.findRev?]
      cases vs.findRev? fun v => key v = k with
      | some w => rfl
      | none => by_cases hk : k = key v <;> simp [hk, eq_comm]

/-- **Writing the same values over a map a second time changes nothing.** -/
theorem foldl_insert_foldl_insert (m : OrderedMap α) (vs : List α) :
    vs.foldl (fun acc v => acc.insert (key v) v)
        (vs.foldl (fun acc v => acc.insert (key v) v) m) =
      vs.foldl (fun acc v => acc.insert (key v) v) m := by
  refine ext_views ?_ fun k => ?_
  · rw [keys_foldl_insert]
    have hnone : (vs.map key).filter
        (· ∉ (vs.foldl (fun acc v => acc.insert (key v) v) m).keys) = [] := by
      refine List.filter_eq_nil_iff.mpr fun k hk => ?_
      rw [keys_foldl_insert]
      by_cases h : k ∈ m.keys <;> simp_all
    rw [hnone, List.eraseDups_nil, List.append_nil]
  · rw [get?_foldl_insert, get?_foldl_insert, ← Option.or_assoc, Option.or_self]

/-- Nothing is in the map but what was put in or was there. -/
theorem mem_values_foldl_insert {m : OrderedMap α} {vs : List α} {w : α}
    (h : w ∈ (vs.foldl (fun acc v => acc.insert (key v) v) m).values) : w ∈ vs ∨ w ∈ m.values := by
  induction vs generalizing m with
  | nil => exact Or.inr h
  | cons v vs ih =>
      rcases ih h with hw | hw
      · exact Or.inl (List.mem_cons_of_mem _ hw)
      · rcases mem_values_insert hw with rfl | hw
        · exact Or.inl List.mem_cons_self
        · exact Or.inr hw

theorem keyed_foldl_insert {m : OrderedMap α} (h : m.Keyed key) (vs : List α) :
    (vs.foldl (fun acc v => acc.insert (key v) v) m).Keyed key := by
  induction vs generalizing m with
  | nil => exact h
  | cons v vs ih => exact ih (keyed_insert h rfl)

/-- **A value stays where it is**, or the last value that came for its key is in its place. -/
theorem getElem?_values_foldl_insert {m : OrderedMap α} (h : m.Keyed key) (vs : List α) {i : Nat}
    {v : α} (hv : m.values[i]? = some v) :
    (vs.foldl (fun acc w => acc.insert (key w) w) m).values[i]? =
      some ((vs.findRev? fun w => key w = key v).getD v) := by
  have hkeyed := keyed_foldl_insert h vs
  have hkey : m.keys[i]? = some (key v) := by
    rw [← map_values h, List.getElem?_map, hv]
    rfl
  have hkeys : (vs.foldl (fun acc w => acc.insert (key w) w) m).keys[i]? = some (key v) := by
    rw [keys_foldl_insert, List.getElem?_append_left (List.getElem?_eq_some_iff.mp hkey).1, hkey]
  rw [← map_values hkeyed, List.getElem?_map] at hkeys
  obtain ⟨w, hw, hkw⟩ := Option.map_eq_some_iff.mp hkeys
  -- What stands there is found under its key, and so is what came last.
  have hget := get?_of_mem_values hkeyed (List.mem_of_getElem? hw)
  rw [hkw, get?_foldl_insert, get?_of_mem_values h (List.mem_of_getElem? hv),
    Option.or_some] at hget
  exact hw.trans hget.symm

/-! ### Several values changed -/

section Changes

variable {β : Type} (target : β → String) (change : β → α → α)

theorem keys_foldl_modify (m : OrderedMap α) (bs : List β) :
    (bs.foldl (fun acc b => acc.modify (target b) (change b)) m).keys = m.keys := by
  induction bs generalizing m with
  | nil => rfl
  | cons b bs ih => rw [List.foldl_cons, ih, keys_modify]

/-- Each value undergoes the changes meant for its key, in order. -/
theorem get?_foldl_modify (m : OrderedMap α) (bs : List β) (k : String) :
    (bs.foldl (fun acc b => acc.modify (target b) (change b)) m).get? k =
      (m.get? k).map fun v => (bs.filter (target · = k)).foldl (fun v b => change b v) v := by
  induction bs generalizing m with
  | nil => simp
  | cons b bs ih =>
      rw [List.foldl_cons, ih, get?_modify]
      by_cases hk : k = target b
      · rw [if_pos hk, List.filter_cons_of_pos (by simp [hk]), Option.map_map]
        rfl
      · rw [if_neg hk, List.filter_cons_of_neg (by simpa using Ne.symm hk)]

theorem keyed_foldl_modify {m : OrderedMap α} (h : m.Keyed key)
    (hchange : ∀ b v, key (change b v) = key v) (bs : List β) :
    (bs.foldl (fun acc b => acc.modify (target b) (change b)) m).Keyed key := by
  induction bs generalizing m with
  | nil => exact h
  | cons b bs ih => exact ih (keyed_modify h (hchange b) _)

theorem modify_of_get?_eq_none {m : OrderedMap α} {k : String} (h : m.get? k = none)
    (f : α → α) : m.modify k f = m := by
  refine ext_views (keys_modify m k f) fun j => ?_
  rw [get?_modify]
  split
  · rename_i hj
    rw [hj, h]
    rfl
  · rfl

end Changes

end OrderedMap

end ClassModel
