/-
Maps that remember the order in which their keys arrived.

A model lists its classes, its members and its constants in the order of the text
they came from, and naming something a second time replaces it where it stands.
`OrderedMap` is that container: a list of entries whose keys are pairwise distinct,
with the distinctness carried by the type.

The lemmas describe each operation through two views, `keys` for the order and `get?`
for the content.  Inserting changes the keys only by appending a new one, and
modifying never changes them at all.
-/
namespace ClassModel

/-- Entries with pairwise distinct keys, in the order of the first insertion of each. -/
structure OrderedMap (α : Type) where
  /-- The entries in order. -/
  entries : List (String × α)
  /-- No key occurs twice. -/
  nodup : (entries.map Prod.fst).Nodup

namespace OrderedMap

variable {α : Type}

@[ext]
theorem ext {m₁ m₂ : OrderedMap α} (h : m₁.entries = m₂.entries) : m₁ = m₂ := by
  cases m₁
  cases m₂
  cases h
  rfl

instance [DecidableEq α] : DecidableEq (OrderedMap α) := fun m₁ m₂ =>
  decidable_of_iff (m₁.entries = m₂.entries) ⟨ext, fun h => h ▸ rfl⟩

/-- The map without entries. -/
def empty : OrderedMap α :=
  ⟨[], List.nodup_nil⟩

instance : EmptyCollection (OrderedMap α) := ⟨empty⟩

instance : Inhabited (OrderedMap α) := ⟨empty⟩

/-- The keys in order. -/
def keys (m : OrderedMap α) : List String :=
  m.entries.map Prod.fst

/-- The values in the order of their keys. -/
def values (m : OrderedMap α) : List α :=
  m.entries.map Prod.snd

/-- The number of entries. -/
def size (m : OrderedMap α) : Nat :=
  m.entries.length

/-- A map without entries. -/
def isEmpty (m : OrderedMap α) : Bool :=
  m.entries.isEmpty

/-- The value under a key. -/
def get? (m : OrderedMap α) (k : String) : Option α :=
  (m.entries.find? fun e => e.1 = k).map Prod.snd

/-- Put a value under a key of a list of entries: in place when the key is there, at the
end otherwise. -/
def place (k : String) (v : α) : List (String × α) → List (String × α)
  | [] => [(k, v)]
  | e :: r => if e.1 = k then (k, v) :: r else e :: place k v r

theorem keys_place (k : String) (v : α) (l : List (String × α)) :
    (place k v l).map Prod.fst =
      if k ∈ l.map Prod.fst then l.map Prod.fst else l.map Prod.fst ++ [k] := by
  induction l with
  | nil => simp [place]
  | cons e r ih =>
      by_cases h : e.1 = k
      · simp [place, h]
      · have h' : ¬k = e.1 := fun hk => h hk.symm
        by_cases hr : k ∈ r.map Prod.fst <;> simp_all [place]

theorem nodup_place {k : String} {v : α} {l : List (String × α)}
    (h : (l.map Prod.fst).Nodup) : ((place k v l).map Prod.fst).Nodup := by
  rw [keys_place]
  split
  · exact h
  · rename_i hk
    exact List.nodup_append.2 ⟨h, by simp, by
      intro a ha b hb
      rcases List.mem_singleton.1 hb with rfl
      exact fun hab => hk (hab ▸ ha)⟩

/-- Put a value under a key, replacing in place what was there. -/
def insert (m : OrderedMap α) (k : String) (v : α) : OrderedMap α :=
  ⟨place k v m.entries, nodup_place m.nodup⟩

/-- Change the value under a key, if there is one. -/
def modify (m : OrderedMap α) (k : String) (f : α → α) : OrderedMap α :=
  ⟨m.entries.map fun e => if e.1 = k then (e.1, f e.2) else e, by
    have h : (m.entries.map fun e => if e.1 = k then (e.1, f e.2) else e).map Prod.fst =
        m.entries.map Prod.fst := by
      rw [List.map_map]
      refine List.map_congr_left fun e _ => ?_
      by_cases he : e.1 = k <;> simp [he]
    rw [h]
    exact m.nodup⟩

/-! ### The two views -/

/-- Inserting keeps the keys and their order, and appends the key if it is new. -/
theorem keys_insert (m : OrderedMap α) (k : String) (v : α) :
    (m.insert k v).keys = if k ∈ m.keys then m.keys else m.keys ++ [k] :=
  keys_place k v m.entries

/-- Modifying keeps the keys. -/
@[simp]
theorem keys_modify (m : OrderedMap α) (k : String) (f : α → α) :
    (m.modify k f).keys = m.keys := by
  simp only [keys, modify, List.map_map]
  refine List.map_congr_left fun e _ => ?_
  by_cases he : e.1 = k <;> simp [he]

theorem find?_place (k j : String) (v : α) (l : List (String × α)) :
    (place k v l).find? (fun e => e.1 = j) =
      if j = k then some (k, v) else l.find? fun e => e.1 = j := by
  induction l with
  | nil => by_cases h : k = j <;> simp [place, h, eq_comm]
  | cons e r ih => by_cases he : e.1 = k <;> by_cases h : j = k <;> grind [place]

/-- After an insertion the key has the new value and every other key its old one. -/
theorem get?_insert (m : OrderedMap α) (k j : String) (v : α) :
    (m.insert k v).get? j = if j = k then some v else m.get? j := by
  simp only [get?, insert, find?_place]
  split <;> rfl

/-- A key is present exactly if there is a value under it. -/
theorem isSome_get?_iff {m : OrderedMap α} {k : String} :
    (m.get? k).isSome = true ↔ k ∈ m.keys := by
  simp only [get?, Option.isSome_map, List.find?_isSome, decide_eq_true_eq, keys, List.mem_map]

/-- After a change the key has the changed value and every other key its old one. -/
theorem get?_modify (m : OrderedMap α) (k j : String) (f : α → α) :
    (m.modify k f).get? j = if j = k then (m.get? j).map f else m.get? j := by
  obtain ⟨entries, nodup⟩ := m
  simp only [get?, modify]
  clear nodup
  induction entries with
  | nil => simp
  | cons e r ih => by_cases he : e.1 = k <;> by_cases hj : e.1 = j <;> grind

@[simp]
theorem get?_empty (k : String) : (∅ : OrderedMap α).get? k = none := rfl

@[simp]
theorem keys_empty : (∅ : OrderedMap α).keys = [] := rfl

end OrderedMap

end ClassModel
