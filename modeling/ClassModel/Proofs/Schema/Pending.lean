/-
What is pending after a run.

A tracker is given notes, one after the other, and at any time it can be asked which names
are pending.  The answer depends on the notes alone: a name is pending exactly if it was
mentioned and never defined, before the mention or behind it, and the pending names come in
the order in which they were mentioned first.

The order is what needs an invariant.  A name that becomes pending was never mentioned before,
so its first mention is the last note of all, and it rightly goes to the end.  A definition
takes a name out and leaves the others in their places, and the same name cannot come back.
-/
import Mathlib.Data.List.Basic
import ClassModel.Proofs.Schema.Tracking

namespace ClassModel.Schema

namespace TypeTracker

variable {notes : List Note} {t : TypeTracker}

/-! ### What a tracker holds, name by name -/

/-- A name is pending exactly if it was mentioned and never defined. -/
theorem Tracks.mem_pending_iff (h : Tracks notes t) {name : String} :
    name ∈ t.pending ↔ Note.mention name ∈ notes ∧ Note.define name ∉ notes := by
  rw [h.pending, List.mem_filter, List.mem_eraseDups, mem_mentions, decide_eq_true_eq,
    mem_definitions]

/-- A name counts as defined exactly if it was ever defined. -/
theorem Tracks.isDefined_iff (h : Tracks notes t) {name : String} :
    t.isDefined name = true ↔ Note.define name ∈ notes := by
  rw [isDefined, decide_eq_true_eq, h.defined, List.mem_eraseDups, mem_definitions]

/-- No name is both defined and pending. -/
theorem Tracks.disjoint (h : Tracks notes t) : t.defined.Disjoint t.pending := by
  intro name hdefined hpending
  have hname := h.isDefined_iff.mp (decide_eq_true hdefined)
  exact (h.mem_pending_iff.mp hpending).2 hname

/-! ### The order of the pending names -/

/-- The place of the first mention of a name among the notes. -/
def firstMention (notes : List Note) (name : String) : Nat :=
  notes.idxOf (.mention name)

theorem firstMention_append {name : String} (hname : Note.mention name ∈ notes) (n : Note) :
    firstMention (notes ++ [n]) name = firstMention notes name :=
  List.idxOf_append_of_mem hname

/-- A name that is mentioned for the first time is mentioned last of all. -/
theorem firstMention_append_self {name : String} (hname : Note.mention name ∉ notes) :
    firstMention (notes ++ [.mention name]) name = notes.length := by
  rw [firstMention, List.idxOf_append_of_notMem hname, List.idxOf_cons_self, Nat.add_zero]

theorem firstMention_lt {name : String} (hname : Note.mention name ∈ notes) :
    firstMention notes name < notes.length :=
  List.idxOf_lt_length_of_mem hname

/-- The pending names stand in the order of their first mentions. -/
def InOrder (notes : List Note) (t : TypeTracker) : Prop :=
  t.pending.Pairwise fun a b => firstMention notes a < firstMention notes b

/-- Another note moves no first mention. -/
theorem InOrder.append (h : InOrder notes t) (ht : Tracks notes t) (n : Note) :
    InOrder (notes ++ [n]) t := by
  refine List.Pairwise.imp_of_mem (fun {a b} ha hb hab => ?_) h
  rw [firstMention_append (ht.mem_pending_iff.mp ha).1,
    firstMention_append (ht.mem_pending_iff.mp hb).1]
  exact hab

/-- One note keeps the order. -/
theorem InOrder.note (h : InOrder notes t) (ht : Tracks notes t) (n : Note) :
    InOrder (notes ++ [n]) (t.note n) := by
  cases n with
  | define name => exact (h.append ht _).filter _
  | mention name =>
      show InOrder _ (t.mention name)
      by_cases hknown : name ∈ t.defined ∨ name ∈ t.pending
      · rw [TypeTracker.mention, if_pos hknown]
        exact h.append ht _
      · have hnew : Note.mention name ∉ notes := by
          intro hname
          rcases ht.of_mention hname with hdefine | hpending
          · have hdefined := ht.isDefined_iff.mpr hdefine
            exact hknown (Or.inl (of_decide_eq_true hdefined))
          · exact hknown (Or.inr hpending)
        rw [TypeTracker.mention, if_neg hknown]
        refine List.pairwise_append.mpr ⟨h.append ht _, List.pairwise_singleton _ _, ?_⟩
        intro a ha b hb
        obtain rfl := List.mem_singleton.mp hb
        have hmentioned := (ht.mem_pending_iff.mp ha).1
        rw [firstMention_append hmentioned, firstMention_append_self hnew]
        exact firstMention_lt hmentioned

theorem InOrder.noteAll (h : InOrder notes t) (ht : Tracks notes t) (more : List Note) :
    InOrder (notes ++ more) (t.noteAll more) := by
  induction more generalizing notes t with
  | nil => rwa [List.append_nil]
  | cons n more ih =>
      have hmore := ih (h.note ht n) (ht.note n)
      rwa [List.append_assoc, List.singleton_append] at hmore

theorem inOrder_noteAll (notes : List Note) : InOrder notes (noteAll {} notes) := by
  have hstart : InOrder [] {} := List.Pairwise.nil
  exact hstart.noteAll tracks_nil notes

/-! ### A whole run -/

/-- **A tracker knows exactly what was noted.**  The pending names are those that were mentioned
and never defined, each once and in the order of first mention.  The names that count as defined
are those that ever were.  And after no number of notes is a name both. -/
theorem noteAll_exact (notes : List Note) :
    (noteAll {} notes).pending.Nodup ∧
      (∀ name, name ∈ (noteAll {} notes).pending ↔
        Note.mention name ∈ notes ∧ Note.define name ∉ notes) ∧
      (noteAll {} notes).pending.Pairwise
        (fun a b => firstMention notes a < firstMention notes b) ∧
      (∀ name, (noteAll {} notes).isDefined name = true ↔ Note.define name ∈ notes) ∧
      ∀ k, (noteAll {} (notes.take k)).defined.Disjoint (noteAll {} (notes.take k)).pending := by
  have hnotes := tracks_noteAll notes
  have horder := inOrder_noteAll notes
  refine ⟨?_, fun name => hnotes.mem_pending_iff, horder, fun name => hnotes.isDefined_iff,
    fun k => (tracks_noteAll (notes.take k)).disjoint⟩
  exact horder.imp fun h => by
    rintro rfl
    exact absurd h (Nat.lt_irrefl _)

end TypeTracker

end ClassModel.Schema
