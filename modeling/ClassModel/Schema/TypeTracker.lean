/-
Which names a schema defines and which it only mentions.

While a schema is written, every definition and every mention of a type is noted.  A name
is pending from its first mention until its definition, and a name that is defined already
never becomes pending.  What is pending at the end needs a placeholder.
-/
namespace ClassModel.Schema

/-- The names defined so far, and the names mentioned but not defined, in the order of
their first mention. -/
structure TypeTracker where
  defined : List String := []
  pending : List String := []
  deriving DecidableEq, Inhabited, Repr

namespace TypeTracker

/-- Note a definition. -/
def define (t : TypeTracker) (name : String) : TypeTracker where
  defined := if name ∈ t.defined then t.defined else t.defined ++ [name]
  pending := t.pending.filter (· ≠ name)

/-- Note a mention. -/
def mention (t : TypeTracker) (name : String) : TypeTracker :=
  if name ∈ t.defined ∨ name ∈ t.pending then t
  else { t with pending := t.pending ++ [name] }

/-- The name has been defined. -/
def isDefined (t : TypeTracker) (name : String) : Bool :=
  name ∈ t.defined

/-- Some name is pending. -/
def hasPending (t : TypeTracker) : Bool :=
  !t.pending.isEmpty

/-! ### Membership -/

@[simp]
theorem mem_defined_define {t : TypeTracker} {name other : String} :
    other ∈ (t.define name).defined ↔ other ∈ t.defined ∨ other = name := by
  by_cases h : name ∈ t.defined <;> grind [define]

@[simp]
theorem mem_pending_define {t : TypeTracker} {name other : String} :
    other ∈ (t.define name).pending ↔ other ∈ t.pending ∧ other ≠ name := by
  simp [define]

@[simp]
theorem defined_mention (t : TypeTracker) (name : String) :
    (t.mention name).defined = t.defined := by
  unfold mention
  split <;> rfl

end TypeTracker

end ClassModel.Schema
