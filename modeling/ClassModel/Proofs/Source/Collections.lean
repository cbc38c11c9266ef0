/-
Types that stand for many objects.

A field of a class holds one object or many, and only in the first case it is an attribute.  Which
types hold many is said here as a relation between a type and what it holds: an array holds its
elements, and an `ArrayList` what its arguments say, whatever packages stand in front of it.

No type holds two things, since an `ArrayList` with brackets behind it is an array and nothing
else.  So the relation is a partial function, and it can be asked for one type at a time.
-/
import ClassModel.Source.Visit

namespace ClassModel.Source

/-- A type stands for many objects of another one: an array of its elements, or a type whose last
segment is an `ArrayList` with arguments. -/
inductive StandsForMany : TypeExpr → String → Prop where
  | array {t : TypeExpr} (h : t.dims ≠ 0) : StandsForMany t t.element
  | list (front : List TypeSegment) (arguments : List TypeArgument) :
      StandsForMany (.reference (front ++ [.applied "ArrayList" arguments]) 0)
        (argumentsText arguments)

theorem manyOf?_eq_some_iff {t : TypeExpr} {target : String} :
    t.manyOf? = some target ↔ StandsForMany t target := by
  constructor
  · intro h
    cases t with
    | primitive name dims =>
        rw [TypeExpr.manyOf?] at h
        split at h
        · cases h
        · rename_i hdims
          cases h
          exact .array (t := .primitive target dims) hdims
    | reference segments dims =>
        rw [TypeExpr.manyOf?] at h
        split at h
        · rename_i hdims
          cases h
          exact .array (t := .reference segments dims) hdims
        · rename_i hdims
          obtain rfl : dims = 0 := Decidable.not_not.mp hdims
          split at h
          · rename_i name arguments hlast
            obtain ⟨hname, htarget⟩ := Option.ite_none_right_eq_some.mp h
            cases hname
            cases htarget
            obtain ⟨front, rfl⟩ := List.getLast?_eq_some_iff.mp hlast
            exact .list front arguments
          · cases h
  · intro h
    cases h with
    | array hdims =>
        cases t with
        | primitive name dims => exact if_neg hdims
        | reference segments dims => exact if_pos hdims
    | list front arguments =>
        have hlast : (front ++ [TypeSegment.applied "ArrayList" arguments]).getLast? =
            some (.applied "ArrayList" arguments) := List.getLast?_concat
        rw [TypeExpr.manyOf?, if_neg (fun h => h rfl), hlast]
        exact if_pos rfl

/-- The arguments behind the last segment of a type. -/
def TypeExpr.arguments : TypeExpr → List TypeArgument
  | .primitive _ _ => []
  | .reference segments _ =>
      match segments.getLast? with
      | some (.applied _ arguments) => arguments
      | _ => []

/-- What a type holds if it stands for many objects: its elements if it is an array, and otherwise
what its arguments say. -/
def TypeExpr.items (t : TypeExpr) : String :=
  if t.dims ≠ 0 then t.element else argumentsText t.arguments

variable {t : TypeExpr} {target : String}

theorem StandsForMany.eq_items (h : StandsForMany t target) : target = t.items := by
  unfold TypeExpr.items
  cases h with
  | array hdims => rw [if_pos hdims]
  | list front arguments =>
      rw [if_neg (fun h => h rfl), TypeExpr.arguments, List.getLast?_concat]

instance (t : TypeExpr) : Decidable (∃ target, StandsForMany t target) :=
  decidable_of_iff (t.manyOf?.isSome = true)
    (Option.isSome_iff_exists.trans (exists_congr fun _ => manyOf?_eq_some_iff))

/-- Exactly the types that stand for many objects are found to hold something. -/
theorem manyOf?_eq (t : TypeExpr) :
    t.manyOf? = if ∃ target, StandsForMany t target then some t.items else none := by
  split
  · rename_i hmany
    obtain ⟨target, h⟩ := hmany
    rw [manyOf?_eq_some_iff.mpr h, h.eq_items]
  · rename_i hmany
    rw [Option.eq_none_iff_forall_ne_some]
    exact fun target h => hmany ⟨target, manyOf?_eq_some_iff.mp h⟩

end ClassModel.Source
