/-
Computations that report events.

`Traced α` is a value together with the reports of its computation, in order.  A report is
an event and the activities during which it came about, the widest one first.  `Traced` is
a lawful monad, so a sequence of steps may be split anywhere without changing what is
reported.
-/
import ClassModel.Event

namespace ClassModel

/-- An event and the activities around it, from the outside in. -/
structure Report where
  event : Event
  during : List Activity := []
  deriving DecidableEq, Inhabited, Repr

/-- A report that came about during one more activity, which lies around the others. -/
def Report.inside (a : Activity) (r : Report) : Report :=
  { r with during := a :: r.during }

/-- A value and the reports of its computation, in order. -/
structure Traced (α : Type) where
  value : α
  reports : List Report := []
  deriving Inhabited

namespace Traced

instance : Monad Traced where
  pure a := { value := a }
  bind x f :=
    let y := f x.value
    { value := y.value, reports := x.reports ++ y.reports }

@[ext]
theorem ext {α : Type} {x y : Traced α} (hv : x.value = y.value) (hr : x.reports = y.reports) :
    x = y := by
  cases x
  cases y
  simp_all

variable {α β : Type}

/-- The events of a computation, in order. -/
def events (x : Traced α) : List Event :=
  x.reports.map Report.event

@[simp]
theorem value_pure (a : α) : (pure a : Traced α).value = a := rfl

@[simp]
theorem reports_pure (a : α) : (pure a : Traced α).reports = [] := rfl

@[simp]
theorem events_pure (a : α) : (pure a : Traced α).events = [] := rfl

@[simp]
theorem value_bind (x : Traced α) (f : α → Traced β) : (x >>= f).value = (f x.value).value := rfl

@[simp]
theorem reports_bind (x : Traced α) (f : α → Traced β) :
    (x >>= f).reports = x.reports ++ (f x.value).reports := rfl

@[simp]
theorem events_bind (x : Traced α) (f : α → Traced β) :
    (x >>= f).events = x.events ++ (f x.value).events :=
  List.map_append

@[simp]
theorem value_map (g : α → β) (x : Traced α) : (g <$> x).value = g x.value := rfl

@[simp]
theorem reports_map (g : α → β) (x : Traced α) : (g <$> x).reports = x.reports :=
  List.append_nil _

@[simp]
theorem events_map (g : α → β) (x : Traced α) : (g <$> x).events = x.events := by
  rw [events, reports_map, events]

instance : LawfulMonad Traced := LawfulMonad.mk' Traced
  (fun _ => ext rfl (List.append_nil _))
  (fun _ _ => rfl)
  (fun _ _ _ => ext rfl (List.append_assoc ..))

theorem value_mapM (f : α → Traced β) (l : List α) :
    (l.mapM f).value = l.map fun a => (f a).value := by
  induction l with
  | nil => rfl
  | cons a l ih => rw [List.mapM_cons, value_bind, value_bind, ih]; rfl

theorem value_foldlM (f : β → α → Traced β) (l : List α) (b : β) :
    (l.foldlM f b).value = l.foldl (fun b a => (f b a).value) b := by
  induction l generalizing b with
  | nil => rfl
  | cons a l ih => rw [List.foldlM_cons, value_bind, ih, List.foldl_cons]

/-- A value and the events of its computation, in order, without an activity around them. -/
def ofEvents (a : α) (es : List Event) : Traced α :=
  { value := a, reports := es.map fun e => { event := e } }

@[simp]
theorem value_ofEvents (a : α) (es : List Event) : (ofEvents a es).value = a := rfl

@[simp]
theorem events_ofEvents (a : α) (es : List Event) : (ofEvents a es).events = es := by
  simp [events, ofEvents, Function.comp_def]

/-- Report an event. -/
def emit (e : Event) : Traced Unit :=
  ofEvents () [e]

/-- Report an event if a condition holds. -/
def emitIf (b : Bool) (e : Event) : Traced Unit :=
  ofEvents () (if b then [e] else [])

/-- A computation as part of an activity. -/
def within (a : Activity) (x : Traced α) : Traced α :=
  { x with reports := x.reports.map (Report.inside a) }

/-- An activity changes nothing in the value. -/
@[simp]
theorem value_within (a : Activity) (x : Traced α) : (x.within a).value = x.value := rfl

/-- An activity neither adds nor drops an event. -/
@[simp]
theorem events_within (a : Activity) (x : Traced α) : (x.within a).events = x.events := by
  simp only [events, within, List.map_map]
  rfl

/-- The events that warn. -/
def warnings (x : Traced α) : List Event :=
  x.events.filter fun e => e.level = .warn

end Traced

end ClassModel
