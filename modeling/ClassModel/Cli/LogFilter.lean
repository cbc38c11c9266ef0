/-
Which events are logged.

A filter is a list of directives, separated by commas.  An event is let through for one of
two reasons.

The first is the event itself.  Of the directives that name no activity and want no value,
those fit whose target is a beginning of the event's target and whose field the event has.
The one with the longest target decides, and among those with the same target one with a
field comes before one without.

The second is an activity around the event.  A directive that names an activity, or a
field of activities, fits each activity of that name, in that part of the library, with
that field.  An activity is only noted if some directive of the filter, whichever it is,
lets something as unimportant as the activity through; a wanted value makes every activity
noted.

A directive that repeats the scope of an earlier one takes its place.  Without any
directive only errors are let through, and a filter that cannot be read lets through
everything from the level `info` on.
-/
import ClassModel.Cli.Directive
import ClassModel.Traced

namespace ClassModel

namespace Directive

/-- Two directives are for the same events. -/
def sameScope (d e : Directive) : Bool :=
  d.target == e.target && d.activity == e.activity && d.field == e.field

/-- The directive asks what a field holds. -/
def wantsValue (d : Directive) : Bool :=
  d.field.any fun f => f.value.isSome

/-- The target of something lies in the directive's part of the library. -/
def coversOrigin (d : Directive) (o : Origin) : Bool :=
  d.target.toList.isPrefixOf o.target.toList

/-- The directive fits an event by what the event is. -/
def fitsEvent (d : Directive) (e : Event) : Bool :=
  d.activity.isNone && !d.wantsValue && d.coversOrigin e.origin &&
    d.field.all fun f => e.fieldNames.contains f.name

/-- A field of an activity is as it is wanted. -/
def fitsField (f : FieldTest) (a : Activity) : Bool :=
  a.fields.any fun (name, n) =>
    name == f.name &&
      match f.value with
      | none => true
      | some v => v == .number n

/-- The directive fits an activity, so that events come through on its account. -/
def fitsActivity (d : Directive) (a : Activity) : Bool :=
  (d.activity.isSome || d.field.isSome) && d.coversOrigin a.origin &&
    d.activity.all (· == a.name) && d.field.all (fitsField · a)

/-- The name of the field of a directive; no field comes before all names. -/
def fieldName (d : Directive) : String :=
  (d.field.map FieldTest.name).getD ""

/-- Of two directives that fit the same event the second one is at least as specific. -/
def yieldsTo (d e : Directive) : Bool :=
  d.target.length < e.target.length ||
    (d.target.length == e.target.length && decide (d.fieldName ≤ e.fieldName))

end Directive

/-- Directives in the order in which they were given. -/
structure LogFilter where
  directives : List Directive
  deriving DecidableEq, Inhabited, Repr

namespace LogFilter

/-- The filter with one threshold for everything. -/
def uniform (threshold : Threshold) : LogFilter :=
  ⟨[{ threshold }]⟩

/-- The filter that lets nothing through. -/
def off : LogFilter :=
  uniform .nothing

/-- The filter of a list of directives. -/
def ofText (text : String) : LogFilter :=
  match ((splitText ',' text).filter (· ≠ "")).mapM Directive.ofText? with
  | some [] => uniform Level.error.rank
  | some ds => ⟨ds⟩
  | none => uniform Level.info.rank

/-- The directives without those that a later one replaces. -/
def lastOfEach : List Directive → List Directive
  | [] => []
  | d :: r => if r.any d.sameScope then lastOfEach r else d :: lastOfEach r

/-- Replaced directives are left out, and the others keep their order. -/
theorem lastOfEach_sublist (ds : List Directive) : (lastOfEach ds).Sublist ds := by
  induction ds with
  | nil => exact .slnil
  | cons d r ih =>
      rw [lastOfEach]
      split
      · exact ih.cons d
      · exact ih.cons_cons d

/-- The directives that count. -/
def inForce (f : LogFilter) : List Directive :=
  lastOfEach f.directives

/-- The directive that decides about an event by what it is: the most specific one. -/
def decisive? (f : LogFilter) (e : Event) : Option Directive :=
  (f.inForce.filter (·.fitsEvent e)).foldl
    (fun best d =>
      match best with
      | none => some d
      | some b => if b.yieldsTo d then some d else some b)
    none

/-- The event is let through for what it is. -/
def letsEvent (f : LogFilter) (e : Event) : Bool :=
  (f.decisive? e).any fun d => d.threshold ≤ e.level.rank

/-- The activity is noted. -/
def notes (f : LogFilter) (a : Activity) : Bool :=
  f.directives.any fun d => d.wantsValue || d.threshold ≤ a.level.rank

/-- Events of a level are let through during an activity. -/
def letsDuring (f : LogFilter) (level : Level) (a : Activity) : Bool :=
  f.notes a && f.inForce.any fun d => d.fitsActivity a && d.threshold ≤ level.rank

/-- The filter lets a report through. -/
def lets (f : LogFilter) (r : Report) : Bool :=
  f.letsEvent r.event || r.during.any (f.letsDuring r.event.level)

/-! ### One threshold for everything -/

/-- With one threshold for everything that threshold decides about every event. -/
theorem lets_uniform (t : Threshold) (r : Report) :
    (uniform t).lets r = decide (t ≤ r.event.level.rank) := by
  have hf : inForce (uniform t) = [{ threshold := t }] := rfl
  have hd (a : Activity) : (uniform t).letsDuring r.event.level a = false := by
    simp [letsDuring, hf, Directive.fitsActivity]
  have he : (uniform t).letsEvent r.event = decide (t ≤ r.event.level.rank) := by
    simp [letsEvent, decisive?, hf, Directive.fitsEvent, Directive.wantsValue,
      Directive.coversOrigin]
  simp [lets, hd, he]

/-- The filter that is off lets nothing through. -/
@[simp]
theorem lets_off (r : Report) : off.lets r = false := by
  rw [off, lets_uniform]
  cases r.event.level <;> rfl

end LogFilter

end ClassModel
