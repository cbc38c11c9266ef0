/-
Interfaces written on their own.

Interfaces are written as part of a model or on their own.  The messages made of parameters
are to join the model, so without one they are not made, and each method leaves a warning
that says so.  That is the whole difference: the text is the same, and the same names are
mentioned in the same order.

Neither a text nor a report depends on the session it comes from.  `Writes` says what a step
comes to, whatever went before, and `Reports` says here, in the same way, what it reports.
Both go from a method to an interface and from an interface to all of them.
-/
import Mathlib.Data.List.Forall2
import ClassModel.Format
import ClassModel.Proofs.Schema.Calls

namespace ClassModel

namespace Schema

/-! ### What a step reports -/

namespace Writing

variable {α β : Type}

/-- A step reports events, whatever went before. -/
def Reports (x : Writing α) (es : List Event) : Prop :=
  ∀ s : Session, (x.run s).events = es

theorem reports_pure (a : α) : Reports (pure a) [] :=
  fun _ => rfl

/-- What follows a step reports behind it. -/
theorem Reports.bind {x : Writing α} {f : α → Writing β} {es es' : List Event}
    (hx : Reports x es) (hf : ∀ a, Reports (f a) es') : Reports (x >>= f) (es ++ es') := by
  intro s
  rw [StateT.run_bind, Traced.events_bind, hx s]
  exact congrArg (es ++ ·) (hf _ _)

theorem Reports.map {x : Writing α} {es : List Event} (hx : Reports x es) (g : α → β) :
    Reports (g <$> x) es := by
  intro s
  rw [StateT.run_map, Traced.events_map, hx s]

theorem Reports.mapM {f : α → Writing β} {events : α → List Event}
    (h : ∀ a, Reports (f a) (events a)) (as : List α) :
    Reports (as.mapM f) (as.flatMap events) := by
  induction as with
  | nil => exact reports_pure []
  | cons a as ih =>
      have htail : ∀ b : β, Reports (as.mapM f >>= fun bs => pure (b :: bs))
          (as.flatMap events) := fun b => by
        have hbehind := ih.bind fun bs => reports_pure (b :: bs)
        rwa [List.append_nil] at hbehind
      rw [List.mapM_cons, List.flatMap_cons]
      exact (h a).bind htail

/-- Notes are taken without a word. -/
theorem reports_mentions (names : List String) : Reports (names.forM mention) [] := by
  induction names with
  | nil => exact reports_pure ()
  | cons name names ih =>
      have hmention : Reports (mention name) [] := fun _ => rfl
      exact hmention.bind fun _ => ih

theorem Writes.map {x : Writing α} {a : α} {notes : List Note} {queued : List Class}
    (hx : Writes x a notes queued) (g : α → β) : Writes (g <$> x) (g a) notes queued := by
  intro s
  rw [StateT.run_map, Traced.value_map, hx s]

end Writing

/-! ### The methods of interfaces -/

/-- The methods of interfaces in order, each with its interface. -/
def methodsOf (is : List Interface) : List (Interface × Method) :=
  is.flatMap fun i => i.methods.values.map fun f => (i, f)

/-- The warning that a method leaves when there is no model. -/
def unavailable (i : Interface) (f : Method) : Event :=
  .payloadUnavailable i.name (procedureName i f)

/-- The messages that interfaces need go through their methods in order. -/
theorem flatMap_parameterMessages (is : List Interface) :
    is.flatMap parameterMessages =
      ((methodsOf is).filter fun x => NeedsMessage x.1 x.2).map fun x =>
        parameterMessage x.1 x.2 := by
  rw [methodsOf, List.filter_flatMap, List.map_flatMap]
  refine congrArg (is.flatMap ·) (funext fun i => ?_)
  rw [List.filter_map, List.map_map]
  rfl

/-! ### Writing interfaces -/

namespace Writing

/-- Write interfaces with blank lines between them, as part of a model or on their own. -/
def interfaces (whole : Option Model) (is : List Interface) : Writing String :=
  Diagram.paragraphs <$> is.mapM (·.write whole .schema)

/-- That is how all interfaces of a model are written. -/
theorem writeAll_interfaces (m : Model) (whole : Option Model) :
    m.writeAll whole .schema .interfaces = interfaces whole m.interfaces.values :=
  bind_pure_comp _ _

theorem writes_interfaces (whole : Option Model) (is : List Interface) :
    Writes (interfaces whole is) (Diagram.paragraphs (is.map fun i => (serviceOf i).render))
      (is.flatMap serviceNotes)
      (is.flatMap fun i => if whole.isSome then payloadsOf i else []) := by
  have hwrite : ∀ i : Interface, Writes (i.write whole .schema) (serviceOf i).render
      (serviceNotes i) (if whole.isSome then payloadsOf i else []) :=
    fun i => (writes_service whole.isSome i).map Service.render
  exact (Writes.mapM hwrite is).map Diagram.paragraphs

theorem reports_procedure (attached : Bool) (i : Interface) (f : Method) :
    Reports (procedure attached i f) (if attached then [] else [unavailable i f]) := by
  intro s
  unfold procedure unavailable
  rw [StateT.run_bind, Traced.events_bind, reports_mentions, ← name_procedureOf]
  cases attached with
  | false => rfl
  | true =>
      rw [if_pos rfl]
      cases payloadOf? (.ofName i.name) f <;> rfl

theorem reports_service (attached : Bool) (i : Interface) :
    Reports (service attached i)
      (i.methods.values.flatMap fun f => if attached then [] else [unavailable i f]) := by
  have hprocedures := Reports.mapM (reports_procedure attached i) i.methods.values
  have hservice := hprocedures.bind fun procedures =>
    reports_pure ({ name := i.name, procedures } : Service)
  rwa [List.append_nil] at hservice

theorem reports_interfaces (whole : Option Model) (is : List Interface) :
    Reports (interfaces whole is)
      ((methodsOf is).flatMap fun x => if whole.isSome then [] else [unavailable x.1 x.2]) := by
  have hwrite : ∀ i : Interface, Reports (i.write whole .schema)
      (i.methods.values.flatMap fun f => if whole.isSome then [] else [unavailable i f]) :=
    fun i => (reports_service whole.isSome i).map Service.render
  have hall := (Reports.mapM hwrite is).map Diagram.paragraphs
  simp only [methodsOf, List.flatMap_assoc, List.flatMap_map]
  exact hall

end Writing

/-- Write interfaces, starting from what a tracker holds. -/
def writtenInterfaces (whole : Option Model) (is : List Interface) (t : TypeTracker) :
    Traced (String × Session) :=
  (Writing.interfaces whole is).run { types := t }

theorem value_writtenInterfaces (whole : Option Model) (is : List Interface) (t : TypeTracker) :
    (writtenInterfaces whole is t).value =
      (Diagram.paragraphs (is.map fun i => (serviceOf i).render),
        Session.after { types := t } (is.flatMap serviceNotes)
          (is.flatMap fun i => if whole.isSome then payloadsOf i else [])) :=
  Writing.writes_interfaces whole is _

theorem events_writtenInterfaces (whole : Option Model) (is : List Interface) (t : TypeTracker) :
    (writtenInterfaces whole is t).events =
      (methodsOf is).flatMap fun x => if whole.isSome then [] else [unavailable x.1 x.2] :=
  Writing.reports_interfaces whole is _

/-- **Interfaces written on their own read as in a model.**  The text is the same, and so is
what the tracker holds at the end.  Without a model no message is queued, and each method
leaves one warning, which names its interface and its procedure.  In a model nothing is
reported, and for each method whose parameters need a message one is queued that bears its
name and has its parameters as fields.  Both come in the order of the methods. -/
theorem writtenInterfaces_detached (m : Model) (is : List Interface) (t : TypeTracker) :
    (writtenInterfaces none is t).value.1 = (writtenInterfaces (some m) is t).value.1 ∧
      (writtenInterfaces none is t).value.2.types =
        (writtenInterfaces (some m) is t).value.2.types ∧
      (writtenInterfaces none is t).value.2.queued = [] ∧
      (writtenInterfaces none is t).events.map (fun e => (e.level, e.message)) =
        (methodsOf is).map (fun x => (.warn,
          "Cannot create parameters & returns classes of method " ++ x.1.name ++ "#" ++
            procedureName x.1 x.2 ++ " because structure is not available")) ∧
      (writtenInterfaces (some m) is t).events = [] ∧
      List.Forall₂ (fun x c => c.name = messageName x.1 x.2 ∧ c.HasFieldsOf x.2)
        ((methodsOf is).filter fun x => NeedsMessage x.1 x.2)
        (writtenInterfaces (some m) is t).value.2.queued := by
  rw [value_writtenInterfaces, value_writtenInterfaces, events_writtenInterfaces,
    events_writtenInterfaces]
  refine ⟨rfl, rfl, ?_, ?_, ?_, ?_⟩
  · exact List.flatMap_eq_nil_iff.mpr fun _ _ => rfl
  · have hwarnings : ((methodsOf is).flatMap fun x => [unavailable x.1 x.2]) =
        (methodsOf is).map fun x => unavailable x.1 x.2 := List.map_eq_flatMap.symm
    show ((methodsOf is).flatMap fun x => [unavailable x.1 x.2]).map _ = _
    rw [hwarnings, List.map_map]
    rfl
  · exact List.flatMap_eq_nil_iff.mpr fun _ _ => rfl
  · show List.Forall₂ _ _ ([] ++ is.flatMap payloadsOf)
    rw [List.nil_append, funext payloadsOf_eq, flatMap_parameterMessages, List.forall₂_map_right_iff,
      List.forall₂_same]
    exact fun x _ => ⟨rfl, hasFieldsOf_parameterMessage x.1 x.2⟩

/-- A call with one parameter and one without. -/
def stockServices : Interface :=
  Interface.addMethod (Interface.addMethod { name := "StockServices" }
    { name := "find", returnType := "Goods", parameters := [⟨"title", "String"⟩] })
    { name := "count", returnType := "int" }

/-- An event with two parameters and one with a single parameter. -/
def stockEvents : Interface :=
  Interface.addMethod (Interface.addMethod { name := "StockEvents" }
    { name := "onSale", parameters := [⟨"goods", "Goods"⟩, ⟨"price", "int"⟩] })
    { name := "onClose", parameters := [⟨"day", "Day"⟩] }

theorem writtenInterfaces_detached_stock :
    (writtenInterfaces none [stockServices, stockEvents] {}).value.1 =
        (writtenInterfaces (some .empty) [stockServices, stockEvents] {}).value.1 ∧
      (writtenInterfaces none [stockServices, stockEvents] {}).value.2.queued = [] ∧
      (writtenInterfaces none [stockServices, stockEvents] {}).events.map (fun e => e.message) =
        ["StockServices#find", "StockServices#count", "StockEvents#getSaleEvent",
          "StockEvents#getCloseEvent"].map (fun method =>
            "Cannot create parameters & returns classes of method " ++ method ++
              " because structure is not available") ∧
      (writtenInterfaces (some .empty) [stockServices, stockEvents] {}).events = [] ∧
      (writtenInterfaces (some .empty) [stockServices, stockEvents] {}).value.2.queued.map
        (fun c => (c.name, c.attributes.keys)) =
          [("findRequest", ["title"]), ("SaleEvent", ["goods", "price"])] := by
  obtain ⟨htext, -, hnone, hwarnings, hquiet, hqueued⟩ :=
    writtenInterfaces_detached .empty [stockServices, stockEvents] {}
  have hneeds : ((methodsOf [stockServices, stockEvents]).filter fun x => NeedsMessage x.1 x.2) =
      [(stockServices, { name := "find", returnType := "Goods", parameters := [⟨"title", "String"⟩] }),
        (stockEvents,
          { name := "onSale", parameters := [⟨"goods", "Goods"⟩, ⟨"price", "int"⟩] })] := by
    decide +kernel
  refine ⟨htext, hnone, ?_, hquiet, ?_⟩
  · have hmessages := congrArg (List.map Prod.snd) hwarnings
    rw [List.map_map, List.map_map] at hmessages
    exact hmessages.trans (by decide +kernel)
  · rw [hneeds] at hqueued
    generalize (writtenInterfaces (some .empty) [stockServices, stockEvents] {}).value.2.queued =
      queued at hqueued ⊢
    cases hqueued with
    | cons hfind hrest =>
        cases hrest with
        | cons hsale hend =>
            cases hend
            simp only [List.map_cons, List.map_nil, hfind.1, hfind.2.names, hsale.1, hsale.2.names]
            decide +kernel

end Schema

end ClassModel
