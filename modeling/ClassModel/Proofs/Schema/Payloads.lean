/-
Messages made of parameters.

The parameters of a method become the fields of a message, and the message is registered as a
class.  All messages of a model are registered one after the other, in the order of the
methods, so under a name stands the last message that bears it, or else the class that was
there.

The name is made of the name of the method alone.  Nothing in it tells two interfaces apart,
or a message from a declared class.  So a message may be written over, and may write over a
class, but only by a clash of names.
-/
import ClassModel.Proofs.Schema.Written

namespace ClassModel

open Schema

/-! ### Parameters as fields -/

/-- The field for a parameter. -/
def Parameter.asAttribute (p : Parameter) : Attribute where
  name := p.name
  type := p.type

/-- The attributes of a class are the parameters of a method, in their order.  Parameters of
one name have one field, in the place of the first and of the type of the last. -/
structure Class.HasFieldsOf (c : Class) (f : Method) : Prop where
  names : c.attributes.keys = (f.parameters.map Parameter.name).eraseDups
  fields : ∀ name, c.attributes.get? name =
    (f.parameters.findRev? fun p => p.name = name).map Parameter.asAttribute
  of_nodup : (f.parameters.map Parameter.name).Nodup →
    c.attributes.values = f.parameters.map Parameter.asAttribute

theorem payloadClass_eq (name : String) (f : Method) :
    payloadClass name f =
      { name
        attributes := .ofValues Attribute.name (f.parameters.map Parameter.asAttribute) } := by
  have hfold : payloadClass name f =
      (f.parameters.map Parameter.asAttribute).foldl Class.addAttribute { name } := by
    rw [List.foldl_map]
    rfl
  rw [hfold, foldl_addAttribute]
  rfl

theorem hasFieldsOf_payloadClass (name : String) (f : Method) :
    (payloadClass name f).HasFieldsOf f := by
  have hnames : (f.parameters.map Parameter.asAttribute).map Attribute.name =
      f.parameters.map Parameter.name := by
    rw [List.map_map]
    rfl
  rw [payloadClass_eq]
  constructor
  · show (OrderedMap.ofValues _ _).keys = _
    rw [OrderedMap.ofValues, OrderedMap.keys_foldl_insert, hnames, OrderedMap.keys_empty,
      List.nil_append]
    exact congrArg List.eraseDups (List.filter_eq_self.mpr fun _ _ => rfl)
  · intro n
    show (OrderedMap.ofValues _ _).get? n = _
    rw [OrderedMap.ofValues, OrderedMap.get?_foldl_insert, OrderedMap.get?_empty, Option.or_none,
      OrderedMap.findRev?_map]
    rfl
  · intro hnodup
    exact OrderedMap.values_ofValues (hnames ▸ hnodup)

/-! ### The methods of a model -/

/-- A method of an interface and the kind of service that the interface becomes. -/
structure Handler where
  kind : ServiceKind
  method : Method
  deriving DecidableEq

/-- The message made of the parameters. -/
def Handler.payload? (h : Handler) : Option Class :=
  payloadOf? h.kind h.method

/-- The message of a method bears the name of its request or of its event. -/
theorem Handler.exists_payloadClass {h : Handler} {q : Class} (hq : h.payload? = some q) :
    ∃ name, (name = requestName h.method ∨ name = eventName h.method) ∧
      q = payloadClass name h.method := by
  obtain ⟨kind, f⟩ := h
  cases kind with
  | services =>
      obtain ⟨-, hq⟩ := Option.ite_none_left_eq_some.mp hq
      exact ⟨_, Or.inl rfl, (Option.some.inj hq).symm⟩
  | dataProvider | events | plain =>
      obtain ⟨-, hq⟩ := Option.ite_none_left_eq_some.mp hq
      exact ⟨_, Or.inr rfl, (Option.some.inj hq).symm⟩

theorem Handler.hasFieldsOf_of_payload? {h : Handler} {q : Class} (hq : h.payload? = some q) :
    q.HasFieldsOf h.method := by
  obtain ⟨name, -, rfl⟩ := exists_payloadClass hq
  exact hasFieldsOf_payloadClass name h.method

theorem flatMap_toList {α β : Type} (f : α → Option β) (as : List α) :
    as.flatMap (fun a => (f a).toList) = as.filterMap f := by
  induction as with
  | nil => rfl
  | cons a as ih =>
      rw [List.flatMap_cons, ih, List.filterMap_cons]
      cases f a <;> rfl

namespace Model

variable (m : Model)

/-- The methods of all interfaces in order. -/
def handlers : List Handler :=
  m.interfaces.values.flatMap fun i => i.methods.values.map fun f => ⟨.ofName i.name, f⟩

theorem payloads_eq : m.payloads = m.handlers.filterMap Handler.payload? := by
  unfold payloads handlers
  rw [List.filterMap_flatMap]
  refine congrArg (m.interfaces.values.flatMap ·) (funext fun i => ?_)
  rw [payloadsOf, List.filterMap_map, flatMap_toList]
  rfl

/-! ### What is registered -/

/-- The last method whose message bears the name. -/
def lastHandler? (name : String) : Option Handler :=
  m.handlers.findRev? fun h => h.payload?.any fun q => q.name = name

/-- **Under a name stands the message of the last method that has one of that name, or else the
class that was there.** -/
theorem class?_completed (name : String) :
    m.completed.class? name =
      ((m.lastHandler? name).bind Handler.payload?).or (m.folded.class? name) := by
  have hlast : (m.payloads.findRev? fun q => q.name = name) =
      (m.lastHandler? name).bind Handler.payload? := by
    rw [payloads_eq, lastHandler?, List.findRev?_eq_find?_reverse, List.findRev?_eq_find?_reverse,
      ← List.filterMap_reverse, List.find?_filterMap]
  rw [completed_eq, ← hlast]
  exact OrderedMap.get?_foldl_insert _ _ _

/-- The keys of the classes keep their places, and names of messages follow. -/
theorem keys_classes_completed :
    m.completed.classes.keys =
      m.classes.keys ++ ((m.payloads.map Class.name).filter (· ∉ m.classes.keys)).eraseDups := by
  rw [completed_eq]
  show OrderedMap.keys (List.foldl _ _ _) = _
  rw [OrderedMap.keys_foldl_insert, keys_classes_folded]

variable {m}

/-- The message of a method stands under its name, or that of a later method does. -/
theorem exists_class?_completed {i : Fin m.handlers.length} {q : Class}
    (hq : m.handlers[i].payload? = some q) :
    ∃ j r, i ≤ j ∧ m.handlers[j].payload? = some r ∧ r.name = q.name ∧
      m.completed.class? q.name = some r := by
  obtain ⟨j, hij, hname, hlast⟩ := OrderedMap.exists_getElem_findRev?
    (p := fun h : Handler => h.payload?.any fun r => r.name = q.name) i (by rw [hq]; simp)
  obtain ⟨r, hr, hname⟩ := (Option.any_eq_true _ _).mp hname
  refine ⟨j, r, hij, hr, of_decide_eq_true hname, ?_⟩
  rw [class?_completed, lastHandler?, hlast, Option.bind_some, hr]
  rfl

/-- A class stays what it is after folding, or a message of its name is in its place. -/
theorem class?_completed_of_class?_folded {name : String} {c : Class}
    (hc : m.folded.class? name = some c) :
    m.completed.class? name = some c ∨
      ∃ h ∈ m.handlers, ∃ q, h.payload? = some q ∧ q.name = name ∧
        m.completed.class? name = some q := by
  rw [class?_completed, hc]
  cases hlast : m.lastHandler? name with
  | none => exact Or.inl rfl
  | some h =>
      obtain ⟨hmem, hname⟩ := OrderedMap.of_findRev? hlast
      obtain ⟨q, hq, hname⟩ := (Option.any_eq_true _ _).mp hname
      refine Or.inr ⟨h, hmem, q, hq, of_decide_eq_true hname, ?_⟩
      rw [Option.bind_some, hq]
      rfl

/-- Every class comes out with the attributes that folding gave it. -/
def KeepsClasses (m : Model) (package : String) : Prop :=
  ∀ name c, m.folded.class? name = some c →
    ∃ d, (m.schema package).value.2.class? name = some d ∧ d.attributes = c.attributes

/-- Every message made of parameters comes out with the fields of its own method. -/
def KeepsPayloads (m : Model) (package : String) : Prop :=
  ∀ h ∈ m.handlers, ∀ q, h.payload? = some q →
    ∃ d, (m.schema package).value.2.class? q.name = some d ∧ d.HasFieldsOf h.method

/-- **Messages take nothing away but by a clash of names.**  A class comes out as it is after
folding, or as a message of its name.  The message of a method comes out with the fields of the
method, or with those of a later method whose message has the same name. -/
theorem exists_class?_schema (m : Model) (package : String) :
    (∀ name c, m.folded.class? name = some c →
      (m.schema package).value.2.class? name = some c ∨
        ∃ h ∈ m.handlers, ∃ q, h.payload? = some q ∧ q.name = name ∧
          (m.schema package).value.2.class? name = some q) ∧
    ∀ (i : Fin m.handlers.length) (q : Class), m.handlers[i].payload? = some q →
      ∃ (j : Fin m.handlers.length) (r : Class),
        i ≤ j ∧ m.handlers[j].payload? = some r ∧ r.name = q.name ∧
        (m.schema package).value.2.class? q.name = some r ∧
        r.HasFieldsOf m.handlers[j].method := by
  rw [value_schema]
  refine ⟨fun name c hc => class?_completed_of_class?_folded hc, ?_⟩
  intro i q hq
  obtain ⟨j, r, hij, hr, hname, hclass⟩ := exists_class?_completed hq
  exact ⟨j, r, hij, hr, hname, hclass, Handler.hasFieldsOf_of_payload? hr⟩

/-- A search by one parameter. -/
def findBy (p : Parameter) : Method where
  name := "find"
  parameters := [p]

/-- A class and two services that all lay claim to the name `findRequest`. -/
def searchModel : Model :=
  Model.empty
    |>.addClass (Class.addAttribute { name := "findRequest" } { name := "id", type := "String" })
    |>.addInterface (Interface.addMethod { name := "BookServices" } (findBy ⟨"title", "String"⟩))
    |>.addInterface (Interface.addMethod { name := "MemberServices" } (findBy ⟨"number", "int"⟩))

theorem not_keeps_searchModel :
    ¬searchModel.KeepsClasses defaultPackage ∧ ¬searchModel.KeepsPayloads defaultPackage := by
  have hkeys : ∀ d ∈ (searchModel.schema defaultPackage).value.2.class? "findRequest",
      d.attributes.keys = ["number"] := by
    decide +kernel
  constructor
  · intro hkeeps
    obtain ⟨d, hd, hsame⟩ := hkeeps "findRequest"
      (Class.addAttribute { name := "findRequest" } { name := "id", type := "String" })
      (by decide +kernel)
    have hid : d.attributes.keys = ["id"] := by rw [hsame]; rfl
    rw [hkeys d hd] at hid
    exact absurd hid (by decide)
  · intro hkeeps
    obtain ⟨d, hd, hfields⟩ := hkeeps ⟨.services, findBy ⟨"title", "String"⟩⟩ (by decide +kernel)
      (payloadClass "findRequest" (findBy ⟨"title", "String"⟩)) (by decide +kernel)
    have htitle : d.attributes.keys = ["title"] := hfields.names
    rw [hkeys d hd] at htitle
    exact absurd htitle (by decide)

end Model

end ClassModel
