/-
Calls and events.

What becomes of an interface hangs on how its name ends, and what its procedures and messages
are called on how the names of its methods begin.  Here both are read off the names once more:
without the kinds of services, and without the steps that write them.

The ends of names exclude one another, so it does not matter which of them is asked for first.
That is all there is between the two ways to say it, and it makes every name, every message and
its fields the same.
-/
import Mathlib.Data.List.Infix
import ClassModel.Proofs.Schema.Payloads

namespace ClassModel

/-- The methods of the interface are calls.  Those of any other one deliver events. -/
def Interface.HasCalls (i : Interface) : Prop :=
  "Services".toList <:+ i.name.toList

instance (i : Interface) : Decidable i.HasCalls :=
  inferInstanceAs (Decidable (_ <:+ _))

/-- The event that a method delivers.  A method `onSale` delivers `SaleEvent`, and one without
`on` in front delivers what its name says. -/
def Method.event (f : Method) : String :=
  match f.name.toList with
  | 'o' :: 'n' :: r => String.ofList (r ++ "Event".toList)
  | _ => f.name

namespace Schema

/-- The name of the procedure for a method. -/
def procedureName (i : Interface) (f : Method) : String :=
  if i.HasCalls then f.name
  else if "DataProvider".toList <:+ i.name.toList then "suscribe" ++ f.event
  else "get" ++ f.event

/-- The parameters of a method need a message: those of a call if there are any, those of an
event if there are several. -/
def NeedsMessage (i : Interface) (f : Method) : Prop :=
  (if i.HasCalls then 1 else 2) ≤ f.parameters.length

instance (i : Interface) (f : Method) : Decidable (NeedsMessage i f) :=
  inferInstanceAs (Decidable (_ ≤ _))

/-- The name of that message. -/
def messageName (i : Interface) (f : Method) : String :=
  if i.HasCalls then f.name ++ "Request" else f.event

/-- That message.  Its fields are the parameters. -/
def parameterMessage (i : Interface) (f : Method) : Class where
  name := messageName i f
  attributes := .ofValues Attribute.name (f.parameters.map Parameter.asAttribute)

/-- The messages that an interface needs, in the order of its methods. -/
def parameterMessages (i : Interface) : List Class :=
  (i.methods.values.filter fun f => NeedsMessage i f).map (parameterMessage i)

/-! ### Ends and beginnings of names -/

/-- Of two ends of a text the shorter one is an end of the longer one. -/
theorem not_suffix_of_suffix {x y s : List Char} (hx : x <:+ s) (hxy : ¬x <:+ y) (hyx : ¬y <:+ x) :
    ¬y <:+ s :=
  fun hy => (List.suffix_or_suffix_of_suffix hx hy).elim hxy hyx

theorem ofName_eq_services_iff {i : Interface} :
    ServiceKind.ofName i.name = .services ↔ i.HasCalls := by
  unfold ServiceKind.ofName Interface.HasCalls
  simp only [List.isSuffixOf_iff_suffix]
  constructor
  · intro h
    split at h
    · cases h
    · split at h
      · cases h
      · split at h
        · assumption
        · cases h
  · intro h
    rw [if_neg (not_suffix_of_suffix h (by decide) (by decide)),
      if_neg (not_suffix_of_suffix h (by decide) (by decide)), if_pos h]

theorem verb_ofName {i : Interface} :
    (ServiceKind.ofName i.name).verb =
      if "DataProvider".toList <:+ i.name.toList then "suscribe" else "get" := by
  unfold ServiceKind.ofName
  simp only [List.isSuffixOf_iff_suffix]
  split
  · rfl
  · split
    · rfl
    · split <;> rfl

theorem eventName_eq (f : Method) : eventName f = f.event := by
  unfold eventName Method.event
  split
  · rename_i hname
    obtain ⟨r, hr⟩ := List.isPrefixOf_iff_prefix.mp hname
    rw [← hr]
    show String.ofList r ++ "Event" = String.ofList (r ++ "Event".toList)
    rw [String.ofList_append, String.ofList_toList]
  · rename_i hname
    split
    · rename_i r hr
      exact absurd (List.isPrefixOf_iff_prefix.mpr ⟨r, hr.symm⟩) hname
    · rfl

/-! ### Procedures and messages -/

/-- Whatever delivers events names its procedures alike. -/
theorem name_procedureOf_of_ne {kind : ServiceKind} (h : kind ≠ .services) (f : Method) :
    (procedureOf kind f).name = kind.verb ++ eventName f := by
  cases kind with
  | services => exact absurd rfl h
  | dataProvider | events | plain => rfl

/-- Whatever delivers events needs a message for several parameters. -/
theorem payloadOf?_of_ne {kind : ServiceKind} (h : kind ≠ .services) (f : Method) :
    payloadOf? kind f =
      if f.parameters.length < 2 then none else some (payloadClass (eventName f) f) := by
  cases kind with
  | services => exact absurd rfl h
  | dataProvider | events | plain => rfl

theorem name_procedureOf (i : Interface) (f : Method) :
    (procedureOf (.ofName i.name) f).name = procedureName i f := by
  unfold procedureName
  by_cases hcalls : i.HasCalls
  · rw [if_pos hcalls, ofName_eq_services_iff.mpr hcalls]
    rfl
  · rw [if_neg hcalls, name_procedureOf_of_ne (mt ofName_eq_services_iff.mp hcalls), verb_ofName,
      eventName_eq]
    split <;> rfl

theorem parameterMessage_eq (i : Interface) (f : Method) :
    parameterMessage i f = payloadClass (messageName i f) f :=
  (payloadClass_eq (messageName i f) f).symm

theorem payloadOf?_eq (i : Interface) (f : Method) :
    payloadOf? (.ofName i.name) f =
      if NeedsMessage i f then some (parameterMessage i f) else none := by
  rw [parameterMessage_eq]
  by_cases hcalls : i.HasCalls
  · have hneeds : NeedsMessage i f ↔ ¬f.parameters.isEmpty = true := by
      rw [NeedsMessage, if_pos hcalls, List.isEmpty_iff]
      exact List.length_pos_iff
    have hname : messageName i f = requestName f := if_pos hcalls
    rw [ofName_eq_services_iff.mpr hcalls, hname, if_congr hneeds rfl rfl, ite_not]
    rfl
  · have hneeds : NeedsMessage i f ↔ ¬f.parameters.length < 2 := by
      rw [NeedsMessage, if_neg hcalls, Nat.not_lt]
    have hname : messageName i f = eventName f := by
      rw [messageName, if_neg hcalls, eventName_eq]
    rw [payloadOf?_of_ne (mt ofName_eq_services_iff.mp hcalls), hname, if_congr hneeds rfl rfl,
      ite_not]

/-- The messages that are queued for an interface are those that it needs. -/
theorem payloadsOf_eq (i : Interface) : payloadsOf i = parameterMessages i := by
  unfold payloadsOf parameterMessages
  rw [flatMap_toList, ← List.filterMap_eq_map, List.filterMap_filter]
  refine congrArg (List.filterMap · _) (funext fun f => ?_)
  rw [payloadOf?_eq]
  by_cases hneeds : NeedsMessage i f <;> simp [hneeds]

theorem hasFieldsOf_parameterMessage (i : Interface) (f : Method) :
    (parameterMessage i f).HasFieldsOf f := by
  rw [parameterMessage_eq]
  exact hasFieldsOf_payloadClass _ f

end Schema

end ClassModel
