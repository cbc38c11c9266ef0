/-
Interfaces as services.

The name of an interface decides what becomes of its methods.  In an interface whose name
ends in `Services` each method is a call, from a request made of its parameters to its
return type.  In any other interface each method is the delivery of an event, and its
parameters are the payload: none, the one parameter's own type, or a message made of
several.  `DataProvider` and `Events` interfaces deliver streams.

For each method this module says three things apart: the procedure, the names that the
procedure mentions, in order, and the message made of the parameters, if there is one.
Whether such a message can be registered depends on there being a model to register it in.
-/
import ClassModel.Schema.Document
import ClassModel.Schema.TypeName

namespace ClassModel.Schema

/-- How an interface becomes a service. -/
inductive ServiceKind where
  | dataProvider
  | events
  | services
  | plain
  deriving DecidableEq, Inhabited, Repr

namespace ServiceKind

/-- The kind that the name of an interface asks for. -/
def ofName (name : String) : ServiceKind :=
  if "DataProvider".toList.isSuffixOf name.toList then dataProvider
  else if "Events".toList.isSuffixOf name.toList then events
  else if "Services".toList.isSuffixOf name.toList then services
  else plain

/-- The responses are streams. -/
def streams : ServiceKind → Bool
  | dataProvider | events => true
  | services | plain => false

/-- The word in front of the name of an event. -/
def verb : ServiceKind → String
  | dataProvider => "suscribe"
  | _ => "get"

end ServiceKind

/-! ### Names -/

/-- The request message of a call. -/
def requestName (m : Method) : String :=
  m.name ++ "Request"

/-- The name of the event that a method handles: `on` in front of it gives way to `Event`
behind it. -/
def eventName (m : Method) : String :=
  if "on".toList.isPrefixOf m.name.toList then
    String.ofList (m.name.toList.drop 2) ++ "Event"
  else m.name

/-! ### Procedures -/

/-- The procedure of a method. -/
def procedureOf (kind : ServiceKind) (m : Method) : Procedure :=
  match kind with
  | .services =>
      { name := m.name
        request := if m.parameters.isEmpty then emptyMessage else requestName m
        streams := false
        response := typeName m.returnType }
  | _ =>
      { name := kind.verb ++ eventName m
        request := emptyMessage
        streams := kind.streams
        response :=
          match m.parameters with
          | [] => emptyMessage
          | [p] => p.type
          | _ => typeName (eventName m) }

/-- The names that the procedure of a method mentions. -/
def mentionsOf (kind : ServiceKind) (m : Method) : List String :=
  match kind with
  | .services =>
      (if m.returnType = "void" then [] else [typeName m.returnType]) ++
        (if m.parameters.isEmpty then [] else [requestName m])
  | _ =>
      (if m.parameters.length < 2 then [] else [typeName (eventName m)]) ++
        (if m.parameters.isEmpty then [] else [emptyMessage])

/-- The class whose attributes are the parameters of a method. -/
def payloadClass (name : String) (m : Method) : Class :=
  m.parameters.foldl (fun c p => c.addAttribute { name := p.name, type := p.type }) { name }

/-- The message made of the parameters of a method. -/
def payloadOf? (kind : ServiceKind) (m : Method) : Option Class :=
  match kind with
  | .services => if m.parameters.isEmpty then none else some (payloadClass (requestName m) m)
  | _ => if m.parameters.length < 2 then none else some (payloadClass (eventName m) m)

end ClassModel.Schema
