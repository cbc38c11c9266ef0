/-
The schema of a model.

Associations are folded into fields first.  Then the interfaces are written as services,
and the messages made of their parameters join the classes of the model; after that all
classes are written as messages and all enums as enums.  A name still pending at the end
gets an empty message, unless it is a scalar or belongs to another package.

The model that comes out differs from the one that went in by the folded fields and the
added classes.
-/
import ClassModel.Schema.Folding
import ClassModel.Schema.Writing

namespace ClassModel

open Schema

/-- What stands for the package of a schema until one is given. -/
def Schema.defaultPackage : String :=
  "\x7b\x7bpackageName\x7d\x7d"

/-- Register the messages made of parameters. -/
def Model.addPayloads (m : Model) (cs : List Class) : Traced Model := do
  Traced.emit (.synthesizedRegistered cs.length)
  return cs.foldl Model.addClass m

/-- The schema of a model, and the model as it is afterwards. -/
def Model.schema (m : Model) (package : String) : Traced (Document × Model) :=
  Traced.within .writingSchema do
    let folded ← m.foldAssociations
    let (services, session) ← (Writing.services true folded.interfaces.values).run {}
    let complete ← folded.addPayloads session.queued
    let (messages, session) ←
      (Writing.messages complete.classes.values).run { types := session.types }
    let (enums, session) ← (Writing.enumTypes complete.enums.values).run session
    let (placeholders, _) ← Writing.placeholders.run session
    return ({ package, services, messages, enums, placeholders }, complete)

end ClassModel
