/-
Reading source files into trees.

A file is read as a whole or not at all.  A file that cannot be read is answered with the
place of the furthest failure, and with the fault found there if the grammar has words
for it.
-/
import ClassModel.Source.Grammar
import ClassModel.Source.Position

namespace ClassModel.Source

/-- Where a file stops being readable. -/
structure SyntaxError where
  fault : Option SyntaxFault
  position : Position
  deriving DecidableEq, Repr

/-- The error of a furthest failure in a text. -/
def SyntaxError.ofFailure (s : List Char) (f : Option Failure) : SyntaxError :=
  match f with
  | some f => { fault := f.fault, position := Position.ofOffset s (s.length - f.remaining) }
  | none => { fault := none, position := Position.start }

/-- The tree of a source file. -/
def CompilationUnit.read (text : String) : Except SyntaxError CompilationUnit :=
  let s := text.toList
  let reply := compilationUnit (Input.ofChars s)
  match reply.outcome with
  | some (u, _) => .ok u
  | none => .error (SyntaxError.ofFailure s reply.failure)

/-- A text that reads as a source file and declares a type. -/
def looksLike (text : String) : Bool :=
  match CompilationUnit.read text with
  | .ok u => !u.types.isEmpty
  | .error _ => false

end ClassModel.Source
