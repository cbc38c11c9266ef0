/-
Whole conversions.

A conversion reads a diagram or source files into a model and writes the model in another
notation.  Diagrams always read.  Of several source files those that do not read are
passed over with a warning, and the others are read into one model in the given order.
-/
import ClassModel.Diagram.Printer
import ClassModel.Diagram.Reader
import ClassModel.Schema.Generate
import ClassModel.Source.Stub
import ClassModel.Source.Visit

namespace ClassModel

/-- A source file: the path it goes by and its text. -/
structure SourceFile where
  path : String
  text : String
  deriving DecidableEq, Inhabited, Repr

namespace Conversion

open Source (Stub)

/-- Write a diagram in its normal form. -/
def diagramToDiagram (text : String) : Traced String :=
  Traced.within (.normalizing text.utf8ByteSize) do
    let m ← Diagram.read text
    return Diagram.render m

/-- The stubs of a diagram. -/
def diagramToStubs (text : String) : Traced (List Stub) :=
  Traced.within (.makingStubs text.utf8ByteSize) do
    let m ← Diagram.read text
    let stubs := Source.stubs m
    Traced.emit (.stubsGenerated stubs.length)
    return stubs

/-- The schema of a diagram. -/
def diagramToSchema (package text : String) : Traced String :=
  Traced.within (.makingSchema text.utf8ByteSize) do
    let m ← Diagram.read text
    let (document, _) ← m.schema package
    let output := document.render
    Traced.emit (.schemaRendered output.utf8ByteSize)
    return output

/-- How far the reading of source files has come. -/
structure SourcesState where
  model : Model := {}
  parsed : Nat := 0
  skipped : Nat := 0

/-- Read one more source file, or pass it over. -/
def SourcesState.next (s : SourcesState) (f : SourceFile) : Traced SourcesState := do
  Traced.emit (.readingSource f.path)
  match s.model.readSource f.text with
  | .ok read =>
      let model ← read
      return { s with model, parsed := s.parsed + 1 }
  | .error _ =>
      Traced.emit (.sourceSkipped f.path)
      return { s with skipped := s.skipped + 1 }

/-- The model of source files. -/
def sourcesToModel (files : List SourceFile) : Traced Model :=
  Traced.within .readingSources do
    let s ← files.foldlM SourcesState.next {}
    Traced.emit (.sourcesRead s.parsed s.skipped s.model.census)
    return s.model

/-- The diagram of source files. -/
def sourcesToDiagram (files : List SourceFile) : Traced String := do
  let m ← sourcesToModel files
  return Diagram.render m

/-- The source files that stubs are written to. -/
def stubFiles (stubs : List Stub) : List SourceFile :=
  stubs.map fun s => { path := s.fileName, text := s.body }

end Conversion

end ClassModel
