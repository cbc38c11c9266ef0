/-
What a command needs from the outside.

A command reads and writes files, reads standard input and writes to the two output
streams, and reports events to a log.  `Host` is the list of these services; a command is
written once, for every host.

`Sandbox` is a host in memory: its files are a file tree, its streams are texts and its log
is a list.  What a command does to it is a function of the sandbox it starts with.
-/
import ClassModel.Cli.FileTree
import ClassModel.Event

namespace ClassModel

/-- The services that a command uses. -/
class Host (m : Type → Type) where
  /-- The text of a file. -/
  readFile : String → m (Except FileError String)
  /-- Write a file. -/
  writeFile : String → String → m (Except FileError Unit)
  /-- Make a directory and those it lies in. -/
  makeDirectories : String → m (Except FileError Unit)
  /-- The files at or below a path, in the order of a walk by name. -/
  filesUnder : String → m (Option (List String))
  /-- All of standard input. -/
  readInput : m String
  /-- Write to standard output. -/
  print : String → m Unit
  /-- Write a line to the error stream. -/
  note : String → m Unit
  /-- Write an event to the log. -/
  log : Event → m Unit

/-- A host in memory. -/
structure Sandbox where
  files : FileTree := {}
  input : String := ""
  output : String := ""
  notes : List String := []
  log : List Event := []
  deriving Inhabited

/-- Change the files of a sandbox, or leave them after an error. -/
def Sandbox.change (r : Except FileError FileTree) : StateM Sandbox (Except FileError Unit) := do
  match r with
  | .ok files =>
      modify fun s => { s with files }
      return .ok ()
  | .error e => return .error e

instance : Host (StateM Sandbox) where
  readFile path := return (← get).files.readFile path
  writeFile path text := do Sandbox.change ((← get).files.writeFile path text)
  makeDirectories path := do
    let (files, r) := (← get).files.makeDirectories path
    modify fun s => { s with files }
    return r
  filesUnder path := return (← get).files.filesUnder path
  readInput := return (← get).input
  print text := modify fun s => { s with output := s.output ++ text }
  note line := modify fun s => { s with notes := s.notes ++ [line] }
  log event := modify fun s => { s with log := s.log ++ [event] }

end ClassModel
