/-
Running a command.

A command reads its input, converts it and writes the result, each step over the services
of a host.  A dash as a path means standard input or standard output.  What is printed ends
in a line break; what is written to a file is the text itself.

A file that cannot be read or written ends the command.  Files written before stay.
-/
import ClassModel.Cli.Arguments
import ClassModel.Cli.Host
import ClassModel.Conversion
import ClassModel.Inspection

namespace ClassModel

/-- The settings of the log that come from the environment. -/
structure Environment where
  /-- Directives, by either of the two names they go by; the first one counts. -/
  directives : Option String := none
  otherDirectives : Option String := none
  format : Option String := none
  deriving Inhabited

/-- What ends a command before its time. -/
inductive RunError where
  | reading (path : String) (cause : FileError)
  | makingDirectory (path : String) (cause : FileError)
  | writing (path : String) (cause : FileError)
  deriving DecidableEq, Repr

/-- The words for an error, the outer cause before the inner one. -/
def RunError.message : RunError → String
  | reading path cause => chain ("Failed to read input file '" ++ path ++ "'") cause
  | makingDirectory path cause => chain ("Failed to create output directory '" ++ path ++ "'") cause
  | writing path cause => chain ("Failed to write output file '" ++ path ++ "'") cause
where
  /-- What was tried and why it failed. -/
  chain (tried : String) (cause : FileError) : String :=
    tried ++ ": IO error: " ++ cause.message ++ ": " ++ cause.message

/-! ### Settings of the log -/

/-- The text of the log directives: those of the environment, and behind them the level that
the command line asks for; `warn` if there is neither. -/
def directiveText (env : Environment) (level : Option Level) : String :=
  match env.directives.or env.otherDirectives, level with
  | some text, some l => text ++ "," ++ l.word
  | some text, none => text
  | none, some l => l.word
  | none, none => Level.warn.word

/-- The format of the log, or the name that no format has. -/
def logFormat (env : Environment) (format : LogFormat) : Except String LogFormat :=
  match env.format with
  | none => .ok format
  | some name =>
      match LogFormat.ofName? name with
      | some f => .ok f
      | none => .error name

/-! ### Steps of a command -/

/-- The version of the program. -/
def programVersion : String :=
  "0.1.0"

variable {m : Type → Type} [Monad m] [Host m]

/-- A step of a command: it knows the log filter and may end the command. -/
abbrev Step (m : Type → Type) := ReaderT LogFilter (ExceptT RunError m)

/-- Use a service of the host. -/
def service {α : Type} (x : m α) : Step m α :=
  liftM x

/-- Report the events of a computation and go on with its value. -/
def traced {α : Type} (t : Traced α) : Step m α := do
  let filter ← read
  (t.reports.filter filter.lets).forM fun r => service (Host.log r.event)
  return t.value

/-- Use a service that may fail. -/
def attempt {α : Type} (x : m (Except FileError α)) (error : FileError → RunError) : Step m α := do
  match ← service x with
  | .ok a => return a
  | .error e => throw (error e)

/-- The text of the input. -/
def readText (input : Option String) : Step m String :=
  match input.filter (· ≠ "-") with
  | some path => attempt (Host.readFile path) (.reading path)
  | none => service Host.readInput

/-- Write the result of a command. -/
def writeText (output : Option String) (text : String) : Step m Unit :=
  match output.filter (· ≠ "-") with
  | some path => attempt (Host.writeFile path text) (.writing path)
  | none =>
      service (Host.print
        (if text = "" || text.toList.getLast? = some '\n' then text else text ++ "\n"))

/-- Write a stub into a directory. -/
def writeStub (directory : String) (s : Source.Stub) : Step m Unit := do
  let path := joinPath directory s.fileName
  attempt (Host.writeFile path s.body) (.writing path)
  traced (Traced.emit (.stubWritten path))

/-- All stubs in one text, each behind a comment with its name. -/
def listing (stubs : List Source.Stub) : String :=
  String.intercalate "\n\n" (stubs.map fun s => "// " ++ s.fileName ++ "\n" ++ s.body)

/-- The name of a source file: its extension is `java`, and there is something before it. -/
def isSourceName (name : String) : Bool :=
  let extension := ".java".toList
  extension.isSuffixOf name.toList && extension.length < name.toList.length

/-- Load a source file, or pass it over. -/
def loadSource (path : String) : Step m (Option SourceFile) := do
  match ← service (Host.readFile path) with
  | .ok text => return some { path, text }
  | .error _ =>
      traced (Traced.emit (.sourceUnreadable path))
      return none

/-- Load the source files at or below a path. -/
def loadUnder (path : String) : Step m (List SourceFile) := do
  match ← service (Host.filesUnder path) with
  | none =>
      traced (Traced.emit (.pathUnreadable path))
      return []
  | some files =>
      let loaded ← (files.filter fun f => isSourceName (lastName f)).mapM loadSource
      return loaded.filterMap id

/-- Load the source files of several paths. -/
def loadSources (paths : List String) : Step m (List SourceFile) := do
  let files := (← paths.mapM loadUnder).flatten
  traced (Traced.emit (if files.isEmpty then .noSources else .sourcesCollected files.length))
  return files

/-- Write a line to the error stream if the command is to be talkative. -/
def remark (verbose : Bool) (line : String) : Step m Unit :=
  if verbose then service (Host.note line) else pure ()

/-! ### Commands -/

/-- Do what a command says. -/
def Command.perform (verbose : Bool) : Command → Step m Unit
  | .diagramToStubs input directory => do
      let text ← readText input
      let stubs ← traced (Conversion.diagramToStubs text)
      match directory with
      | some d =>
          attempt (Host.makeDirectories d) (.makingDirectory d)
          stubs.forM (writeStub d)
          remark verbose ("Wrote " ++ toString stubs.length ++ " file(s) to " ++ d)
      | none => writeText none (listing stubs)
  | .diagramToSchema input output package => do
      let text ← readText input
      let schema ← traced
        (Conversion.diagramToSchema (package.getD Schema.defaultPackage) text)
      writeText output schema
  | .sourcesToDiagram paths output => do
      let files ← loadSources paths
      remark verbose ("Found " ++ toString files.length ++ " Java file(s)")
      let diagram ← traced (Conversion.sourcesToDiagram files)
      writeText output diagram
  | .inspect input json => do
      let text ← readText input
      let model ← traced (Diagram.read text)
      service (Host.print (if json then model.json.render ++ "\n" else model.summary))

/-- Run a command with the settings of its log.  The answer tells whether it succeeded. -/
def Invocation.perform (i : Invocation) (filter : LogFilter) : m Bool := do
  let whole : Step m Unit := do
    remark i.verbose ("umlbridge v" ++ programVersion)
    i.command.perform i.verbose
  match ← (whole.run filter).run with
  | .ok () => return true
  | .error e =>
      Host.note ("Error: " ++ e.message)
      return false

/-- Run a command.  A log that cannot be set up is remarked upon and stays silent. -/
def Invocation.run (i : Invocation) (env : Environment) : m Bool := do
  match logFormat env i.format with
  | .ok _ => i.perform (LogFilter.ofText (directiveText env i.level))
  | .error name =>
      Host.note ("Warning: Failed to initialize logging: Invalid log format: " ++
        LogFormat.unknownMessage name)
      i.perform LogFilter.off

/-! ### Command lines -/

/-- How to call the program. -/
def usageText : String :=
  "Usage: umlbridge [OPTIONS] <COMMAND>\n\n" ++
  "Commands:\n" ++
  String.join (commands.map fun c => "  " ++ c.name ++ "\n") ++
  "\nOptions: --verbose, --log-level <LEVEL>, --log-format <FORMAT>, --help, --version\n"

/-- Run a command line.  The answer is the exit code: 0 for success, 1 for a command that
failed, 2 for a command line that does not fit. -/
def runArguments (args : List String) (env : Environment) : m Nat := do
  match Invocation.ofArguments args with
  | .ok i => return if ← i.run env then 0 else 1
  | .error .usage =>
      Host.note usageText
      return 2
  | .error .help =>
      Host.print usageText
      return 0
  | .error .version =>
      Host.print ("umlbridge " ++ programVersion ++ "\n")
      return 0

end ClassModel
