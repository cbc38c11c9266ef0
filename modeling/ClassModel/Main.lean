/-
The program.

A thin layer over the command line: the services of a host are those of the system, and
the settings of the log come from environment variables.  Events go to the error stream,
one line each, in the format asked for.
-/
import ClassModel.Cli.Run

namespace ClassModel

/-- The error of a failed system call. -/
def FileError.ofSystem (e : IO.Error) : FileError :=
  match e with
  | .noFileOrDirectory .. => notFound
  | .alreadyExists .. => alreadyExists
  | .inappropriateType _ code _ => if code = 20 then notDirectory else isDirectory
  | .invalidArgument _ code _ => if code = 36 then nameTooLong else other (toString e)
  | e => other (toString e)

/-- The answer of a system call. -/
def answerOf {α : Type} (x : IO α) : IO (Except FileError α) := do
  match ← x.toBaseIO with
  | .ok a => return .ok a
  | .error e => return .error (FileError.ofSystem e)

/-- The rest of a stream. -/
partial def readAll (input : IO.FS.Stream) (sofar : String) : IO String := do
  let line ← input.getLine
  if line.isEmpty then return sofar else readAll input (sofar ++ line)

/-- The regular files at or below a path, by name. -/
partial def listFiles (path : String) : IO (List String) := do
  let place := System.mkFilePath [path]
  if ← place.isDir then
    let entries ← place.readDir
    let names := (entries.toList.map fun e => e.fileName).mergeSort fun a b => decide (a ≤ b)
    return (← names.mapM fun name => listFiles (joinPath path name)).flatten
  else
    return [path]

/-- A field of an event as plain text. -/
def FieldValue.plainText (v : FieldValue) : String :=
  match v with
  | .text s => s
  | .count n => toString n

/-- A field of an event as JSON text. -/
def FieldValue.jsonText (v : FieldValue) : String :=
  match v with
  | .text s => JsonValue.quote s
  | .count n => toString n

/-- The line of an event in a log. -/
def Event.line (e : Event) : LogFormat → String
  | .json =>
      "\x7b\"level\":" ++ JsonValue.quote e.level.word.toUpper ++ ",\"fields\":\x7b" ++
        String.intercalate ","
          (("\"message\":" ++ JsonValue.quote e.message) ::
            e.fields.map fun (k, v) => JsonValue.quote k ++ ":" ++ v.jsonText) ++
        "\x7d,\"target\":" ++ JsonValue.quote e.origin.target ++ "\x7d"
  | _ =>
      String.intercalate " "
        (e.level.word.toUpper :: e.message :: e.fields.map fun (k, v) => k ++ "=" ++ v.plainText)

/-- The system as a host, with the format of its log. -/
abbrev Desk := ReaderT LogFormat IO

instance : Host Desk where
  readFile path := answerOf (IO.FS.readFile path)
  writeFile path text := answerOf (IO.FS.writeFile path text)
  makeDirectories path := answerOf (IO.FS.createDirAll path)
  filesUnder path := do
    if ← (System.mkFilePath [path]).pathExists then
      match ← answerOf (listFiles path) with
      | .ok files => return some files
      | .error _ => return none
    else return none
  readInput := do readAll (← IO.getStdin) ""
  print text := IO.print text
  note line := IO.eprintln line
  log event := do IO.eprintln (event.line (← read))

end ClassModel

open ClassModel

/-- Run the command line with the settings of the environment. -/
def main (args : List String) : IO UInt32 := do
  let env : Environment :=
    { directives := ← IO.getEnv "UMLBRIDGE_LOG_LEVEL"
      otherDirectives := ← IO.getEnv "RUST_LOG"
      format := ← IO.getEnv "UMLBRIDGE_LOG_FORMAT" }
  let format :=
    match Invocation.ofArguments args with
    | .ok i => (logFormat env i.format).toOption.getD i.format
    | .error _ => .compact
  let code ← (runArguments args env : Desk Nat).run format
  return code.toUInt32
