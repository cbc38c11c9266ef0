/-
Arguments of the command line.

A command line names one of four commands and gives options to it.  Some options belong to
every command and may stand in front of the command as well; behind it they count more.  An
option is written by its long name, or by a letter if it has one, and letters may be run
together; a value stands behind `=`, directly behind the letter, or in the next argument.

A command line that does not fit is refused at the first argument that does not: an option
that is unknown or given twice, a value that is missing or not allowed, an argument too many.
What is still missing is noticed at the end.
-/
import ClassModel.Cli.LogFilter
import ClassModel.Cli.LogFormat

namespace ClassModel

/-- What is to be done. -/
inductive Command where
  | diagramToStubs (input directory : Option String)
  | diagramToSchema (input output package : Option String)
  | sourcesToDiagram (paths : List String) (output : Option String)
  | inspect (input : Option String) (json : Bool)
  deriving DecidableEq, Repr

/-- A command with the options that belong to every command. -/
structure Invocation where
  command : Command
  verbose : Bool
  level : Option Level
  format : LogFormat
  deriving DecidableEq, Repr

/-- Why there is no command to run. -/
inductive Stop where
  /-- The command line does not fit. -/
  | usage
  /-- Help is asked for. -/
  | help
  /-- The version is asked for. -/
  | version
  deriving DecidableEq, Repr

/-! ### Options -/

/-- An option that may be given. -/
structure OptionSpec where
  name : String
  letter : Option Char
  /-- The test for its value, if it takes one. -/
  value : Option (String → Bool)
  /-- What the option leads to instead of a command. -/
  stop : Option Stop := none

/-- What has been given so far. -/
structure Given where
  options : List (String × String) := []
  positional : List String := []
  deriving Inhabited

namespace Given

/-- The value of an option. -/
def value? (g : Given) (name : String) : Option String :=
  g.options.lookup name

/-- The option was given. -/
def has (g : Given) (name : String) : Bool :=
  (g.value? name).isSome

/-- Note an option with its value. -/
def note (g : Given) (spec : OptionSpec) (value : String) : Except Stop Given :=
  match spec.stop with
  | some s => .error s
  | none =>
      if g.has spec.name then .error .usage
      else if (spec.value.getD fun _ => true) value then
        .ok { g with options := (spec.name, value) :: g.options }
      else .error .usage

end Given

/-- An argument by its form. -/
inductive ArgumentForm where
  /-- The mark behind which nothing is an option. -/
  | separator
  | long (name : String) (value : Option String)
  | letters (letters : List Char)
  | plain

/-- A text up to the first occurrence of a character, and what follows the character. -/
def cutAt (c : Char) (s : List Char) : List Char × Option (List Char) :=
  (s.takeWhile (· ≠ c), match s.dropWhile (· ≠ c) with
    | [] => none
    | _ :: r => some r)

/-- The form of an argument.  A single dash is a plain argument. -/
def ArgumentForm.of (s : String) : ArgumentForm :=
  match s.toList with
  | ['-', '-'] => separator
  | '-' :: '-' :: r =>
      let (name, value) := cutAt '=' r
      long (String.ofList name) (value.map String.ofList)
  | ['-'] => plain
  | '-' :: r => letters r
  | _ => plain

/-- An option that waits for its value in the next argument, after what was given. -/
abbrev Pending := Given × Option OptionSpec

/-- Read letters that are run together. -/
def readLetters (specs : List OptionSpec) (g : Given) : List Char → Except Stop Pending
  | [] => .ok (g, none)
  | c :: r =>
      match specs.find? fun s => s.letter = some c with
      | none => .error .usage
      | some spec =>
          match spec.value with
          | none => do
              let g ← g.note spec ""
              readLetters specs g r
          | some _ =>
              match r with
              | [] => .ok (g, some spec)
              | '=' :: v => (·, none) <$> g.note spec (String.ofList v)
              | c :: v => (·, none) <$> g.note spec (String.ofList (c :: v))

/-- Read an option by its long name. -/
def readLong (specs : List OptionSpec) (g : Given) (name : String) (value : Option String) :
    Except Stop Pending :=
  match specs.find? fun s => s.name = name with
  | none => .error .usage
  | some spec =>
      match spec.value, value with
      | none, none => (·, none) <$> g.note spec ""
      | none, some _ => .error .usage
      | some _, some v => (·, none) <$> g.note spec v
      | some _, none => .ok (g, some spec)

/-- A value that may be a path. -/
def isPath (s : String) : Bool :=
  s ≠ ""

/-- What plain arguments may be. -/
inductive Operands where
  /-- There may be none. -/
  | nothing
  /-- Paths, any number of them. -/
  | paths
  /-- The name of a command, behind which reading stops. -/
  | command
  deriving DecidableEq, Inhabited, Repr

/-- The arguments behind the mark, none of which is an option. -/
def readPlain (operands : Operands) (g : Given) (rest : List String) : Except Stop Given :=
  match operands with
  | .paths =>
      if rest.all isPath then .ok { g with positional := g.positional ++ rest } else .error .usage
  | _ => if rest.isEmpty then .ok g else .error .usage

/-- Read arguments.  What follows the name of a command is left over. -/
def readArguments (specs : List OptionSpec) (operands : Operands) :
    Pending → List String → Except Stop (Given × List String)
  | (_, some _), [] => .error .usage
  | (g, none), [] => .ok (g, [])
  | (g, some spec), a :: rest =>
      match ArgumentForm.of a with
      | .plain => do
          let g ← g.note spec a
          readArguments specs operands (g, none) rest
      | _ => .error .usage
  | (g, none), a :: rest =>
      match ArgumentForm.of a with
      | .separator => (·, []) <$> readPlain operands g rest
      | .long name value => do
          let state ← readLong specs g name value
          readArguments specs operands state rest
      | .letters cs => do
          let state ← readLetters specs g cs
          readArguments specs operands state rest
      | .plain =>
          let g' := { g with positional := g.positional ++ [a] }
          match operands with
          | .nothing => .error .usage
          | .paths =>
              if isPath a then readArguments specs operands (g', none) rest else .error .usage
          | .command => .ok (g', rest)

/-! ### Commands -/

/-- The options of every command. -/
def commonOptions : List OptionSpec :=
  [{ name := "verbose", letter := some 'v', value := none },
    { name := "log-level", letter := none
      value := some fun s => (Level.all.map Level.word).contains s },
    { name := "log-format", letter := none
      value := some fun s => (LogFormat.all.map LogFormat.name).contains s },
    { name := "help", letter := some 'h', value := none, stop := some .help }]

/-- The option that asks for the version. -/
def versionOption : OptionSpec where
  name := "version"
  letter := some 'V'
  value := none
  stop := some .version

/-- The option for an input file. -/
def inputOption : OptionSpec where
  name := "input"
  letter := some 'i'
  value := some isPath

/-- The option for an output file. -/
def outputOption : OptionSpec where
  name := "output"
  letter := some 'o'
  value := some isPath

/-- A command by its name: its own options, whether it takes paths, and its meaning. -/
structure CommandSpec where
  name : String
  options : List OptionSpec
  takesPaths : Bool
  command : Given → Command

/-- The commands. -/
def commands : List CommandSpec :=
  [{ name := "uml-to-java"
     options := [inputOption, { name := "out-dir", letter := none, value := some isPath }]
     takesPaths := false
     command := fun g => .diagramToStubs (g.value? "input") (g.value? "out-dir") },
    { name := "uml-to-proto"
      options :=
        [inputOption, outputOption,
          { name := "package", letter := none, value := some fun _ => true }]
      takesPaths := false
      command := fun g =>
        .diagramToSchema (g.value? "input") (g.value? "output") (g.value? "package") },
    { name := "java-to-uml"
      options := [outputOption]
      takesPaths := true
      command := fun g => .sourcesToDiagram g.positional (g.value? "output") },
    { name := "inspect"
      options := [inputOption, { name := "json", letter := none, value := none }]
      takesPaths := false
      command := fun g => .inspect (g.value? "input") (g.has "json") }]

/-- The plain arguments that a command takes. -/
def CommandSpec.operands (c : CommandSpec) : Operands :=
  if c.takesPaths then .paths else .nothing

/-- A command that takes paths has at least one. -/
def CommandSpec.fits (c : CommandSpec) (g : Given) : Bool :=
  !c.takesPaths || !g.positional.isEmpty

/-- The invocation that a command and the options before and behind it amount to. -/
def CommandSpec.invocation (c : CommandSpec) (before behind : Given) : Invocation where
  command := c.command behind
  verbose := before.has "verbose" || behind.has "verbose"
  level := do
    let w ← (behind.value? "log-level").or (before.value? "log-level")
    Level.all.find? fun l => l.word = w
  format :=
    (do
      let w ← (behind.value? "log-format").or (before.value? "log-format")
      LogFormat.all.find? fun f : LogFormat => f.name = w).getD .compact

/-- The word that asks for help in the place of a command. -/
def helpWord : String :=
  "help"

/-- What comes of the arguments behind the word for help: help on everything, or on one
command. -/
def helpOn : List String → Stop
  | [] => .help
  | [name] => if (helpWord :: commands.map CommandSpec.name).contains name then .help else .usage
  | _ => .usage

/-- The invocation of a command line. -/
def Invocation.ofArguments (args : List String) : Except Stop Invocation := do
  let (before, rest) ← readArguments (versionOption :: commonOptions) .command ({}, none) args
  match before.positional with
  | [name] =>
      if name = helpWord then .error (helpOn rest)
      else
        match commands.find? fun c => c.name = name with
        | none => .error .usage
        | some c =>
            let (behind, _) ← readArguments (c.options ++ commonOptions) c.operands ({}, none) rest
            if c.fits behind then .ok (c.invocation before behind) else .error .usage
  | _ => .error .usage

end ClassModel
