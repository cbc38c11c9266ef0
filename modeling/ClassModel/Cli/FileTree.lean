/-
Files and directories as a value.

A file tree lists its files and directories by their path from the root, each path as the
names on the way.  A path that begins with a slash is followed from the root, and any other
from the directory where the work is done.

Reading, writing and making directories follow the rules of a disk: what a path leads
through must be directories, a directory can neither be read nor written, nothing is made
in a place that does not exist, and neither a name nor a whole path may be too long.

The files below a directory come in the order of a walk that visits the entries of each
directory by name.  That is the lexicographic order of the paths, since a directory's path
is the beginning of the paths below it.
-/
import ClassModel.Text.Split

namespace ClassModel

/-- Why a file operation fails. -/
inductive FileError where
  | notFound
  | alreadyExists
  | notDirectory
  | isDirectory
  | nameTooLong
  /-- Any other reason, in the words of the system. -/
  | other (text : String)
  deriving DecidableEq, Inhabited, Repr

/-- The words for a file error. -/
def FileError.message : FileError → String
  | notFound => "No such file or directory (os error 2)"
  | alreadyExists => "File exists (os error 17)"
  | notDirectory => "Not a directory (os error 20)"
  | isDirectory => "Is a directory (os error 21)"
  | nameTooLong => "File name too long (os error 36)"
  | other text => text

/-- What is found at a path. -/
inductive Entry where
  | file (text : String)
  | directory
  /-- A device that is empty whatever is written to it. -/
  | sink
  deriving DecidableEq, Inhabited, Repr

/-- A path as it is written, by its names; empty names are skipped. -/
structure Path where
  /-- The path is followed from the root. -/
  fromRoot : Bool
  names : List String
  /-- A slash at the end asks for a directory. -/
  trailing : Bool
  /-- The path has more bytes than the 4095 that a path may have. -/
  isTooLong : Bool
  deriving DecidableEq, Inhabited, Repr

/-- The path of a text. -/
def Path.ofString (s : String) : Path where
  fromRoot := s.toList.head? = some '/'
  names := (splitText '/' s).filter (· ≠ "")
  trailing := s.toList.getLast? = some '/'
  isTooLong := 4096 ≤ s.utf8ByteSize

/-- The path of the place where the last name of a path is looked up, which must be a
directory. -/
def Path.toPlace (p : Path) : Path :=
  { p with names := p.names.dropLast ++ ["."] }

/-- The names of the directory that a path lies in.  A single dot leads nowhere, so it does
not count as a step. -/
def Path.outerNames (p : Path) : List String :=
  (p.names.filter (· ≠ ".")).dropLast

/-- A path text with a name added to it. -/
def joinPath (directory name : String) : String :=
  if directory.toList.getLast? = some '/' then directory ++ name else directory ++ "/" ++ name

/-- The last name of a path text. -/
def lastName (path : String) : String :=
  ((splitText '/' path).getLast?).getD ""

/-- Files and directories by their paths from the root, which itself is not listed. -/
structure FileTree where
  /-- The directory where the work is done. -/
  home : List String := []
  entries : List (List String × Entry) := []
  deriving DecidableEq, Inhabited, Repr

namespace FileTree

/-- A system with an empty directory to work in. -/
def fresh : FileTree where
  home := ["tmp", "work"]
  entries :=
    (["bin", "dev", "etc", "home", "proc", "root", "tmp", "usr", "var"].map fun name =>
      ([name], .directory)) ++ [(["dev", "null"], .sink), (["tmp", "work"], .directory)]

/-- What is found at a path from the root. -/
def find? (t : FileTree) (p : List String) : Option Entry :=
  if p = [] then some .directory
  else (t.entries.find? fun e => e.1 = p).map Prod.snd

/-- There is a directory at a path from the root. -/
def isDirectory (t : FileTree) (p : List String) : Bool :=
  t.find? p == some .directory

/-- Put an entry at a path from the root, in place of what is there. -/
def put (t : FileTree) (p : List String) (e : Entry) : FileTree :=
  { t with entries := t.entries.filter (·.1 ≠ p) ++ [(p, e)] }

/-- What was put somewhere is found there. -/
theorem find?_put_self (t : FileTree) {p : List String} (e : Entry) (hp : p ≠ []) :
    (t.put p e).find? p = some e := by
  have hn : (t.entries.filter (·.1 ≠ p)).find? (fun x => x.1 = p) = none := by
    simp [List.find?_eq_none]
  simp only [find?, if_neg hp, put, List.find?_append, hn, Option.none_or]
  simp

/-- Elsewhere nothing changes. -/
theorem find?_put_of_ne (t : FileTree) {p q : List String} (e : Entry) (h : q ≠ p) :
    (t.put p e).find? q = t.find? q := by
  have hs : (t.entries.filter (·.1 ≠ p)).find? (fun x => x.1 = q) =
      t.entries.find? fun x => x.1 = q := by
    rw [List.find?_filter]
    congr 1
    funext x
    by_cases hx : x.1 = q <;> simp [hx, h]
  by_cases hq : q = []
  · simp [find?, hq]
  · simp only [find?, if_neg hq, put, List.find?_append, hs]
    simp [Ne.symm h]

/-- Follow names from a directory.  Each name but the last must lead to a directory, and a
name has at most 255 bytes. -/
def follow (t : FileTree) : List String → List String → Except FileError (List String)
  | here, [] => .ok here
  | here, name :: rest =>
      match t.find? here with
      | some .directory =>
          if 255 < name.utf8ByteSize then .error .nameTooLong
          else
            let there :=
              if name = "." then here else if name = ".." then here.dropLast else here ++ [name]
            follow t there rest
      | some _ => .error .notDirectory
      | none => .error .notFound

/-- The directory that a path is followed from. -/
def startOf (t : FileTree) (path : Path) : List String :=
  if path.fromRoot then [] else t.home

/-- The path from the root that a path leads to.  There need not be anything. -/
def locate (t : FileTree) (path : Path) : Except FileError (List String) :=
  if path.isTooLong then .error .nameTooLong else t.follow (t.startOf path) path.names

/-- What a path leads to, which must exist. -/
def lookup (t : FileTree) (path : Path) : Except FileError (List String × Entry) := do
  let p ← t.locate path
  match t.find? p with
  | none => .error .notFound
  | some .directory => .ok (p, .directory)
  | some e => if path.trailing then .error .notDirectory else .ok (p, e)

/-- The text of a file. -/
def readFile (t : FileTree) (path : String) : Except FileError String := do
  match (← t.lookup (Path.ofString path)).2 with
  | .file text => .ok text
  | .sink => .ok ""
  | .directory => .error .isDirectory

/-- Write a file, which may exist already.  A path that asks for a directory is refused
as soon as its last name is reached, whatever the name is. -/
def writeFile (t : FileTree) (path text : String) : Except FileError FileTree := do
  let path := Path.ofString path
  if path.trailing then
    let _ ← t.locate path.toPlace
    .error .isDirectory
  else
    let p ← t.locate path
    match t.find? p with
    | some .directory => .error .isDirectory
    | some .sink => .ok t
    | _ => .ok (t.put p (.file text))

/-! ### Making directories -/

/-- Make a directory in an existing one. -/
def makeDirectory (t : FileTree) (start names : List String) : Except FileError FileTree := do
  let p ← t.follow start names
  if (t.find? p).isSome then .error .alreadyExists
  else .ok (t.put p .directory)

/-- The names lead to a directory. -/
def leadsToDirectory (t : FileTree) (start names : List String) : Bool :=
  match t.follow start names with
  | .ok p => t.isDirectory p
  | .error _ => false

/-- Make a directory unless it exists, if the place for it exists. -/
def ensureDirectory (t : FileTree) (start names : List String) : Except FileError FileTree :=
  match t.makeDirectory start names with
  | .ok t' => .ok t'
  | .error e => if t.leadsToDirectory start names then .ok t else .error e

/-- Make a directory.  If the place for it does not exist, the place is made by the given
action first.  What was made before an error stays. -/
def ensureAfter (t : FileTree) (start names : List String)
    (outer : FileTree × Except FileError Unit) : FileTree × Except FileError Unit :=
  match t.ensureDirectory start names with
  | .ok t' => (t', .ok ())
  | .error .notFound =>
      match outer with
      | (t', .ok ()) =>
          match t'.ensureDirectory start names with
          | .ok t'' => (t'', .ok ())
          | .error e => (t', .error e)
      | failed => failed
  | .error e => (t, .error e)

/-- Make a directory and, from the outside in, those it lies in.  The names are given from
the inside out. -/
def makeOuter (t : FileTree) (start : List String) :
    List String → FileTree × Except FileError Unit
  | [] => (t, .ok ())
  | name :: outer => t.ensureAfter start (name :: outer).reverse (t.makeOuter start outer)

/-- Make the directory of a path and those it lies in. -/
def makeDirectories (t : FileTree) (path : String) : FileTree × Except FileError Unit :=
  let path := Path.ofString path
  let start := t.startOf path
  if path.isTooLong then (t, .error .nameTooLong)
  else t.ensureAfter start path.names (t.makeOuter start path.outerNames.reverse)

/-! ### Walking -/

/-- The order of a walk: name by name, and a directory before what lies below it. -/
def pathLe : List String → List String → Bool
  | [], _ => true
  | _ :: _, [] => false
  | a :: r, b :: s => if a = b then pathLe r s else decide (a < b)

/-- All entries in the order of a walk. -/
def walk (t : FileTree) : List (List String × Entry) :=
  t.entries.mergeSort fun a b => pathLe a.1 b.1

/-- What lies below a directory, in the order of a walk and by its path from there. -/
def below (t : FileTree) (p : List String) : List (List String × Entry) :=
  t.walk.filterMap fun (q, e) =>
    if p.isPrefixOf q && p ≠ q then some (q.drop p.length, e) else none

/-- The files at or below a path in the order of a walk, as paths that begin with the given
one.  There is no answer for a path that leads nowhere. -/
def filesUnder (t : FileTree) (path : String) : Option (List String) :=
  match t.lookup (Path.ofString path) with
  | .error _ => none
  | .ok (_, .file _) => some [path]
  | .ok (_, .sink) => some []
  | .ok (p, .directory) => some <| (t.below p).filterMap fun
      | (q, .file _) => some (q.foldl joinPath path)
      | _ => none

end FileTree

end ClassModel
