/-
The grammar of source files.

The order of the alternatives is part of the grammar.  A member is tried as a stray
semicolon, as a nested type and then, behind its modifiers, as a method, a field, a
constructor and a block.  A type is primitive if its first word says so, and a parameter
may come without a type.

A word in the place of a modifier is only a modifier if it is known as one, and a clause
such as `extends` asks for a class type without array dimensions.  Both are checks on a
part that was read, so their failures lie at the beginning of that part.
-/
import ClassModel.Source.Lexeme
import ClassModel.Source.Tree
import ClassModel.Text.Blank

namespace ClassModel.Source

open Recogniser

/-! ### Modifiers -/

/-- An annotation, with its arguments if it has some. -/
def annotation : Recogniser Unit := do
  let _ ← satisfy (· == '@')
  trivia
  let _ ← sepBy1 identifier (token ['.'])
  let _ ← optional argumentList

/-- A modifier and the trivia behind it. -/
def modifier : Recogniser Modifier := do
  let m ←
    (do
      literal "non-sealed".toList
      return Modifier.nonSealed) <|>
    check rawIdentifier fun w =>
      match Modifier.ofKeyword? w with
      | some m => .ok m
      | none => .error (some (.notModifier w))
  trivia
  return m

/-- Modifiers with annotations between them, which are dropped. -/
def modifiers : Recogniser (List Modifier) := do
  let ms ← many
    ((do
      annotation
      return none) <|>
    some <$> modifier)
  return ms.filterMap id

/-! ### Types -/

/-- Array dimensions, possibly none. -/
def dims : Recogniser Nat := do
  let ds ← many do
    token ['[']
    token [']']
  return ds.length

/-- The bounds of a wildcard. -/
def bounds (type : Recogniser TypeExpr) : Recogniser Unit := do
  keyword "extends" <|> keyword "super"
  let _ ← type

/-- An argument of a type. -/
def typeArgument (type : Recogniser TypeExpr) : Recogniser TypeArgument :=
  (do
    token ['?']
    let _ ← optional (bounds type)
    return .wildcard) <|>
  .type <$> type

/-- The arguments of a type in angle brackets. -/
def typeArguments (type : Recogniser TypeExpr) : Recogniser (List TypeArgument) := do
  token ['<']
  let arguments ← sepBy (typeArgument type) (token [','])
  token ['>']
  return arguments

/-- A segment of a class type. -/
def typeSegment (type : Recogniser TypeExpr) : Recogniser TypeSegment := do
  let name ← identifier
  let arguments ← optional (typeArguments type)
  return match arguments with
    | some as => .applied name as
    | none => .plain name

/-- The name of a primitive type and the trivia behind it. -/
def primitiveName : Recogniser String := do
  let name ← check rawIdentifier fun w =>
    if primitiveNames.contains w then .ok w else .error (some (.notPrimitive w))
  trivia
  return name

/-- A type with its array dimensions. -/
def typeExpr : Recogniser TypeExpr :=
  recursive fun type =>
    (do
      let name ← primitiveName
      let n ← dims
      return .primitive name n) <|>
    (do
      let segments ← sepBy1 (typeSegment type) (token ['.'])
      let n ← dims
      return .reference segments n)

/-- A class type without array dimensions. -/
def classType : Recogniser ClassType :=
  check typeExpr fun
    | .reference segments 0 => .ok segments
    | t => .error (some (.notClassType t.text))

/-- Class types separated by commas. -/
def classTypes : Recogniser (List ClassType) :=
  sepBy1 classType (token [','])

/-- An optional clause that lists class types behind a keyword. -/
def clause (word : String) : Recogniser (List ClassType) := do
  let types ← optional do
    keyword word
    classTypes
  return types.getD []

/-! ### Members -/

/-- A parameter with its type. -/
def typedFormal : Recogniser Formal := do
  let type ← typeExpr
  let dots ← optional (token ['.', '.', '.'])
  let name ← identifier
  let n ← dims
  return { type := some (type.addDims n), name, varargs := dots.isSome }

/-- A parameter whose type is left out. -/
def untypedFormal : Recogniser Formal := do
  let name ← identifier
  return { type := none, name, varargs := false }

/-- A parameter behind its modifiers, which are dropped. -/
def formal : Recogniser Formal := do
  let _ ← modifiers
  typedFormal <|> untypedFormal

/-- A parameter list in parentheses. -/
def formals : Recogniser (List Formal) := do
  token ['(']
  let parameters ← sepBy formal (token [','])
  token [')']
  return parameters

/-- A name in a field declaration, with its initial value skipped. -/
def declarator : Recogniser Declarator := do
  let name ← identifier
  let n ← dims
  let _ ← optional do
    token ['=']
    initialValue
  return { name, dims := n }

/-- A field declaration behind its modifiers. -/
def field (ms : List Modifier) : Recogniser Member := do
  let type ← typeExpr
  let declarators ← sepBy1 declarator (token [','])
  token [';']
  return .field { modifiers := ms, type, declarators }

/-- A method declaration behind its modifiers. -/
def method (ms : List Modifier) : Recogniser Member := do
  let _ ← optional typeParameters
  let result ←
    (do
      keyword "void"
      return none) <|>
    some <$> typeExpr
  let name ← identifier
  let parameters ← formals
  let _ ← dims
  let _ ← clause "throws"
  block <|> token [';']
  return .method { modifiers := ms, result, name, parameters }

/-- A constructor behind its modifiers. -/
def constructor : Recogniser Member := do
  let _ ← optional typeParameters
  let name ← identifier
  let _ ← formals
  let _ ← clause "throws"
  block
  return .constructor name

/-- A member of a declared type; nothing comes of a stray semicolon. -/
def member (declaration : Recogniser Declaration) : Recogniser (Option Member) :=
  (do
    token [';']
    return none) <|>
  (do
    let d ← declaration
    return some (.type d)) <|>
  (do
    let ms ← modifiers
    let m ← method ms <|> field ms <|> constructor <|> do
      block
      return .block
    return some m)

/-- The members of a declared type. -/
def members (declaration : Recogniser Declaration) : Recogniser (List Member) := do
  let ms ← many (member declaration)
  return ms.filterMap id

/-! ### Declarations -/

/-- The members of a declared type in braces. -/
def body (declaration : Recogniser Declaration) : Recogniser (List Member) := do
  token ['\x7b']
  let ms ← members declaration
  token ['\x7d']
  return ms

/-- A class behind its modifiers. -/
def classDeclaration (declaration : Recogniser Declaration) (ms : List Modifier) :
    Recogniser Declaration := do
  keyword "class"
  let name ← identifier
  let _ ← optional typeParameters
  let superclass ← optional do
    keyword "extends"
    classType
  let interfaces ← clause "implements"
  let _ ← clause "permits"
  let inner ← body declaration
  return .ofClass ms name superclass interfaces inner

/-- An interface behind its modifiers. -/
def interfaceDeclaration (declaration : Recogniser Declaration) (ms : List Modifier) :
    Recogniser Declaration := do
  keyword "interface"
  let name ← identifier
  let _ ← optional typeParameters
  let parents ← clause "extends"
  let _ ← clause "permits"
  let inner ← body declaration
  return .ofInterface ms name parents inner

/-- A constant of an enum, with its arguments and its body skipped. -/
def constant : Recogniser String := do
  let _ ← many annotation
  let name ← identifier
  let _ ← optional argumentList
  let _ ← optional block
  return name

/-- The constants of an enum, with an optional comma behind the last one. -/
def constants : Recogniser (List String) := do
  let names ← sepBy constant (token [','])
  let _ ← if names.isEmpty then pure none else optional (token [','])
  return names

/-- An enum behind its modifiers. -/
def enumDeclaration (declaration : Recogniser Declaration) (ms : List Modifier) :
    Recogniser Declaration := do
  keyword "enum"
  let name ← identifier
  let interfaces ← clause "implements"
  token ['\x7b']
  let names ← constants
  let inner ← optional do
    token [';']
    members declaration
  token ['\x7d']
  return .ofEnum ms name interfaces names (inner.getD [])

/-- The declaration of a type. -/
def declaration : Recogniser Declaration :=
  recursive fun nested => do
    let ms ← modifiers
    classDeclaration nested ms <|> interfaceDeclaration nested ms <|> enumDeclaration nested ms

/-! ### Files -/

/-- The package of a file. -/
def package : Recogniser (List String) := do
  let _ ← many annotation
  keyword "package"
  let segments ← sepBy1 identifier (token ['.'])
  token [';']
  return segments

/-- An import, with its words separated by single spaces. -/
def importPath : Recogniser String := do
  keyword "import"
  let path ← run (· != ';')
  token [';']
  return String.intercalate " " ((words path).map String.ofList)

/-- A type of a file; nothing comes of a stray semicolon. -/
def topLevel : Recogniser (Option Declaration) :=
  some <$> declaration <|> do
    token [';']
    return none

/-- A whole source file. -/
def compilationUnit : Recogniser CompilationUnit := do
  trivia
  let segments ← optional package
  let imports ← many importPath
  let types ← many topLevel
  done
  return { package := segments.getD [], imports, types := types.filterMap id }

end ClassModel.Source
