/-
The lexical parts of source text.

Between any two tokens there may be trivia: white space, line comments and block comments.
A token takes the trivia behind it along, so a grammar never has to speak of it.

Groups that the grammar is not interested in, such as bodies and initial values, are
skipped as a whole.  `balanced` follows a pair of delimiters through nested groups of the
same kind and is not deceived by literals and comments; `angleGroup` follows angle
brackets, which is a guess, since they are operators as well, and gives up at a semicolon
or a brace.
-/
import ClassModel.Source.Recogniser

namespace ClassModel.Source

open Recogniser

/-! ### Trivia -/

/-- A space, a tab or a line break. -/
def isWhite (c : Char) : Bool :=
  c == ' ' || c == '\t' || c == '\n' || c == '\r'

/-- A comment up to the end of the line, which is left alone. -/
def lineComment : Recogniser Unit := do
  literal ['/', '/']
  let _ ← run (· != '\n')

/-- A comment up to its closing mark. -/
def blockComment : Recogniser Unit := do
  literal ['/', '*']
  let _ ← many do
    notFollowedBy (literal ['*', '/'])
    satisfy fun _ => true
  literal ['*', '/']

/-- White space or a comment. -/
def triviaItem : Recogniser Unit :=
  (do let _ ← satisfy isWhite) <|> lineComment <|> blockComment

/-- White space and comments, possibly none. -/
def trivia : Recogniser Unit := do
  let _ ← many triviaItem

/-! ### Words and symbols -/

/-- An identifier in the sense of Unicode, reserved or not. -/
def rawIdentifier : Recogniser String := do
  let c ← satisfy isIdentifierStart
  let r ← run isIdentifierContinue
  return String.ofList (c :: r)

/-- The words that are no names. -/
def reservedWords : List String :=
  ["abstract", "assert", "boolean", "break", "byte", "case", "catch", "char", "class", "const",
    "continue", "default", "do", "double", "else", "enum", "extends", "false", "final", "finally",
    "float", "for", "goto", "if", "implements", "import", "instanceof", "int", "interface", "long",
    "native", "new", "null", "package", "private", "protected", "public", "return", "short",
    "static", "strictfp", "super", "switch", "synchronized", "this", "throw", "throws",
    "transient", "true", "try", "void", "volatile", "while"]

/-- The names of the primitive types. -/
def primitiveNames : List String :=
  ["boolean", "byte", "char", "short", "int", "long", "float", "double"]

/-- A symbol and the trivia behind it. -/
def token (symbol : List Char) : Recogniser Unit := do
  literal symbol
  trivia

/-- A given word and the trivia behind it. -/
def keyword (word : String) : Recogniser Unit := do
  check rawIdentifier fun w => if w = word then .ok () else .error none
  trivia

/-- A name and the trivia behind it. -/
def identifier : Recogniser String := do
  let name ← check rawIdentifier fun w =>
    if reservedWords.contains w then .error (some (.unexpectedKeyword w)) else .ok w
  trivia
  return name

/-! ### Groups -/

/-- A character behind a backslash, or any but the quote and the backslash. -/
def literalItem (quote : Char) : Recogniser Unit :=
  (do let _ ← satisfy fun c => c != quote && c != '\\') <|>
  (do
    let _ ← satisfy (· == '\\')
    let _ ← satisfy fun _ => true)

/-- A literal between quotes. -/
def quotedLiteral (quote : Char) : Recogniser Unit := do
  let _ ← satisfy (· == quote)
  let _ ← many (literalItem quote)
  let _ ← satisfy (· == quote)

/-- A slash that begins no comment. -/
def slash : Recogniser Unit := do
  notFollowedBy (literal ['/', '/'])
  notFollowedBy (literal ['/', '*'])
  let _ ← satisfy (· == '/')

/-- A character of a group that has no meaning of its own. -/
def plainCharacter (opening closing : Char) : Recogniser Unit := do
  let _ ← satisfy fun c =>
    c != opening && c != closing && c != '"' && c != '\'' && c != '/'

/-- A part of a group, given a recogniser for nested groups. -/
def groupItem (opening closing : Char) (nested : Recogniser Unit) : Recogniser Unit :=
  nested <|> quotedLiteral '"' <|> quotedLiteral '\'' <|> lineComment <|> blockComment <|>
    slash <|> plainCharacter opening closing

/-- A group between delimiters, with everything inside it. -/
def balanced (opening closing : Char) : Recogniser Unit :=
  recursive fun nested => do
    let _ ← satisfy (· == opening)
    let _ ← many (groupItem opening closing nested)
    let _ ← satisfy (· == closing)

/-- A group between angle brackets, which holds no semicolon and no brace. -/
def angleGroup : Recogniser Unit :=
  recursive fun nested => do
    let _ ← satisfy (· == '<')
    let _ ← many (nested <|> do
      let _ ← satisfy fun c =>
        c != '<' && c != '>' && c != ';' && c != '\x7b' && c != '\x7d')
    let _ ← satisfy (· == '>')

/-- A block in braces and the trivia behind it. -/
def block : Recogniser Unit := do
  balanced '\x7b' '\x7d'
  trivia

/-- An argument list in parentheses and the trivia behind it. -/
def argumentList : Recogniser Unit := do
  balanced '(' ')'
  trivia

/-- Type parameters and the trivia behind them. -/
def typeParameters : Recogniser Unit := do
  angleGroup
  trivia

/-- A part of an initial value. -/
def initialItem : Recogniser Unit :=
  balanced '\x7b' '\x7d' <|> balanced '(' ')' <|> balanced '[' ']' <|> angleGroup <|>
    quotedLiteral '"' <|> quotedLiteral '\'' <|> lineComment <|> blockComment <|>
    do
      let _ ← satisfy fun c =>
        c != ',' && c != ';' && c != '\x7b' && c != '\x7d' && c != '(' && c != ')' &&
          c != '[' && c != ']' && c != '"' && c != '\''

/-- The initial value of a field, up to a comma or a semicolon outside all groups. -/
def initialValue : Recogniser Unit := do
  let _ ← many initialItem

end ClassModel.Source
