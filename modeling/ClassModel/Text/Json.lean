/-
JSON text.

A value is written over several lines, each level two spaces further in, and an empty
array or object on one.  In a string the quote, the backslash and the control characters
below the space are escaped, by a letter where there is one and by the code point
otherwise; every other character stands for itself.
-/
namespace ClassModel

mutual

/-- A JSON value. -/
inductive JsonValue where
  | null
  | bool (b : Bool)
  | text (s : String)
  | array (items : List JsonValue)
  | object (fields : List JsonField)

/-- A named value in an object. -/
inductive JsonField where
  | mk (name : String) (value : JsonValue)

end

namespace JsonValue

/-- A character of a string. -/
def escape (c : Char) : List Char :=
  if c = '"' then ['\\', '"']
  else if c = '\\' then ['\\', '\\']
  else if c = '\x08' then ['\\', 'b']
  else if c = '\x0c' then ['\\', 'f']
  else if c = '\n' then ['\\', 'n']
  else if c = '\r' then ['\\', 'r']
  else if c = '\t' then ['\\', 't']
  else if c.toNat < 16 then ['\\', 'u', '0', '0', '0'] ++ Nat.toDigits 16 c.toNat
  else if c.toNat < 32 then ['\\', 'u', '0', '0'] ++ Nat.toDigits 16 c.toNat
  else [c]

/-- A string between quotes. -/
def quote (s : String) : String :=
  String.ofList ('"' :: s.toList.flatMap escape ++ ['"'])

/-- A line break and so many levels of indentation. -/
def newLine (depth : Nat) : String :=
  String.ofList ('\n' :: List.replicate (2 * depth) ' ')

mutual

/-- The text of a value at some level of indentation. -/
def pretty (depth : Nat) : JsonValue → String
  | null => "null"
  | bool true => "true"
  | bool false => "false"
  | text s => quote s
  | array [] => "[]"
  | array (v :: vs) =>
      "[" ++ newLine (depth + 1) ++ pretty (depth + 1) v ++ prettyItems (depth + 1) vs ++
        newLine depth ++ "]"
  | object [] => "\x7b\x7d"
  | object (f :: fs) =>
      "\x7b" ++ newLine (depth + 1) ++ prettyField (depth + 1) f ++ prettyFields (depth + 1) fs ++
        newLine depth ++ "\x7d"

/-- The text of further items. -/
def prettyItems (depth : Nat) : List JsonValue → String
  | [] => ""
  | v :: vs => "," ++ newLine depth ++ pretty depth v ++ prettyItems depth vs

/-- The text of a field. -/
def prettyField (depth : Nat) : JsonField → String
  | .mk name value => quote name ++ ": " ++ pretty depth value

/-- The text of further fields. -/
def prettyFields (depth : Nat) : List JsonField → String
  | [] => ""
  | f :: fs => "," ++ newLine depth ++ prettyField depth f ++ prettyFields depth fs

end

/-- The text of a value. -/
def render (v : JsonValue) : String :=
  pretty 0 v

end JsonValue

end ClassModel
