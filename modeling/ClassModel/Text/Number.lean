/-
Numbers as they are written.

A whole number is written by its digits, perhaps behind a plus sign.  A decimal number may
have either sign, a point among its digits or at one end of them, and an exponent; the
infinite numbers and what is no number have names, in upper or lower case.
-/
namespace ClassModel

/-- Digits, and at least one. -/
def isDigits (s : List Char) : Bool :=
  s ≠ [] && s.all Char.isDigit

/-- The number that digits stand for, perhaps behind a plus sign. -/
def wholeNumber? (s : List Char) : Option Nat :=
  let digits :=
    match s with
    | '+' :: r => r
    | _ => s
  if isDigits digits then
    some (digits.foldl (fun n c => n * 10 + (c.toNat - '0'.toNat)) 0)
  else none

namespace Decimal

/-- What follows a sign, if there is one. -/
def dropSign : List Char → List Char
  | '+' :: r => r
  | '-' :: r => r
  | r => r

/-- Digits with at most one point.  There must be a digit on one side of the point. -/
def isMantissa (s : List Char) : Bool :=
  let whole := s.takeWhile Char.isDigit
  match s.dropWhile Char.isDigit with
  | [] => isDigits whole
  | '.' :: r => r.all Char.isDigit && isDigits (whole ++ r)
  | _ => false

/-- The names of numbers that have no digits. -/
def names : List String :=
  ["inf", "infinity", "nan"]

end Decimal

open Decimal in
/-- The text is a decimal number. -/
def isDecimal (text : List Char) : Bool :=
  let s := dropSign text
  let inMantissa (c : Char) : Bool := c != 'e' && c != 'E'
  names.contains (String.ofList (s.map Char.toLower)) ||
    match s.dropWhile inMantissa with
    | [] => isMantissa s
    | _ :: exponent => isMantissa (s.takeWhile inMantissa) && isDigits (dropSign exponent)

end ClassModel
