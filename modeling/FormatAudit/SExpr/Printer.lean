import FormatAudit.Fault
import FormatAudit.SExpr.Basic

/-!
# Writing S-expressions

The items of a list stand between parentheses with single spaces between them. Strings stand between double quotes; quotes,
backslashes and five control characters are written with a backslash, every other character as it is. A form with a number of
too many digits is not written.
-/

namespace FormatAudit.SExpr

/-- One character inside a string. -/
def stringChar (c : Char) : List Char :=
  if c = '\\' then ['\\', '\\']
  else if c = '"' then ['\\', '"']
  else if c = '\x08' then ['\\', 'b']
  else if c = '\x0c' then ['\\', 'f']
  else if c = '\n' then ['\\', 'n']
  else if c = '\r' then ['\\', 'r']
  else if c = '\t' then ['\\', 't']
  else [c]

/-- A string between double quotes. -/
def stringChars (s : String) : List Char :=
  '"' :: s.toList.flatMap stringChar ++ ['"']

mutual

/-- The characters of a form. -/
def chars : SExpr → List Char
  | .symbol name => name.toList
  | .string text => stringChars text
  | .whole n => Number.intChars n
  | .real r => r.text.toList
  | .list items => '(' :: itemChars items ++ [')']
  | .brackets items => '[' :: itemChars items ++ [']']
  | .quoted item => (Char.ofNat 39) :: chars item

/-- The characters of several forms, with single spaces between them. -/
def itemChars : List SExpr → List Char
  | [] => []
  | [x] => chars x
  | x :: xs => chars x ++ ' ' :: itemChars xs

end

mutual

/-- The whole numbers of a form. -/
def numbers : SExpr → List Int
  | .whole n => [n]
  | .list items => numbersOfAll items
  | .brackets items => numbersOfAll items
  | .quoted item => numbers item
  | _ => []

/-- The whole numbers of several forms. -/
def numbersOfAll : List SExpr → List Int
  | [] => []
  | x :: xs => numbers x ++ numbersOfAll xs

end

/-- The text of a form. -/
def text (x : SExpr) : String :=
  String.ofList x.chars

/-- Writes a form, if its numbers can be written. -/
def write (x : SExpr) : Except Fault String :=
  textShowing x.numbers x.text

end FormatAudit.SExpr
