/-!
# Decimal text of whole numbers

How messages and output formats write a whole number: decimal digits without leading zeros, a minus sign in front of a negative
number. No output shows a number of more than `digitLimit` digits, and none is read.
-/

namespace FormatAudit.Number

/-- The most digits of a number that is written to an output or read from a text. -/
def digitLimit : Nat := 4300

/-- The decimal digits of a natural number. -/
def natChars (n : Nat) : List Char :=
  Nat.toDigits 10 n

/-- The characters of a whole number. -/
def intChars : Int → List Char
  | .ofNat n => natChars n
  | .negSucc n => '-' :: natChars (n + 1)

/-- Whether a number has few enough digits to be written. -/
def isWritable (n : Int) : Bool :=
  decide ((natChars n.natAbs).length ≤ digitLimit)

/-- The text of a natural number. -/
def natText (n : Nat) : String :=
  String.ofList (natChars n)

/-- The text of a whole number. -/
def intText (n : Int) : String :=
  String.ofList (intChars n)

end FormatAudit.Number
