import FormatAudit.Number.Decimal
import FormatAudit.Text.Blank
import FormatAudit.Text.Digit

/-!
# Reading whole numbers

A numeral may have blanks around it, one sign, decimal digits of any script, and single underscores between digits. It may have
at most `digitLimit` digits; a numeral that is too long is reported as such before anything that follows its digits is looked
at.
-/

namespace FormatAudit.Number

/-- Why a text is not read as a whole number. -/
inductive NumeralError where
  | malformed
  | tooLong (digits : Nat)
  deriving DecidableEq, Repr

/-- The values of the digits at the start of a text, single underscores between them left out, and what follows them. The flag
says that a digit has just been read, so that an underscore may come. -/
def digitRun : Bool → List Char → List Nat × List Char
  | _, [] => ([], [])
  | afterDigit, c :: cs =>
    match Text.digitValue? c with
    | some d => (d :: (digitRun true cs).1, (digitRun true cs).2)
    | none =>
      if afterDigit && c == '_' then
        match digitRun false cs with
        | ([], _) => ([], c :: cs)
        | run => run
      else ([], c :: cs)

/-- The number with the given decimal digits, the first being the highest. -/
def ofDigits (ds : List Nat) : Nat :=
  ds.foldl (fun n d => 10 * n + d) 0

/-- Takes one sign off the front: whether the number is negative, and the rest. -/
def takeSign : List Char → Bool × List Char
  | '-' :: cs => (true, cs)
  | '+' :: cs => (false, cs)
  | cs => (false, cs)

/-- Gives a magnitude its sign. -/
def signed (negative : Bool) (n : Nat) : Int :=
  if negative then -(n : Int) else n

/-- Reads a whole number from characters. -/
def readChars (cs : List Char) : Except NumeralError Int :=
  let (negative, body) := takeSign (cs.dropWhile Text.isNumeralBlank)
  match digitRun false body with
  | ([], _) => .error .malformed
  | (ds, rest) =>
    if rest.head? = some '_' then .error .malformed
    else if digitLimit < ds.length then .error (.tooLong ds.length)
    else if rest.all Text.isNumeralBlank then .ok (signed negative (ofDigits ds))
    else .error .malformed

/-- Reads a whole number from a text. -/
def read (s : String) : Except NumeralError Int :=
  readChars s.toList

end FormatAudit.Number
