import FormatAudit.Number.Whole
import FormatAudit.Text.Quoted

/-!
# Faults

Why a step of the analysis stops without a result, and the words that a report uses for it. A fault ends the step that meets
it; what was found before stays. Writing can meet one too: `textShowing` gives a text only if the numbers in it can be written.
-/

namespace FormatAudit

/-- Why a step of the analysis stops. -/
inductive Fault where
  /-- The extent of a missing token was asked for. -/
  | nothingToSpan
  /-- An attribute that should hold a number holds another text. -/
  | notANumber (text : String) (cause : Number.NumeralError)
  /-- A value type with a pointer count below minus one. -/
  | negativeShift
  /-- A value type with more pointer levels than any number can have bits. -/
  | tooManyLevels
  /-- A value type with more pointer levels than fit in memory. -/
  | outOfMemory
  /-- A number with too many digits was to be written. -/
  | tooManyDigits
  /-- A node with too few operands was rendered. -/
  | missingOperand
  /-- A slice that promises more bounds than it has was rendered. -/
  | missingBound
  /-- The same, met while rendering a list of items. -/
  | missingBoundInList
  /-- A severity was given by a name that is none. -/
  | unknownSeverity (name : String)
  /-- A checker stopped with a text of its own. -/
  | reported (text : String)
  deriving DecidableEq, Repr

namespace Fault

/-- The longest quotation of a text that is not a number. -/
def quotationLimit : Nat := 200

/-- The words for a fault. -/
def message : Fault → String
  | .nothingToSpan => "min() arg is an empty sequence"
  | .notANumber text .malformed =>
    "invalid literal for int() with base 10: " ++ String.ofList ((Text.quoted text).toList.take quotationLimit)
  | .notANumber _ (.tooLong digits) =>
    "Exceeds the limit (" ++ Number.natText Number.digitLimit ++ " digits) for integer string conversion: value has " ++
      Number.natText digits ++ " digits; use sys.set_int_max_str_digits() to increase the limit"
  | .negativeShift => "negative shift count"
  | .tooManyLevels => "too many digits in integer"
  | .outOfMemory => ""
  | .tooManyDigits =>
    "Exceeds the limit (" ++ Number.natText Number.digitLimit ++
      " digits) for integer string conversion; use sys.set_int_max_str_digits() to increase the limit"
  | .missingOperand => "tuple index out of range"
  | .missingBound => ""
  | .missingBoundInList => "generator raised StopIteration"
  | .unknownSeverity name => Text.quoted name ++ " is not a valid DiagnosticSeverity"
  | .reported text => text

/-- A fault as it is seen from a list whose items are rendered one after the other. -/
def inList : Fault → Fault
  | .missingBound => .missingBoundInList
  | f => f

end Fault

/-- A text that shows the given numbers. It is written only if each of them can be. -/
def textShowing (numbers : List Int) (text : String) : Except Fault String :=
  if numbers.all Number.isWritable then .ok text else .error .tooManyDigits

end FormatAudit
