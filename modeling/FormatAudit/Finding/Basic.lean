import FormatAudit.Fault
import FormatAudit.Location

/-!
# Findings

What the analysis reports: one message at one place of the source, with notes at other places.
-/

namespace FormatAudit

/-- How severe a finding is. -/
inductive Severity where
  | error | warning | style | performance | portability | information
  deriving DecidableEq, Repr, Inhabited

namespace Severity

/-- The name of a severity. -/
def name : Severity → String
  | .error => "error"
  | .warning => "warning"
  | .style => "style"
  | .performance => "performance"
  | .portability => "portability"
  | .information => "information"

/-- All severities. -/
def all : List Severity :=
  [.error, .warning, .style, .performance, .portability, .information]

/-- The severity of a name. -/
def ofName (s : String) : Except Fault Severity :=
  match all.find? (fun v => v.name == s) with
  | some v => .ok v
  | none => .error (.unknownSeverity s)

end Severity

/-- How certain a finding is: high for a plain variable, medium for an expression with a piece that is not constant. -/
inductive Confidence where
  | high | medium
  deriving DecidableEq, Repr, Inhabited

/-- A remark at another place. -/
structure Note where
  location : Location
  message : String
  stop : Option Location := none
  deriving DecidableEq, Repr, Inhabited

/-- The name under which findings are handed on. -/
def programName : String := "varfmt"

/-- The identifier of findings about formats. -/
def formatErrorId : String := "variableFormat"

/-- The number of the weakness "uncontrolled format string". -/
def uncontrolledFormat : Int := 134

/-- A finding. -/
structure Finding where
  errorId : String
  message : String
  severity : Severity
  location : Location
  stop : Option Location := none
  confidence : Confidence := .medium
  /-- The number of the weakness, zero for none. -/
  cwe : Int := 0
  checker : String := ""
  addon : String := programName
  extra : String := ""
  /-- Remarks at other places, in source order. -/
  notes : List Note := []
  deriving DecidableEq, Repr, Inhabited

namespace Finding

/-- What makes two findings the same: identifier, place and message. -/
def key (f : Finding) : String × Location × String :=
  (f.errorId, f.location, f.message)

/-- The finding as compilers write it, on one line and, with notes, one more line for each. -/
def compilerText (f : Finding) (withNotes : Bool) : Except Fault String :=
  let notes := if withNotes then f.notes else []
  let head := f.location.text ++ ": " ++ f.severity.name ++ ": " ++ f.message ++ " [" ++ f.errorId ++ "]"
  let more := notes.map (fun n => n.location.text ++ ": note: " ++ n.message)
  textShowing (f.location.numbers ++ notes.flatMap (·.location.numbers)) ("\n".intercalate (head :: more))

end Finding

end FormatAudit
