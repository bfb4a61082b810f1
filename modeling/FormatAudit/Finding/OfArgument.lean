import FormatAudit.Blame.Judge
import FormatAudit.Expression.Render
import FormatAudit.Finding.Basic

/-!
# The finding for a format argument

A format argument that is not constant gives one finding. A plain variable is quoted by name and its declaration is noted. For
any other expression the culprits are noted in source order, and the message quotes a culprit only if it is the only one and
short.
-/

namespace FormatAudit

/-- A culprit is quoted in the message only if its text is shorter than this. -/
def quotedLimit : Nat := 32

/-- How findings about formats are made: how expressions are shown, in whose name, and how severe they are. -/
structure FindingStyle where
  printer : Expression.Printer := Expression.render
  checker : String := programName
  severity : Severity := .warning

namespace FindingStyle

/-- A finding at a format argument. -/
def findingAt (style : FindingStyle) (argument : Expression) (message : String) (notes : List Note)
    (confidence : Confidence) : Finding :=
  { errorId := formatErrorId, message, severity := style.severity, location := argument.location,
    stop := some argument.stopLocation, confidence, cwe := uncontrolledFormat, checker := style.checker, notes }

/-- The notes on culprits. -/
def culpritNotes (style : FindingStyle) : List Expression → Except Fault (List Note)
  | [] => .ok []
  | e :: es => do
    let text ← (style.printer e).mapError Fault.inList
    let more ← culpritNotes style es
    pure ({ location := e.location, message := "Non-constant: " ++ text, stop := some e.stopLocation } :: more)

/-- What the message says about the culprits. -/
def subject (style : FindingStyle) : List Expression → Except Fault String
  | [e] => do
    let text ← style.printer e
    pure (if text.length < quotedLimit then "variable `" ++ text ++ "`" else "non-constant expression")
  | _ => .ok "non-constant expression"

/-- The finding for a variable that is passed as a format. -/
def variableFinding (style : FindingStyle) (argument : Expression) (function : String) (s : Symbol) :
    Except Fault Finding := do
  let text ← style.printer argument
  let notes := match s.declaredAt with
    | some l => [{ location := l, message := "defined here" }]
    | none => []
  pure (style.findingAt argument ("variable `" ++ text ++ "` used for " ++ function ++ " format parameter") notes .high)

/-- The finding for an expression that is passed as a format, if it is not constant. -/
def expressionFinding (style : FindingStyle) (argument : Expression) (function : String) :
    Logged Fault (Option Finding) := do
  let (constant, culprits) ← argument.judgeLogged style.printer {}
  if constant then pure none
  else
    let culprits := culprits.bySource
    let subject ← style.subject culprits
    let notes ← style.culpritNotes culprits
    pure (some (style.findingAt argument (subject ++ " used for " ++ function ++ " format parameter") notes .medium))

/-- The finding for a format argument of a function, if there is one. A forwarded parameter is never at fault. -/
def finding (style : FindingStyle) (argument function : Expression) (forwarded : Bool) : Logged Fault (Option Finding) :=
  if forwarded then pure none
  else do
    let name ← style.printer function
    match argument.kind, argument.symbol with
    | .ident, some s =>
      match s.kind with
      | .constantName => pure none
      | .variableName => do
        let f ← style.variableFinding argument name s
        pure (some f)
      | _ => style.expressionFinding argument name
    | _, _ => style.expressionFinding argument name

end FindingStyle

end FormatAudit
