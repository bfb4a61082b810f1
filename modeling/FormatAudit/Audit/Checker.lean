import FormatAudit.Audit.Walk

/-!
# Checkers

A checker examines a configuration. It counts what it sees under names of its own, keeps a log, and either lists findings or
fails; what it counted before a failure still counts.
-/

namespace FormatAudit

/-- What a checker makes of a configuration. -/
structure Examination where
  stats : Table String Int := []
  log : List LogRecord := []
  result : Except Fault (List Finding)

/-- A checker. -/
structure Checker where
  name : String
  examine : Configuration → Examination

/-- The name of the checker of formats. -/
def formatCheckerName : String := programName

/-- The count of the wrappers found, if they were looked for and the search came to its end. -/
def wrapperStats (settings : Settings) (p : Progress Fault Inference) : Table String Int :=
  if settings.findWrappers && p.fault.isNone then [("wrappers", (p.state.found.length : Int))] else []

/-- The count of the sites, if the walk came to its end. -/
def siteStats (p : Progress Fault Walk) : Table String Int :=
  if p.fault.isNone then [("sites", (p.state.sites.length : Int))] else []

/-- Examines a configuration for formats that are not constant: finds the wrappers, walks the token list, judges the sites. The
first part that fails ends the examination. -/
def examineFormats (settings : Settings) (printer : Expression.Printer) (c : Configuration) : Examination :=
  let prepared := Auditor.prepare settings c
  match prepared.fault with
  | some fault => { stats := wrapperStats settings prepared, log := prepared.log, result := .error fault }
  | none =>
    let auditor : Auditor := { source := c.source, table := prepared.state.table, settings, printer }
    let walked := auditor.walk
    let stats := wrapperStats settings prepared ++ siteStats walked
    match walked.fault with
    | some fault => { stats, log := prepared.log ++ walked.log, result := .error fault }
    | none =>
      let judged := auditor.findings walked.state.sites
      { stats, log := prepared.log ++ walked.log ++ judged.log,
        result := match judged.fault with
          | some fault => .error fault
          | none => .ok judged.state }

/-- The checker of formats. -/
def formatChecker (settings : Settings) : Checker :=
  { name := formatCheckerName, examine := examineFormats settings Expression.render }

end FormatAudit
