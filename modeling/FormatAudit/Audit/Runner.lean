import FormatAudit.Audit.Checker
import FormatAudit.Audit.Report
import FormatAudit.Suppression

/-!
# Running checkers

Checkers are run over the configurations of a dump, one after the other. The rules in force grow as configurations are reached:
each brings the suppressions recorded with it. A checker that fails is reported by one finding of its own and disturbs no
other. Where no checkers are named, the checker of formats is run.
-/

namespace FormatAudit

/-- The configurations of a compilation unit, and the suppressions recorded for all of them. -/
structure Dump where
  configurations : List Configuration := []
  suppressions : List RecordedSuppression := []
  deriving Repr, Inhabited

/-- The finding that stands for the failure of a checker. -/
def failureFinding (checker : String) (fault : Fault) : Finding :=
  { errorId := "checkerInternalError", message := "Checker '" ++ checker ++ "' failed: " ++ fault.message,
    severity := .information, location := {}, checker }

/-- The findings that an examination reports under some rules. -/
def Examination.reported (e : Examination) (checker : String) (rules : RuleSet) : List Finding :=
  match e.result with
  | .ok findings => rules.keep findings
  | .error fault => [failureFinding checker fault]

/-- The records of an examination of a configuration. -/
def Examination.records (e : Examination) (checker configuration : String) (reported : Nat) : List LogRecord :=
  let failure : List LogRecord := match e.result with
    | .ok _ => []
    | .error _ =>
      [{ level := .debug, source := .audit,
         message := "checker " ++ checker ++ " failed on " ++ Text.quoted configuration, traced := true }]
  e.log ++ failure ++
    [{ level := .info, source := .audit,
       message := checker ++ ": configuration " ++ Text.quoted configuration ++ ": " ++ Number.natText reported ++
         " finding(s) in " ++ Report.elapsedText 0 }]

/-- Runs one checker over a configuration and adds what it reports. -/
def Checker.runInto (checker : Checker) (rules : RuleSet) (c : Configuration) (r : Report) : Report × List LogRecord :=
  let e := checker.examine c
  let reported := e.reported checker.name rules
  let r := { r with checkers := r.checkers ++ [checker.name] }
  ((r.addAll reported).bumpAll (e.stats.map (fun s => (checker.name ++ "_" ++ s.1, s.2))),
    e.records checker.name c.name reported.length)

/-- Runs checkers over a configuration under the given rules. -/
def runCheckers (rules : RuleSet) (c : Configuration) : List Checker → Report → Report × List LogRecord
  | [], r => (r, [])
  | checker :: checkers, r =>
    let (r, log) := checker.runInto rules c r
    let (r, more) := runCheckers rules c checkers r
    (r, log ++ more)

/-- What a run came to: the report, the rules in force at its end, and the records made on the way. -/
structure RunOutcome where
  report : Report := {}
  rules : RuleSet := {}
  log : List LogRecord := []

/-- Runs checkers over one configuration; its own suppressions join the rules first. -/
def runConfiguration (checkers : List Checker) (rules : RuleSet) (c : Configuration) : RunOutcome :=
  let rules := rules.addRecorded c.suppressions
  let (report, log) := runCheckers rules c checkers { configurations := [c.name] }
  { report, rules, log }

/-- Runs checkers over one more configuration and adds what they report to what was reported before. -/
def RunOutcome.extend (checkers : List Checker) (o : RunOutcome) (c : Configuration) : RunOutcome :=
  let one := runConfiguration checkers o.rules c
  { report := o.report.merge one.report, rules := one.rules, log := o.log ++ one.log }

/-- The checkers of a run: those that are given, and the checker of formats if none are. -/
def checkersOf (settings : Settings) (given : List Checker) : List Checker :=
  if given.isEmpty then [formatChecker settings] else given

/-- Runs checkers over the configurations of a dump, from the first to the last. -/
def Dump.run (d : Dump) (settings : Settings) (given : List Checker) (rules : RuleSet) : RunOutcome :=
  d.configurations.foldl (RunOutcome.extend (checkersOf settings given)) { rules := rules.addRecorded d.suppressions }

/-- Checks the formats of one configuration. -/
def auditConfiguration (settings : Settings) (c : Configuration) : RunOutcome :=
  runConfiguration [formatChecker settings] (RuleSet.ofEntries settings.suppress) c

end FormatAudit
