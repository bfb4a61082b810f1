import FormatAudit.CommandLine.Help
import FormatAudit.CommandLine.Host
import FormatAudit.CommandLine.Options

/-!
# The program

A run of the program as a function of its arguments and of what surrounds it: the text on both output streams and the exit
status. The status is 0 if nothing was found or in addon mode, 1 if something was found, 2 if the settings or a dump could not be
read, and 130 if the user interrupted the program.

Dumps are taken one after the other. The first that cannot be checked ends the run; what was written before stays.
-/

namespace FormatAudit.CommandLine

/-- What a run of the program came to. `exits` says that the run was ended by the reading of the arguments. -/
structure Outcome where
  status : Nat
  exits : Bool := false
  stdout : String := ""
  stderr : String := ""
  deriving DecidableEq, Repr, Inhabited

/-- The least rank of the records that are shown: errors always, more with every `-v`. -/
def threshold (verbosity : Nat) : Nat :=
  match verbosity with
  | 0 => 30
  | 1 => Level.info.rank
  | _ => Level.debug.rank

/-- A text cut and padded to five characters. -/
def fiveWide (s : String) : String :=
  let cs := s.toList.take 5
  String.ofList (cs ++ List.replicate (5 - cs.length) ' ')

/-- A record as a line of the error stream. The clock is not part of a run: the time is shown by its format. -/
def recordText (r : LogRecord) : String :=
  "HH:MM:SS [" ++ fiveWide r.level.name ++ "] " ++ r.source.name ++ ": " ++ r.message ++ "\n" ++
    (if r.traced then "TRACEBACK\n" else "")

/-- The records that are shown, as text. -/
def logText (verbosity : Nat) (log : List LogRecord) : String :=
  String.join ((log.filter (fun r => threshold verbosity ≤ r.level.rank)).map recordText)

/-- A record of the program itself. -/
def say (level : Level) (message : String) : LogRecord :=
  { level, source := .program, message }

/-- A finding as one or more lines. -/
def findingText (format : OutputFormat) (f : Finding) : Except Fault String := do
  let text ← match format with
    | .json => f.json
    | .sexp => f.sexp
    | .gcc => f.compilerText true
  pure (text ++ "\n")

/-- Writes findings from the first to the last, until one cannot be written. -/
def writeFindings (format : OutputFormat) (findings : List Finding) : Progress Fault String :=
  Progress.along (fun written f => do
    let text ← findingText format f
    pure (written ++ text)) "" findings

/-- Adds the functions of one `--funcs` option after the other to a table. -/
def addFunctions (table : Table String (Option Int)) : List (Option String) → Except LoadError (Table String (Option Int))
  | [] => .ok table
  | none :: _ => .error .noFunctions
  | some text :: texts => do
    let more ← (parseFunctions text).mapError (fun error => LoadError.settings { error })
    addFunctions (Table.putAll table more) texts

/-- The settings of a run: the defaults, then the settings file, then the options. -/
def settingsOf (h : Host) (o : Options) : Logged LoadError Settings := do
  let base ← match o.config with
    | none | some "" => pure {}
    | some path => h.readSettings path
  let functions ← addFunctions [] o.funcs
  pure (base.layered {
    skipBareCalls := if o.noArgs then some true else none
    functions
    findWrappers := if o.noInfer then some false else none
    suppress := o.suppress.filterMap id })

/-- Why a dump is not checked. -/
inductive DumpError where
  | notInstalled
  | badPath (cause : PathError)
  | nameTooLong (path : String)
  | missing (path : String)
  | unparsable (path reason : String)
  | interrupted
  /-- An option that adds suppressions was given without a value. -/
  | noSuppression
  | fault (cause : Fault)
  deriving DecidableEq, Repr

/-- Whether there is something at the path of a dump. -/
def findDump (h : Host) (p : Path) : Except DumpError Unit :=
  if Path.hasNul p.text then .error (.missing p.text)
  else
    match h.lookUp p with
    | .ok _ => .ok ()
    | .error .nameTooLong => .error (.nameTooLong p.text)
    | .error _ => .error (.missing p.text)

/-- The dump at a path. -/
def readDump (h : Host) (path : String) : Logged DumpError Dump :=
  if !h.readsDumps then Logged.fail .notInstalled
  else do
    let p ← (h.expandHome (Path.ofText path)).mapError DumpError.badPath
    findDump h p
    Logged.note (say .info ("Parsing dump file: " ++ p.text))
    match Table.get? h.files p.text with
    | some (.dump d) => pure d
    | some (.brokenDump reason) => Logged.fail (.unparsable p.text reason)
    | some .interrupted => Logged.fail .interrupted
    | _ => Logged.fail (.unparsable p.text "not a dump")

/-- The rules that the settings bring. An option without a value is met only here, when the first dump has been read. -/
def rulesOf (settings : Settings) (o : Options) : Except DumpError RuleSet :=
  if o.suppress.contains none then .error .noSuppression else .ok (RuleSet.ofEntries settings.suppress)

/-- Checks the dump at a path: its findings. -/
def checkDump (h : Host) (settings : Settings) (o : Options) (path : String) : Logged DumpError (List Finding) := do
  let d ← readDump h path
  let rules ← rulesOf settings o
  let outcome := d.run settings [] rules
  Logged.noteAll outcome.log
  Logged.note (say .info (path ++ ": " ++ outcome.report.summary))
  pure outcome.report.findings

/-- The format of the findings: in addon mode always JSON. -/
def formatOf (o : Options) : OutputFormat :=
  if o.addonMode then .json else o.format

/-- What a run has written so far. -/
structure Output where
  stdout : String := ""
  log : List LogRecord := []
  reported : Nat := 0
  deriving Repr

/-- Checks dumps from the first to the last, until one cannot be checked. -/
def checkDumps (h : Host) (settings : Settings) (o : Options) : List String → Output → Output × Option DumpError
  | [], out => (out, none)
  | path :: paths, out =>
    let checked := checkDump h settings o path
    let out := { out with log := out.log ++ checked.log }
    match checked.result with
    | .error e => (out, some e)
    | .ok findings =>
      let written := writeFindings (formatOf o) findings
      let out := { out with stdout := out.stdout ++ written.state }
      match written.fault with
      | some cause => (out, some (.fault cause))
      | none => checkDumps h settings o paths { out with reported := out.reported + findings.length }

/-- The exit status after all dumps were checked. -/
def finalStatus (o : Options) (reported : Nat) : Nat :=
  if o.addonMode then 0 else if reported = 0 then 0 else 1

/-- The record of an error that nothing else accounts for. -/
def unhandled (message : String) : LogRecord :=
  { say .error ("Unhandled exception: " ++ message) with traced := true }

/-- The record and the exit status for a dump that is not checked. -/
def DumpError.report : DumpError → LogRecord × Nat
  | .notInstalled =>
    (say .error ("cppcheckdata is not installed.  " ++ "Install cppcheck or add its addons directory to PYTHONPATH."), 2)
  | .badPath cause => (unhandled cause.message, 2)
  | .nameTooLong path => (unhandled ("[Errno 36] " ++ FileError.nameTooLong.message ++ ": " ++ Text.quoted path), 2)
  | .missing path => (say .error ("dump file not found: " ++ path), 2)
  | .unparsable path reason => (say .error ("Failed to parse dump file " ++ path ++ ": " ++ reason), 2)
  | .interrupted => (say .info "Interrupted by user.", 130)
  | .noSuppression => (unhandled "unhashable type: 'list'", 2)
  | .fault cause => (unhandled cause.message, 2)

/-- The record for settings that cannot be loaded. -/
def LoadError.record : LoadError → LogRecord
  | .settings failure => say .error ("Invalid configuration: " ++ failure.message)
  | e => unhandled e.message

/-- Runs the program with options. -/
def runOptions (h : Host) (o : Options) : Outcome :=
  let loaded := settingsOf h o
  match loaded.result with
  | .error e => { status := 2, stderr := logText o.verbosity (loaded.log ++ [e.record]) }
  | .ok settings =>
    match checkDumps h settings o o.dumps { log := loaded.log } with
    | (out, none) =>
      { status := finalStatus o out.reported, stdout := out.stdout, stderr := logText o.verbosity out.log }
    | (out, some e) =>
      { status := e.report.2, stdout := out.stdout, stderr := logText o.verbosity (out.log ++ [e.report.1]) }

/-- Runs the program. -/
def run (h : Host) (arguments : List String) : Outcome :=
  match parse arguments with
  | .ok o => runOptions h o
  | .error .help => { status := 0, exits := true, stdout := helpText }
  | .error .version => { status := 0, exits := true, stdout := versionText }
  | .error (.usage e) =>
    { status := 2, exits := true, stderr := usageText ++ "varfmt: error: " ++ e.message ++ "\n" }

end FormatAudit.CommandLine
