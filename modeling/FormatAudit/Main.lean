import FormatAudit.CommandLine.Program

/-!
# The command

Collects what the program needs to know of the settings file that its arguments name, runs it, and writes its output. Dumps are
read by a separate tool; without it the program says so.
-/

open FormatAudit CommandLine

/-- What stands at a path, as far as it can be read. -/
def entryAt (path : Path) : IO (List (String × FileEntry)) := do
  try
    let content ← IO.FS.readBinFile path.text
    pure [(path.text, .bytes content.toList)]
  catch
    | .inappropriateType .. => pure [(path.text, .directory)]
    | _ => pure []

/-- The settings file that a command line names, as far as it can be read. -/
def settingsFile (host : Host) (arguments : List String) : IO (List (String × FileEntry)) :=
  match parse arguments with
  | .ok { config := some path, .. } =>
    match host.expandHome (Path.ofText path) with
    | .ok p => entryAt p
    | .error _ => pure []
  | _ => pure []

/-- Runs the program with the arguments of the command line. -/
def main (arguments : List String) : IO UInt32 := do
  let home ← IO.getEnv "HOME"
  let host : Host := { readsDumps := false, home := fun part => if part = "~" then home else none }
  let files ← settingsFile host arguments
  let outcome := FormatAudit.CommandLine.run { host with files } arguments
  IO.print outcome.stdout
  IO.eprint outcome.stderr
  pure outcome.status.toUInt32
