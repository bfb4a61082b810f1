import FormatAudit.Finding.Form
import FormatAudit.Finding.Json
import FormatAudit.Table

/-!
# Reports

The findings of a run, over one configuration or many. A finding with the key of an earlier one is left out. Counts add up under
the name of the checker and the name of the count.
-/

namespace FormatAudit

/-- The findings and counts of a run. -/
structure Report where
  findings : List Finding := []
  stats : Table String Int := []
  checkers : List String := []
  configurations : List String := []
  deriving Repr, Inhabited

namespace Report

/-- Whether a finding with the same key is there. -/
def has (r : Report) (f : Finding) : Bool :=
  r.findings.any (fun g => g.key == f.key)

/-- Adds a finding, unless one with the same key is there. -/
def add (r : Report) (f : Finding) : Report :=
  if r.has f then r else { r with findings := r.findings ++ [f] }

/-- Adds findings from the first to the last. -/
def addAll (r : Report) (fs : List Finding) : Report :=
  fs.foldl add r

/-- The value of a count, zero if there is none. -/
def stat (r : Report) (key : String) : Int :=
  (Table.get? r.stats key).getD 0

/-- Adds to a count. -/
def bump (r : Report) (key : String) (n : Int) : Report :=
  { r with stats := Table.put key (r.stat key + n) r.stats }

/-- Adds to several counts. -/
def bumpAll (r : Report) (entries : Table String Int) : Report :=
  entries.foldl (fun r e => r.bump e.1 e.2) r

/-- Names that are not in a list yet, added one after the other. -/
def addNames (names more : List String) : List String :=
  more.foldl (fun names n => if names.contains n then names else names ++ [n]) names

/-- Takes another report in. -/
def merge (r other : Report) : Report :=
  let merged := (r.addAll other.findings).bumpAll other.stats
  { merged with
    configurations := r.configurations ++ other.configurations
    checkers := addNames r.checkers other.checkers }

/-- The number of findings. -/
def total (r : Report) : Nat := r.findings.length

/-- The number of warnings. -/
def warnings (r : Report) : Nat :=
  (r.findings.filter (fun f => f.severity == .warning)).length

/-- The findings in a file. -/
def inFile (r : Report) (file : String) : List Finding :=
  r.findings.filter (fun f => f.location.file == file)

/-- The findings of a checker. -/
def ofChecker (r : Report) (name : String) : List Finding :=
  r.findings.filter (fun f => f.checker == name)

/-- The findings in some form, one after the other with line breaks between them. -/
def lines (r : Report) (write : Finding → Except Fault String) : Except Fault String := do
  let texts ← r.findings.mapM write
  pure ("\n".intercalate texts)

/-- The findings as JSON, one on a line. -/
def jsonLines (r : Report) : Except Fault String :=
  r.lines Finding.json

/-- The findings as compilers write them. -/
def compilerLines (r : Report) : Except Fault String :=
  r.lines (fun f => f.compilerText true)

/-- The findings as S-expressions, one on a line. -/
def sexpLines (r : Report) : Except Fault String :=
  r.lines Finding.sexp

/-- An elapsed time. A run is a function of its input and has no clock, so a sign for the digits stands in their place. -/
def elapsedText (n : Int) : String :=
  (if n < 0 then "-" else "") ++ "#ms"

/-- The line of a checker in the summary. -/
def checkerLine (r : Report) (name : String) : String :=
  "  " ++ name ++ ": " ++ Number.natText (r.ofChecker name).length ++ " finding(s), " ++
    Number.intText (r.stat (name ++ "_sites")) ++ " format call(s), " ++
    Number.intText (r.stat (name ++ "_wrappers")) ++ " wrapper(s), " ++
    elapsedText (r.stat (name ++ "_elapsed_ms"))

/-- The summary of a run. -/
def summary (r : Report) : String :=
  let head := Number.natText r.total ++ " finding(s), " ++ Number.natText r.warnings ++ " warning(s) in " ++
    Number.natText r.configurations.length ++ " configuration(s)"
  "\n".intercalate (head :: r.checkers.map r.checkerLine)

end Report

end FormatAudit
