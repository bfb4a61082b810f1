import FormatAudit.Finding.Basic
import FormatAudit.Text.Glob
import FormatAudit.Token.Basic

/-!
# Suppressions

Rules that keep findings from being reported. A rule names an error, or any error by `*`. Without a file it holds everywhere; with
a file and a line it stands for a comment in the source and covers that line and the next; with a file alone it covers every file
whose name is the given one, ends in it, or matches it as a wildcard pattern.
-/

namespace FormatAudit

/-- A rule. An empty file means everywhere, line zero means the whole file. -/
structure SuppressionRule where
  errorId : String
  file : String := ""
  line : Int := 0
  deriving DecidableEq, Repr, Inhabited

/-- Whether a text ends in another. -/
def endsWith (text ending : String) : Bool :=
  ending.toList.isSuffixOf text.toList

namespace SuppressionRule

/-- Whether a rule for a whole file covers a file. -/
def coversFile (s : SuppressionRule) (file : String) : Bool :=
  s.file == file || endsWith file s.file || Text.globMatches file s.file

/-- Whether a rule covers a location. -/
def covers (s : SuppressionRule) (l : Location) : Bool :=
  if s.file = "" then true
  else if s.line ≠ 0 then s.file == l.file && (l.line == s.line || l.line == s.line + 1)
  else s.coversFile l.file

/-- Whether a rule keeps a finding from being reported. -/
def suppresses (s : SuppressionRule) (f : Finding) : Bool :=
  (s.errorId == "*" || s.errorId == f.errorId) && s.covers f.location

end SuppressionRule

/-- The line of a recorded suppression, zero if it is none. -/
def RawLine.value : RawLine → Int
  | .whole n => n
  | .written text => (Number.read text).toOption.getD 0
  | .other => 0

/-- The rule that a recorded suppression stands for; one without an error identifier stands for none, and a line counts only
together with a file. -/
def RecordedSuppression.rule? (r : RecordedSuppression) : Option SuppressionRule :=
  if r.errorId = "" then none
  else some { errorId := r.errorId, file := r.file, line := if r.file = "" then 0 else r.line.value }

/-- The rules in force, each once. -/
structure RuleSet where
  rules : List SuppressionRule := []
  deriving Repr, Inhabited

namespace RuleSet

/-- Adds a rule. -/
def insert (r : RuleSet) (s : SuppressionRule) : RuleSet :=
  if r.rules.contains s then r else { rules := r.rules ++ [s] }

/-- The characters that make an entry a file pattern: path separators, wildcards and the dot. -/
def patternMarks : List Char :=
  ['/', '\\', '*', '?', '[', '.']

/-- Whether an entry of the settings is a file pattern. -/
def isPattern (entry : String) : Bool :=
  patternMarks.any (fun c => entry.toList.contains c)

/-- The rule of an entry of the settings: everything in the files of a pattern, or an error everywhere. -/
def ruleOf (entry : String) : SuppressionRule :=
  if isPattern entry then { errorId := "*", file := entry } else { errorId := entry }

/-- Adds the rule of an entry. -/
def addEntry (r : RuleSet) (entry : String) : RuleSet :=
  r.insert (ruleOf entry)

/-- The rules of entries. -/
def ofEntries (entries : List String) : RuleSet :=
  entries.foldl addEntry {}

/-- Adds the rules of recorded suppressions, from the first to the last. -/
def addRecorded (r : RuleSet) (recorded : List RecordedSuppression) : RuleSet :=
  (recorded.filterMap RecordedSuppression.rule?).foldl insert r

/-- Whether some rule keeps a finding from being reported. -/
def suppresses (r : RuleSet) (f : Finding) : Bool :=
  r.rules.any (fun s => s.suppresses f)

/-- The findings that no rule keeps back, in order. -/
def keep (r : RuleSet) (findings : List Finding) : List Finding :=
  findings.filter (fun f => !r.suppresses f)

end RuleSet

end FormatAudit
