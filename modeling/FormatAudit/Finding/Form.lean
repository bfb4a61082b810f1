import FormatAudit.Finding.Basic
import FormatAudit.SExpr.Printer

/-!
# Findings as S-expressions
-/

namespace FormatAudit.Finding

/-- The finding as a form. -/
def form (f : Finding) : SExpr :=
  .list ([.symbol "diagnostic",
      .list [.symbol "id", .string f.errorId],
      .list [.symbol "severity", .symbol f.severity.name],
      .list [.symbol "file", .string f.location.file],
      .list [.symbol "line", .whole f.location.line],
      .list [.symbol "column", .whole f.location.column],
      .list [.symbol "message", .string f.message]] ++
    (if f.cwe = 0 then [] else [.list [.symbol "cwe", .whole f.cwe]]) ++
    f.notes.map (fun n =>
      .list [.symbol "note", .string n.location.file, .whole n.location.line, .whole n.location.column, .string n.message]))

/-- The finding as one S-expression, if its numbers can be written. -/
def sexp (f : Finding) : Except Fault String :=
  f.form.write

end FormatAudit.Finding
