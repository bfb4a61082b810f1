import FormatAudit.Number.Decimal

/-!
# Source locations

A point of a source file. Locations are ordered by file name (code point by code point), then line, then column.
-/

namespace FormatAudit

/-- A point of a source file. Line and column count from one; zero means that they are not known. -/
structure Location where
  file : String := ""
  line : Int := 0
  column : Int := 0
  deriving DecidableEq, Repr, Inhabited

namespace Location

/-- The text of a location, its column left out when it is not known. -/
def text (l : Location) : String :=
  if l.column = 0 then l.file ++ ":" ++ Number.intText l.line
  else l.file ++ ":" ++ Number.intText l.line ++ ":" ++ Number.intText l.column

/-- The numbers of a location. -/
def numbers (l : Location) : List Int :=
  [l.line, l.column]

/-- Whether a location does not come after another. -/
def le (a b : Location) : Bool :=
  decide (a.file < b.file) ||
    (a.file == b.file && (decide (a.line < b.line) || (a.line == b.line && decide (a.column ≤ b.column))))

end Location

end FormatAudit
