import FormatAudit.FormatTable.Declared
import FormatAudit.Table

/-!
# Functions that take a format

Which functions take a format string, and at which place among their arguments. The knowledge comes from three sources, asked in
this order: the settings, the family of library functions, and the wrappers found in the unit itself.
-/

namespace FormatAudit

/-- The library functions that take a format, with the place of the format. -/
def libraryFormats : Table String Int :=
  [("printf", 0), ("fprintf", 1), ("sprintf", 1), ("snprintf", 2), ("dprintf", 1), ("asprintf", 1), ("printf_s", 0),
   ("fprintf_s", 1), ("sprintf_s", 2), ("snprintf_s", 3), ("vprintf", 0), ("vfprintf", 1), ("vsprintf", 1), ("vsnprintf", 2),
   ("vdprintf", 1), ("vasprintf", 1), ("vprintf_s", 0), ("vfprintf_s", 1), ("vsprintf_s", 2), ("vsnprintf_s", 3),
   ("syslog", 1), ("vsyslog", 1), ("err", 1), ("errx", 1), ("warn", 0), ("warnx", 0), ("verr", 1), ("verrx", 1),
   ("vwarn", 0), ("vwarnx", 0)]

/-- What is known about functions that take a format. An extra function without a place has the place that its declaration
implies. -/
structure FormatTable where
  extra : Table String (Option Int) := []
  builtin : Table String Int := libraryFormats
  inferred : Table SymbolKey Int := []
  deriving Repr, Inhabited

namespace FormatTable

/-- The place of the format among the arguments of a function, negative if it takes none. An extra function without a place and
without a telling declaration takes its first argument. -/
def slot (table : FormatTable) (c : Configuration) (s : Symbol) : Int :=
  if s.kind ≠ .functionName then noSlot
  else
    match Table.get? table.extra s.name with
    | some (some place) => place
    | some none => max 0 (c.declaredSlot? s.declaration)
    | none =>
      match Table.get? table.builtin s.name with
      | some place => place
      | none => (Table.get? table.inferred s.key).getD noSlot

/-- The place of the format of a function that may be unknown. -/
def slot? (table : FormatTable) (c : Configuration) : Option Symbol → Int
  | none => noSlot
  | some s => table.slot c s

/-- Records a wrapper. -/
def learn (table : FormatTable) (s : Symbol) (place : Int) : FormatTable :=
  { table with inferred := Table.put s.key place table.inferred }

end FormatTable

end FormatAudit
