import FormatAudit.Table

/-!
# Settings

What a user may choose, and how choices from several places are layered: the defaults, a settings file, the flags of the command
line. A layer says of each flag either nothing or what it should be, so that "not given" differs from "off".
-/

namespace FormatAudit

/-- The settings in force. A function may come with the place of its format or without. -/
structure Settings where
  /-- Leave out calls that pass nothing beyond the format. -/
  skipBareCalls : Bool := false
  functions : Table String (Option Int) := []
  findWrappers : Bool := true
  suppress : List String := []
  deriving DecidableEq, Repr, Inhabited

/-- Settings to be laid over others. -/
structure Layer where
  skipBareCalls : Option Bool := none
  functions : Table String (Option Int) := []
  findWrappers : Option Bool := none
  suppress : List String := []
  deriving DecidableEq, Repr, Inhabited

/-- Why there is no layer. -/
inductive LayerError where
  /-- The list of suppressions, which may be empty, is missing. -/
  | noSuppressions
  deriving DecidableEq, Repr

/-- The words for a missing layer. -/
def LayerError.message : LayerError → String
  | .noSuppressions => "'NoneType' object is not iterable"

/-- A layer of which every part may be missing. Flags and functions that are missing say nothing; suppressions have to be given. -/
def Layer.ofParts (skipBareCalls : Option Bool) (functions : Option (Table String (Option Int))) (findWrappers : Option Bool)
    (suppress : Option (List String)) : Except LayerError Layer :=
  match suppress with
  | none => .error .noSuppressions
  | some suppress => .ok { skipBareCalls, functions := functions.getD [], findWrappers, suppress }

namespace Settings

/-- Settings with a layer on top: given flags win, functions are replaced by name, and suppressions that are not there yet are
added at the end. -/
def layered (s : Settings) (l : Layer) : Settings :=
  { skipBareCalls := l.skipBareCalls.getD s.skipBareCalls
    functions := Table.putAll s.functions l.functions
    findWrappers := l.findWrappers.getD s.findWrappers
    suppress := s.suppress ++ l.suppress.filter (fun e => !s.suppress.contains e) }

/-- Whether two settings say the same; the order of functions does not matter. -/
def same (a b : Settings) : Bool :=
  a.skipBareCalls == b.skipBareCalls && Table.sameEntries a.functions b.functions &&
    a.findWrappers == b.findWrappers && a.suppress == b.suppress

end Settings

end FormatAudit
