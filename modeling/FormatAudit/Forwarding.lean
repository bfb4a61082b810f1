import FormatAudit.FormatTable.Basic
import FormatAudit.Log

/-!
# Forwarded parameters

While the body of a wrapper is walked, its format parameter is the format of its caller and may be passed on. An assignment to it
ends that for the rest of the body, and so does the start or the end of any function body.
-/

namespace FormatAudit

/-- The parameters that may be passed on at the moment. -/
structure Forwarding where
  live : List Symbol := []
  deriving Repr, Inhabited

namespace Forwarding

/-- Whether a name stands for a parameter that may be passed on. -/
def isLive (r : Forwarding) : Option Symbol → Bool
  | none => false
  | some s => s.isIn r.live

/-- Nothing may be passed on. -/
def clear : Forwarding := {}

/-- The format parameter of a function among its parameters, if it takes a format. -/
def formatParameter (table : FormatTable) (c : Configuration) (function : Symbol) (parameters : List Symbol) :
    Option Symbol :=
  let place := table.slot c function
  if place < 0 then none else parameters[place.toNat]?

/-- Makes the format parameter of a function live, if it has one; also gives that parameter. -/
def register (r : Forwarding) (table : FormatTable) (c : Configuration) (function : Symbol) (parameters : List Symbol) :
    Logged Fault (Forwarding × Option Symbol) :=
  match formatParameter table c function parameters with
  | none => pure (r, none)
  | some p => do
    Logged.note { level := .debug, source := .forwarding,
                  message := function.name ++ ": " ++ p.name ++ " is a pass-through format" }
    pure ({ live := if p.isIn r.live then r.live else r.live ++ [p] }, some p)

/-- Starts the body of a function, if one is known. -/
def enter (table : FormatTable) (c : Configuration) : Option (Symbol × List Symbol) → Logged Fault Forwarding
  | none => pure clear
  | some (function, parameters) => do
    let (r, _) ← clear.register table c function parameters
    pure r

/-- Takes assigned symbols out, from the first to the last. -/
def assign (r : Forwarding) : List Symbol → Logged Fault Forwarding
  | [] => pure r
  | s :: ss =>
    if s.isIn r.live then do
      Logged.note { level := .debug, source := .forwarding, message := s.name ++ " reassigned, no longer a pass-through" }
      assign { live := r.live.filter (fun p => !s.same p) } ss
    else assign r ss

end Forwarding

end FormatAudit
