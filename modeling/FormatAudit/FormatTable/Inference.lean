import FormatAudit.FormatTable.Basic
import FormatAudit.Log
import FormatAudit.Token.Arguments

/-!
# Finding wrappers

A function of the unit is a wrapper if it has a format parameter and passes it, as a bare name, as the format of a call to a
function that takes one. Each wrapper found may make more functions wrappers, so the search goes over the candidates again and
again until a round finds none. A round that finds one takes a candidate away, so there are at most as many rounds as candidates
and one more.

A fault stops the search; the wrappers found before stay recorded.
-/

namespace FormatAudit

/-- A function that would be a wrapper if it forwards its format. -/
structure Candidate where
  scope : Scope
  symbol : Symbol
  slot : Int
  parameter : VariableId
  deriving Repr

/-- The state of the search: what is known, and the wrappers found so far. -/
structure Inference where
  table : FormatTable
  found : List Symbol := []
  deriving Repr

namespace Configuration

/-- Whether two references lead to the same variable: the same entry of the table, or entries with the same identifier. -/
def sameEntry (c : Configuration) (a b : VariableId) : Bool :=
  a == b || ((c.variableAt a).id.isSome && (c.variableAt a).id == (c.variableAt b).id)

/-- Whether a token is the bare name of a variable. -/
def isNameOf (c : Configuration) (t : Token) (v : VariableId) : Bool :=
  t.isName && t.variableRef.any (fun u => c.sameEntry u v)

/-- Whether a call passes a variable, as a bare name, as its format. -/
def callForwards (c : Configuration) (table : FormatTable) (call : Token) (v : VariableId) : Except Fault Bool := do
  let callee ← c.calledSymbol call
  let place := table.slot? c callee
  if place < 0 then pure false
  else
    match (c.callArguments call)[place.toNat]? with
    | some a => pure (c.isNameOf (c.token a) v)
    | none => pure false

/-- Whether some call among tokens forwards a variable; tokens after the first such call are not looked at. -/
def anyCallForwards (c : Configuration) (table : FormatTable) (v : VariableId) : List TokenId → Except Fault Bool
  | [] => .ok false
  | t :: ts =>
    if (c.token t).isCall then do
      if ← c.callForwards table (c.token t) v then pure true else anyCallForwards c table v ts
    else anyCallForwards c table v ts

/-- The candidate for a scope, if its function has a format parameter and is not known to take a format. -/
def candidateOf (c : Configuration) (table : FormatTable) (scope : Scope) : Except Fault (Option Candidate) :=
  match scope.function with
  | none => .ok none
  | some f =>
    let place := c.declaredSlot (c.functionAt f)
    if place < 0 then .ok none
    else do
      let symbol ← c.functionSymbol f ""
      if 0 ≤ table.slot c symbol then pure none
      else pure (((c.functionAt f).parameters[place.toNat]?).map fun v => { scope, symbol, slot := place, parameter := v })

/-- The candidates among scopes. -/
def candidates (c : Configuration) (table : FormatTable) : List Scope → Except Fault (List Candidate)
  | [] => .ok []
  | s :: ss => do
    let candidate ← c.candidateOf table s
    let more ← candidates c table ss
    pure (candidate.toList ++ more)

end Configuration

namespace Inference

/-- Looks at one candidate: records it if it forwards its format and is not recorded yet. -/
def consider (c : Configuration) (i : Inference) (candidate : Candidate) : Logged Fault Inference :=
  if (Table.get? i.table.inferred candidate.symbol.key).isSome then pure i
  else do
    let forwards ← c.anyCallForwards i.table candidate.parameter (c.scopeTokens candidate.scope)
    if forwards then
      Logged.note { level := .debug, source := .formatTable,
                    message := "inferred printf wrapper " ++ candidate.symbol.name ++ " (format arg " ++
                      Number.intText candidate.slot ++ ")" }
      pure { table := i.table.learn candidate.symbol candidate.slot, found := i.found ++ [candidate.symbol] }
    else pure i

/-- Goes over the candidates until a round finds nothing, at most `rounds` times. -/
def search (c : Configuration) (candidates : List Candidate) : Nat → Inference → Progress Fault Inference
  | 0, i => { state := i, log := [], fault := none }
  | rounds + 1, i =>
    let round := Progress.along (consider c) i candidates
    if round.fault.isSome || round.state.found.length == i.found.length then round
    else
      let rest := search c candidates rounds round.state
      { rest with log := round.log ++ rest.log }

end Inference

/-- Finds the wrappers of a configuration. -/
def FormatTable.findWrappers (table : FormatTable) (c : Configuration) : Progress Fault Inference :=
  match c.candidates table c.functionScopes with
  | .error fault => { state := { table }, log := [], fault := some fault }
  | .ok candidates => Inference.search c candidates (candidates.length + 1) { table }

end FormatAudit
