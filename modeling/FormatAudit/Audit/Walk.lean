import FormatAudit.Expression.OfToken
import FormatAudit.Finding.OfArgument
import FormatAudit.FormatTable.Inference
import FormatAudit.Forwarding
import FormatAudit.Settings.Basic

/-!
# Walking a configuration

One pass over the token list finds the calls that pass a format. Function bodies are the only scopes that matter: entering one
makes its format parameter live, an assignment to it ends that, and every call to a function that takes a format becomes a site,
which records whether its format was a live parameter at that point.

A token that both starts and ends a body counts as a start, and for several scopes with the same start the last one counts. A
step that fails leaves the state as it was and ends the walk; the sites found before stay.
-/

namespace FormatAudit

/-- A call that passes a format, as seen during the walk. -/
structure Site where
  call : TokenId
  callee : Expression
  argument : Expression
  forwarded : Bool
  deriving Repr

/-- The state of a walk. -/
structure Walk where
  forwarding : Forwarding := {}
  sites : List Site := []
  deriving Repr

namespace Configuration

/-- The function body that a token starts. -/
def bodyStartingAt (c : Configuration) (t : TokenId) : Option Scope :=
  (c.functionScopes.filter (fun s => s.bodyStart == some t)).getLast?

/-- Whether a token ends a function body. -/
def endsBody (c : Configuration) (t : TokenId) : Bool :=
  c.functionScopes.any (fun s => s.bodyStop == some t)

end Configuration

/-- What a walk needs to know. -/
structure Auditor where
  source : Source
  table : FormatTable
  settings : Settings
  printer : Expression.Printer := Expression.render

namespace Auditor

/-- Called expressions that are never looked up and need no remark. -/
def isSilentCallee : Kind → Bool
  | .index | .call | .paren | .deref | .typeAssert => true
  | _ => false

/-- Enters the body of a function. -/
def enterBody (a : Auditor) (scope : Scope) : Logged Fault Forwarding :=
  let c := a.source.config
  match scope.function with
  | none => Forwarding.enter a.table c none
  | some f => do
    let function ← c.functionSymbol f ""
    let parameters ← c.symbolsOfParameters f
    Forwarding.enter a.table c (some (function, parameters))

/-- The format argument of a call, if its callee takes a format at the given place and the call passes one. -/
def formatArgument (a : Auditor) (callee : Expression) (call : Token) (place : Int) : Logged Fault (Option TokenId) := do
  let arguments := a.source.config.callArguments call
  match arguments[place.toNat]? with
  | none =>
    let text ← a.printer callee
    Logged.note { level := .debug, source := .audit,
                  message := callee.location.text ++ ": " ++ text ++ " called with " ++
                    Number.natText arguments.length ++ " argument(s), format is #" ++ Number.intText place }
    pure none
  | some argument =>
    if a.settings.skipBareCalls && (arguments.length : Int) - 1 ≤ place then pure none else pure (some argument)

/-- The site of a call, if it passes a format. -/
def siteOf (a : Auditor) (forwarding : Forwarding) (id : TokenId) : Logged Fault (Option Site) := do
  let c := a.source.config
  let call := c.token id
  let callee ← a.source.expression call.operand1
  if callee.kind = .ident || callee.kind = .member then
    let symbol ← c.calledSymbol call
    let place := a.table.slot? c symbol
    if place < 0 then pure none
    else
      match ← a.formatArgument callee call place with
      | none => pure none
      | some t =>
        let argument ← a.source.expression (some t)
        pure (some { call := id, callee, argument,
                     forwarded := argument.kind == .ident && forwarding.isLive argument.symbol })
  else if isSilentCallee callee.kind then pure none
  else
    let text ← a.printer callee
    Logged.note { level := .debug, source := .audit, message := "unhandled callee " ++ callee.kind.name ++ ": " ++ text }
    pure none

/-- Takes one token of the list. -/
def step (a : Auditor) (w : Walk) (t : TokenId) : Logged Fault Walk :=
  let c := a.source.config
  match c.bodyStartingAt t with
  | some scope => do
    let forwarding ← a.enterBody scope
    pure { w with forwarding }
  | none =>
    if c.endsBody t then pure { w with forwarding := Forwarding.clear }
    else if (c.token t).assigns || (c.token t).isStep then do
      let targets ← c.assignmentTargets (c.token t)
      let forwarding ← w.forwarding.assign targets
      pure { w with forwarding }
    else if (c.token t).isCall then do
      let site ← a.siteOf w.forwarding t
      pure { w with sites := w.sites ++ site.toList }
    else pure w

/-- Walks the token list. -/
def walk (a : Auditor) : Progress Fault Walk :=
  Progress.along a.step {} a.source.config.tokenList

/-- How the findings of an audit are made. -/
def style (a : Auditor) : FindingStyle :=
  { printer := a.printer }

/-- Adds the finding of a site. -/
def judgeSite (a : Auditor) (findings : List Finding) (site : Site) : Logged Fault (List Finding) := do
  let finding ← a.style.finding site.argument site.callee site.forwarded
  pure (findings ++ finding.toList)

/-- The findings of sites. -/
def findings (a : Auditor) (sites : List Site) : Progress Fault (List Finding) :=
  Progress.along a.judgeSite [] sites

/-- What is known about functions before a walk: the library, the settings and, if asked for, the wrappers of the
configuration. -/
def prepare (settings : Settings) (c : Configuration) : Progress Fault Inference :=
  let table : FormatTable := { extra := settings.functions }
  if settings.findWrappers then table.findWrappers c else { state := { table }, log := [], fault := none }

end Auditor

end FormatAudit
