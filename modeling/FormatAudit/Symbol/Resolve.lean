import FormatAudit.Symbol.Constness

/-!
# Resolving names

A name token stands for a variable, a function, a type, or an enumerator-like name with a known value, in that order. A name that
is called and stands for none of these is a function of some library. Every other name stays unresolved.
-/

namespace FormatAudit

namespace FunctionDecl

/-- The entries of a list of pairs that no later entry with the same number replaces. -/
def lastEntries : List (Int × VariableId) → List (Int × VariableId)
  | [] => []
  | e :: es => if es.any (fun e' => e'.1 == e.1) then lastEntries es else e :: lastEntries es

/-- The named parameters of a function, in increasing number. -/
def parameters (f : FunctionDecl) : List VariableId :=
  ((lastEntries f.arguments).mergeSort (fun a b => decide (a.1 ≤ b.1))).map (·.2)

end FunctionDecl

namespace Configuration

/-- The location of a token that may be missing. -/
def locationOf? (c : Configuration) : Option TokenId → Except Fault (Option Location)
  | none => .ok none
  | some t => do
    let l ← (c.token t).location
    pure (some l)

/-- The name of a variable: the text of its name token, else the name recorded for it. -/
def nameOfVariable (c : Configuration) (v : VariableDecl) : String :=
  match v.nameToken with
  | some t => (c.token t).text
  | none => v.name

/-- The symbol of a variable. -/
def variableSymbol (c : Configuration) (v : VariableId) : Except Fault Symbol := do
  let decl := c.variableAt v
  let constant ← c.isFixed decl
  let declaredAt ← c.locationOf? decl.nameToken
  pure {
    key := { space := "var", id := (decl.id.map EntityId.toSymbolId).getD (.unnamed v) }
    name := c.nameOfVariable decl
    kind := if constant then .constantName else .variableName
    declaredAt }

/-- The name of a function: the text of its defining token, else the name recorded for it, else the given one. -/
def nameOfFunction (c : Configuration) (f : FunctionDecl) (fallback : String) : String :=
  match f.nameToken with
  | some t => (c.token t).text
  | none => if f.name = "" then fallback else f.name

/-- The symbol of a function; `fallback` is its name if the dump gives none. -/
def functionSymbol (c : Configuration) (f : FunctionId) (fallback : String) : Except Fault Symbol := do
  let decl := c.functionAt f
  let name := c.nameOfFunction decl fallback
  let declaredAt ← c.locationOf? decl.nameToken
  pure {
    key := { space := "function", id := (decl.id.map EntityId.toSymbolId).getD (.text name) }
    name
    kind := .functionName
    declaredAt
    declaration := some f }

/-- The symbols of variables, from the first to the last. -/
def variableSymbols (c : Configuration) : List VariableId → Except Fault (List Symbol)
  | [] => .ok []
  | v :: vs => do
    let s ← c.variableSymbol v
    let more ← variableSymbols c vs
    pure (s :: more)

/-- The symbols of the named parameters of a function. -/
def symbolsOfParameters (c : Configuration) (f : FunctionId) : Except Fault (List Symbol) :=
  c.variableSymbols (c.functionAt f).parameters

end Configuration

/-- Whether a name token names a type. -/
def Token.isTypeName (t : Token) : Bool :=
  builtinTypes.contains t.text || t.hasType || (t.hasTypeScope && t.variableRef.isNone)

/-- Whether a value of a token is known. -/
def Token.valueIsKnown (t : Token) : Bool :=
  t.valueKinds.contains "known"

namespace Configuration

/-- The symbol that a name token stands for; `called` says that it is the name of a called function. -/
def resolve (c : Configuration) (t : Token) (called : Bool) : Except Fault (Option Symbol) :=
  if !t.isName then .ok none
  else
    match t.variableRef, t.functionRef with
    | some v, _ => (c.variableSymbol v).map some
    | none, some f => (c.functionSymbol f t.text).map some
    | none, none =>
      if t.isTypeName then .ok (some (Symbol.ofType t.text))
      else if called then .ok (some (Symbol.ofLibraryFunction t.text))
      else if t.varId = 0 && t.valueIsKnown then .ok (some (Symbol.ofEnumerator t.text))
      else .ok none

end Configuration

/-- The name on the right of a member access or of a scope operator. A leading `::` has its name as the first operand. -/
def Token.memberName (t : Token) : Option TokenId :=
  if t.text == "." then t.operand2
  else if t.text == "::" then t.operand2 <|> t.operand1
  else none

namespace Configuration

/-- The name token that tells which function a call calls, if there is one. -/
def calledName (c : Configuration) (call : Token) : Option TokenId :=
  let callee := c.look call.operand1
  if callee.text == "." || callee.text == "::" then callee.memberName
  else if callee.isName then call.operand1
  else none

/-- The symbol of the function that a call calls. -/
def calledSymbol (c : Configuration) (call : Token) : Except Fault (Option Symbol) :=
  c.resolve (c.look (c.calledName call)) true

/-- The symbols that an assignment, increment or decrement binds anew: a bare name on its left. -/
def assignmentTargets (c : Configuration) (t : Token) : Except Fault (List Symbol) := do
  let target ← c.resolve (c.look t.operand1) false
  pure target.toList

end Configuration

end FormatAudit
