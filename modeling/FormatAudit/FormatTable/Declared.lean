import FormatAudit.Symbol.Resolve

/-!
# The format parameter of a declaration

A function that takes variable arguments has its format as the last named parameter; a function whose last named parameter is a
list of variable arguments has it just before. Other functions have none.
-/

namespace FormatAudit

/-- The answer for functions that take no format. -/
def noSlot : Int := -1

namespace Configuration

/-- Whether an ellipsis stands between the parenthesis after the name of a function and its match. -/
def takesEllipsis (c : Configuration) (f : FunctionDecl) : Bool :=
  let opening := (c.look f.nameToken).next
  (c.look opening).text == "(" &&
    (c.range opening (c.look opening).link).any (fun t => (c.token t).text == "...")

/-- The place of the format among the named parameters of a function, negative if it has none. -/
def declaredSlot (c : Configuration) (f : FunctionDecl) : Int :=
  let parameters := f.parameters
  if c.takesEllipsis f then (parameters.length : Int) - 1
  else if 2 ≤ parameters.length && (parameters.getLast?.any (fun v => c.isArgumentList (c.variableAt v))) then
    (parameters.length : Int) - 2
  else noSlot

/-- The place of the format of a function that may be unknown. -/
def declaredSlot? (c : Configuration) : Option FunctionId → Int
  | none => noSlot
  | some f => c.declaredSlot (c.functionAt f)

end Configuration

end FormatAudit
