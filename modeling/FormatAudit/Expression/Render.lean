import FormatAudit.Expression.Basic
import FormatAudit.Text.Letter

/-!
# Expressions as source text

Binary operators stand between single spaces; member access, subscripts and unary operators have none. Parentheses are printed
only where the expression has them, so `a + b` and `(a + b)` look different.

A node with too few operands has no text: rendering it is a fault. Operands are rendered from the first to the last, the
arguments of a call before its callee and the bounds of a slice before its container, and the first fault met is the one
reported.
-/

namespace FormatAudit.Expression

/-- A text or a fault. -/
abbrev Rendering := Except Fault String

/-- The rendering of the operand at a place. -/
def operandAt (operands : List Rendering) (i : Nat) : Rendering :=
  operands.getD i (.error .missingOperand)

/-- Renderings taken in order, up to the first fault. -/
def allTexts : List Rendering → Except Fault (List String)
  | [] => .ok []
  | r :: rs => do
    let s ← r
    let more ← allTexts rs
    pure (s :: more)

/-- The renderings of the arguments of a call, with commas between them. -/
def joinArguments (arguments : List Rendering) : Rendering :=
  ((allTexts arguments).map (", ".intercalate ·)).mapError Fault.inList

/-- The texts of the bounds of a slice, empty where the slot is. -/
def sliceBounds : List Bool → List Rendering → Except Fault (List String)
  | [], _ => .ok []
  | false :: slots, bounds => do
    let more ← sliceBounds slots bounds
    pure ("" :: more)
  | true :: _, [] => .error .missingBound
  | true :: slots, bound :: bounds => do
    let s ← bound
    let more ← sliceBounds slots bounds
    pure (s :: more)

/-- The text of a unary operation: the operator after the operand, around it if it is a word, or before it. -/
def unaryText (trailing : Bool) (op operand : String) : String :=
  if trailing then operand ++ op
  else if Text.isWord op then op ++ "(" ++ operand ++ ")"
  else op ++ operand

/-- The text of a node, given the renderings of its operands and of its callee. -/
def layout (n : Node) (operands : List Rendering) (callee : Rendering) : Rendering :=
  match n.kind with
  | .literal | .ident | .unknown => .ok n.text
  | .paren => do
    let inner ← operandAt operands 0
    pure ("(" ++ inner ++ ")")
  | .binary => do
    let left ← operandAt operands 0
    let right ← operandAt operands 1
    pure (if n.op = "," then left ++ ", " ++ right else left ++ " " ++ n.op ++ " " ++ right)
  | .member => do
    let object ← if operands.isEmpty then .ok "" else operandAt operands 0
    pure (object ++ (if n.op = "" then "." else n.op) ++ n.text)
  | .index => do
    let container ← operandAt operands 0
    let key ← operandAt operands 1
    pure (container ++ "[" ++ key ++ "]")
  | .slice => do
    let (low, high, cap) := n.slots
    let bounds ← sliceBounds [low, high, cap] operands.tail
    let container ← operandAt operands 0
    pure (container ++ "[" ++ ":".intercalate (if cap then bounds else bounds.take 2) ++ "]")
  | .call => do
    let arguments ← joinArguments operands
    let function ← callee
    pure (if n.cast then "(" ++ function ++ ")" ++ arguments else function ++ "(" ++ arguments ++ ")")
  | .unary => do
    let operand ← operandAt operands 0
    pure (unaryText n.trailing n.op operand)
  | .deref => do
    let operand ← operandAt operands 0
    pure ("*" ++ operand)
  | .typeAssert => do
    let operand ← operandAt operands 0
    pure (if n.op.toList.getLast? = some '>' then n.op ++ "(" ++ operand ++ ")" else operand ++ ".(" ++ n.op ++ ")")
  | .keyValue => do
    let key ← operandAt operands 0
    let value ← operandAt operands 1
    pure (key ++ (if n.op = "" then ": " else n.op) ++ value)
  | .conditional => do
    let selector ← operandAt operands 0
    let first ← operandAt operands 1
    let second ← operandAt operands 2
    pure (selector ++ " ? " ++ first ++ " : " ++ second)

mutual

/-- The source text of an expression. -/
def render : Expression → Rendering
  | .node info operands callee => layout info (renderList operands) (renderOption callee)

/-- The source texts of expressions. -/
def renderList : List Expression → List Rendering
  | [] => []
  | e :: es => render e :: renderList es

/-- The source text of an expression that may be missing. -/
def renderOption : Option Expression → Rendering
  | none => .ok ""
  | some e => render e

end

/-- A short description of an expression for a reader of logs: its kind and its quoted text. -/
def describe (e : Expression) : Rendering := do
  let text ← e.render
  pure ("<Expr " ++ e.kind.name ++ " " ++ Text.quoted text ++ ">")

end FormatAudit.Expression
