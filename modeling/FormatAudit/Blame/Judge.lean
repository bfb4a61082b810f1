import FormatAudit.Blame.Culprits
import FormatAudit.Log

/-!
# Judging expressions

An expression is constant if it is built from literals and declared constants only. If it is not, the judgement collects the
nodes to blame.

Composite nodes follow one rule. If no operand is constant, the operands are forgotten and the node itself is to blame; if some
are, the blame stays on the others. So `a + b + c` is blamed as one piece, while in `a + "x"` only `a` is. The rule takes back
only the operands themselves, never what stands below them, so `(a + "x")` leaves two culprits: `a` and the whole in
parentheses.

The selector of a conditional only picks a branch and is not judged. A cast of one operand is as good as its operand, but if the
operand is not constant both are blamed.
-/

namespace FormatAudit

namespace Expression

/-- Whether a node is a name that stands for a declared constant. -/
def isConstantName (e : Expression) : Bool :=
  match e.symbol with
  | some s => s.kind == .constantName
  | none => false

/-- Whether a called expression is the name of a type, so that the call is a conversion. -/
def isTypeReference (e : Expression) : Bool :=
  (e.kind == .ident || e.kind == .member) &&
    match e.symbol with
    | some s => s.kind == .typeName
    | none => false

/-- Whether a call converts to a type. -/
def isConversion (e : Expression) : Bool :=
  match e.callee with
  | some f => f.isTypeReference
  | none => false

end Expression

/-- A judgement: whether an expression is constant, and the culprits after adding its own. -/
abbrev Judgement := Culprits → Bool × Culprits

namespace Judgement

/-- Nothing to blame. -/
def constant : Judgement := fun cs => (true, cs)

/-- The node itself is to blame. -/
def blame (e : Expression) : Judgement := fun cs => (false, cs.add e)

/-- One judgement after the other. -/
def inTurn : List Judgement → Culprits → List Bool × Culprits
  | [], cs => ([], cs)
  | j :: js, cs =>
    let (verdict, cs) := j cs
    let (verdicts, cs) := inTurn js cs
    (verdict :: verdicts, cs)

/-- The rule for composite nodes: the parent takes the blame from its operands when none of them is constant. -/
def combine (parent : Expression) (operands : List Expression) (judgements : List Judgement) : Judgement := fun cs =>
  let (verdicts, cs) := inTurn judgements cs
  (verdicts.all id, if verdicts.any id then cs else (cs.discardAll operands).add parent)

/-- The rule for conversions: constant if the operand is, else the call is to blame besides its operand. -/
def convert (e : Expression) (operand : Judgement) : Judgement := fun cs =>
  let (verdict, cs) := operand cs
  if verdict then (true, cs) else (false, cs.add e)

/-- The judgement of a node, given those of its operands. -/
def ofNode (e : Expression) (operands : List Judgement) : Judgement :=
  match e.kind with
  | .literal => constant
  | .ident | .member => if e.isConstantName then constant else blame e
  | .binary | .paren | .unary | .deref | .typeAssert | .slice | .keyValue => combine e e.operands operands
  | .conditional => combine e e.operands.tail operands.tail
  | .call =>
    match operands with
    | [operand] => if e.isConversion then convert e operand else blame e
    | _ => blame e
  | .index | .unknown => blame e

end Judgement

namespace Expression

mutual

/-- Judges an expression. -/
def judge : Expression → Judgement
  | .node info operands callee => Judgement.ofNode (.node info operands callee) (judgeList operands)

/-- Judges expressions. -/
def judgeList : List Expression → List Judgement
  | [] => []
  | e :: es => judge e :: judgeList es

end

/-- The opaque nodes that are judged in a node, given those of its operands. -/
def opaqueOfNode (e : Expression) (operands : List (List Expression)) : List Expression :=
  match e.kind with
  | .unknown => [e]
  | .binary | .paren | .unary | .deref | .typeAssert | .slice | .keyValue => operands.flatten
  | .conditional => operands.tail.flatten
  | .call => if operands.length == 1 && e.isConversion then operands.flatten else []
  | .literal | .ident | .member | .index => []

mutual

/-- The opaque nodes that are met while an expression is judged, in that order. -/
def opaqueParts : Expression → List Expression
  | .node info operands callee => opaqueOfNode (.node info operands callee) (opaquePartsList operands)

/-- The opaque nodes that are met while expressions are judged. -/
def opaquePartsList : List Expression → List (List Expression)
  | [] => []
  | e :: es => opaqueParts e :: opaquePartsList es

end

/-- How expressions are shown in messages. -/
abbrev Printer := Expression → Except Fault String

/-- Notes every opaque node that is met while an expression is judged. -/
def noteOpaque (printer : Printer) : List Expression → Logged Fault Unit
  | [] => pure ()
  | e :: es => do
    let text ← printer e
    Logged.note { level := .debug, source := .verdict, message := "unhandled expression " ++ e.kind.name ++ ": " ++ text }
    noteOpaque printer es

/-- Judges an expression and notes the opaque nodes met on the way. -/
def judgeLogged (printer : Printer) (e : Expression) (cs : Culprits) : Logged Fault (Bool × Culprits) := do
  noteOpaque printer e.opaqueParts
  pure (e.judge cs)

end Expression

end FormatAudit
