import FormatAudit.Symbol.Basic

/-!
# Expressions

The closed model of expressions that is judged and printed. A node has a kind, operands in order, and, for a call, the called
expression. What the operands of each kind should be:

* `literal`, `ident`, `unknown`: none;
* `binary`, `index`, `keyValue`: two;
* `member`: the object, or none for a leading scope operator;
* `slice`: the container and then the bounds that its slots announce;
* `call`: the arguments;
* `paren`, `unary`, `deref`, `typeAssert`: one;
* `conditional`: selector, first and second branch.

Nodes have an identity of their own, `id`: the same text may occur twice in one expression and each occurrence is a node of its
own, while a node that occurs at two places of an expression graph carries the same `id` at both.
-/

namespace FormatAudit

/-- The kinds of expressions. -/
inductive Kind where
  | literal | ident | binary | member | index | slice | call | paren | unary | deref | typeAssert | keyValue | conditional
  | unknown
  deriving DecidableEq, Repr, Inhabited

/-- The name of a kind. -/
def Kind.name : Kind → String
  | .literal => "LITERAL"
  | .ident => "IDENT"
  | .binary => "BINARY"
  | .member => "MEMBER"
  | .index => "INDEX"
  | .slice => "SLICE"
  | .call => "CALL"
  | .paren => "PAREN"
  | .unary => "UNARY"
  | .deref => "DEREF"
  | .typeAssert => "TYPE_ASSERT"
  | .keyValue => "KEY_VALUE"
  | .conditional => "CONDITIONAL"
  | .unknown => "UNKNOWN"

/-- All kinds. -/
def Kind.all : List Kind :=
  [.literal, .ident, .binary, .member, .index, .slice, .call, .paren, .unary, .deref, .typeAssert, .keyValue, .conditional,
   .unknown]

/-- What a node is apart from its children. -/
structure Node where
  id : Nat := 0
  kind : Kind
  /-- The operator, or the text of an asserted type. -/
  op : String := ""
  /-- The text of a leaf, or the name of a member. -/
  text : String := ""
  symbol : Option Symbol := none
  location : Location := {}
  /-- The location of the last token, if it is known. -/
  stop : Option Location := none
  /-- Which of the three bounds a slice has. -/
  slots : Bool × Bool × Bool := (false, false, false)
  /-- The operator of a unary node is written after the operand. -/
  trailing : Bool := false
  /-- A call is a cast written with the type in parentheses. -/
  cast : Bool := false
  deriving DecidableEq, Repr, Inhabited

/-- An expression: a node with its operands and, for a call, the called expression. -/
inductive Expression where
  | node (info : Node) (operands : List Expression) (callee : Option Expression)
  deriving Repr, Inhabited

namespace Expression

/-- What the root node is apart from its children. -/
def info : Expression → Node
  | .node info _ _ => info

/-- The operands of the root node. -/
def operands : Expression → List Expression
  | .node _ operands _ => operands

/-- The called expression of the root node. -/
def callee : Expression → Option Expression
  | .node _ _ callee => callee

/-- The identity of the root node. -/
def id (e : Expression) : Nat := e.info.id

/-- The kind of the root node. -/
def kind (e : Expression) : Kind := e.info.kind

/-- The symbol of the root node. -/
def symbol (e : Expression) : Option Symbol := e.info.symbol

/-- Where the expression starts. -/
def location (e : Expression) : Location := e.info.location

/-- Where the expression ends: at its start if its end is not known. -/
def stopLocation (e : Expression) : Location := e.info.stop.getD e.info.location

/-! ## Building nodes -/

/-- A node without operands. -/
def leaf (info : Node) : Expression :=
  .node info [] none

/-- A literal. -/
def literal (text : String) (location : Location) : Expression :=
  leaf { kind := .literal, text, location }

/-- A name. -/
def ident (text : String) (symbol : Option Symbol) (location : Location) : Expression :=
  leaf { kind := .ident, text, symbol, location }

/-- Two operands and an operator, reaching from the start of the left operand to the end of the right one. -/
def binary (op : String) (left right : Expression) : Expression :=
  .node { kind := .binary, op, location := left.location, stop := some right.stopLocation } [left, right] none

/-- An expression in parentheses, reaching as far as the expression itself. -/
def paren (inner : Expression) : Expression :=
  .node { kind := .paren, location := inner.location, stop := some inner.stopLocation } [inner] none

/-- A call, starting where its callee starts. -/
def call (callee : Expression) (arguments : List Expression) (cast : Bool) : Expression :=
  .node { kind := .call, cast, location := callee.location } arguments (some callee)

/-- The same expression with another root node. -/
def mapInfo (f : Node → Node) : Expression → Expression
  | .node info operands callee => .node (f info) operands callee

end Expression

end FormatAudit
