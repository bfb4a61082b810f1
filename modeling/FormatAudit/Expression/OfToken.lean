import FormatAudit.Expression.Basic
import FormatAudit.Log
import FormatAudit.Symbol.Resolve
import FormatAudit.Token.Arguments
import FormatAudit.Token.Extent

/-!
# Expressions from tokens

The syntax tree of a dump as an expression. Two things that the tree leaves implicit are made explicit.

* Grouping parentheses have no node in the tree. A node is put in parentheses when the token before its first one is a grouping
  parenthesis whose match is the token after its last one, and again as long as that holds one step further out.
* The token `(` stands for calls, casts and grouping alike; each becomes a node of its own kind.

What is not modelled becomes an opaque node with the text of its tokens. A tree deeper than the depth limit is cut off there in
the same way, so cyclic trees are handled too; the steps that are left are counted down by an argument.

A node gets its identity when it is made, after its operands and its callee: a token that occurs twice in a tree is turned into
two nodes. How nodes are made is left open (`Making`); a program run numbers them (`Numbering`).
-/

namespace FormatAudit

/-- The deepest nesting that is followed. -/
def depthLimit : Nat := 200

/-- The text without the first of every two neighbouring characters that are `a` and `b`. -/
def joinPairs (a b keep : Char) : List Char → List Char
  | x :: y :: cs => if x = a && y = b then keep :: joinPairs a b keep cs else x :: joinPairs a b keep (y :: cs)
  | cs => cs

/-- The tokens of a keyword cast as they are written: no blanks around the angle brackets. -/
def tightBrackets (s : String) : String :=
  String.ofList (joinPairs ' ' '>' '>' (joinPairs '<' ' ' '<' (joinPairs ' ' '<' '<' s.toList)))

/-- A way to make nodes, in the course of which records may be left. -/
class Making (m : Type → Type) where
  /-- A node with its operands and, for a call, its callee. -/
  make : Node → List Expression → Option Expression → m Expression
  /-- One record. -/
  note : LogRecord → m Unit

export Making (make)

/-- Nodes are numbered as they are made: the state is the identity of the next one. -/
abbrev Numbering := StateT Nat (Logged Fault)

instance : Making Numbering where
  make n operands callee := fun next => pure (.node { n with id := next } operands callee, next + 1)
  note r := StateT.lift (Logged.note r)

namespace Source

/-- The location of a token that may be missing, empty if it is. -/
def locationOrEmpty (s : Source) (t : Option TokenId) : Except Fault Location :=
  (s.config.look t).location

/-- How the tokens below a node are turned into expressions. -/
abbrev Below (m : Type → Type) := Option TokenId → m Expression

variable {m : Type → Type} [Monad m] [MonadLiftT (Except Fault) m] [Making m]

/-- An opaque node with the text of the tokens of an extent. -/
def opaqueNode (s : Source) (e : Extent) : m Expression := do
  let location ← (s.config.token e.first).location
  let stop ← (s.config.token e.last).location
  make { kind := .unknown, text := s.config.rangeText (some e.first) (some e.last), location, stop := some stop } [] none

/-- Puts a node in parentheses as long as the given neighbours are a pair of grouping parentheses, at most `count` times. -/
def enclose (s : Source) : Nat → Option TokenId → Option TokenId → Expression → m Expression
  | count + 1, some before, some after, e =>
    if (s.config.token before).opensGroup && (s.config.token before).link == some after then do
      let location ← (s.config.token before).location
      let stop ← (s.config.token after).location
      let paren ← make { kind := .paren, location, stop := some stop } [e] none
      enclose s count (s.config.token before).previous (s.config.token after).next paren
    else pure e
  | _, _, _, e => pure e

/-- A node in all the grouping parentheses that stand around its tokens. -/
def inParens (s : Source) (extent : Extent) (e : Expression) : m Expression :=
  s.enclose (s.config.tokens.size + 1) (s.config.token extent.first).previous (s.config.token extent.last).next e

/-- A cast with the type in parentheses. -/
def ofCast (s : Source) (below : Below m) (t : Token) (location stop : Location) : m Expression := do
  let text := match t.link with
    | some close => s.config.rangeText t.next (s.config.token close).previous
    | none => ""
  let place ← s.locationOrEmpty t.next
  let operand ← below t.operand1
  let target ← make { kind := .ident, text, symbol := some (Symbol.ofType text), location := place } [] none
  make { kind := .call, cast := true, location, stop := some stop } [operand] (some target)

/-- The callee of a call whose callee is no keyword cast. -/
def calleeOf (s : Source) (below : Below m) (fn : TokenId) : m Expression := do
  let name := s.config.token fn
  if name.isName then
    let symbol ← s.config.resolve name true
    let location ← name.location
    let callee ← make { kind := .ident, text := name.text, symbol, location } [] none
    s.inParens { first := fn, last := fn } callee
  else
    let callee ← below (some fn)
    if callee.kind = .member && callee.symbol.isNone then
      let symbol ← s.config.resolve (s.config.look name.operand2) true
      pure (callee.mapInfo (fun n => { n with symbol }))
    else pure callee

/-- A call, or a cast by a keyword. -/
def ofCall (s : Source) (below : Below m) (t : Token) (fn : TokenId) (location stop : Location) : m Expression := do
  let arguments ← mapList (fun a => below (some a)) (s.config.callArguments t)
  let name := (s.config.token fn).text
  if castKeywords.contains name || checkedCastKeywords.contains name then
    let spelled := tightBrackets (s.config.rangeText (some fn) t.previous)
    if checkedCastKeywords.contains name && arguments.length == 1 then
      make { kind := .typeAssert, op := spelled, location, stop := some stop } arguments none
    else
      let place ← (s.config.token fn).location
      let target ← make { kind := .ident, text := spelled, symbol := some (Symbol.ofType spelled), location := place } [] none
      make { kind := .call, location, stop := some stop } arguments (some target)
  else
    let callee ← s.calleeOf below fn
    make { kind := .call, location, stop := some stop } arguments (some callee)

/-- Two operands under an operator or a subscript. -/
def ofPair (below : Below m) (n : Node) (left right : Option TokenId) : m Expression := do
  let left ← below left
  let right ← below right
  make n [left, right] none

/-- A member access with the given name token. -/
def ofMember (s : Source) (below : Below m) (t : Token) (name : TokenId) (n : Node) : m Expression := do
  let object := if t.operand2 = some name then t.operand1 else none
  let operands ← match object with
    | some o => do
      let e ← below (some o)
      pure [e]
    | none => pure []
  let symbol ← s.config.resolve (s.config.token name) false
  make { n with kind := .member, op := if t.spelling = "" then t.text else t.spelling,
                text := (s.config.token name).text, symbol } operands none

/-- An operator with one operand. -/
def ofUnary (s : Source) (below : Below m) (t : TokenId) (operand : TokenId) (n : Node) : m Expression := do
  let inner ← below (some operand)
  if (s.config.token t).text = "*" then make { n with kind := .deref } [inner] none
  else
    let operandKey ← s.key operand
    let key ← s.key t
    make { n with kind := .unary, op := (s.config.token t).text, trailing := operandKey.before key } [inner] none

/-- The node of a token with the given extent. -/
def ofTokenNode (s : Source) (below : Below m) (id : TokenId) (e : Extent) : m Expression := do
  let t := s.config.token id
  let location ← (s.config.token e.first).location
  let stop ← (s.config.token e.last).location
  let n : Node := { kind := .unknown, location, stop := some stop }
  if t.isLiteral then make { n with kind := .literal, text := t.text } [] none
  else if t.operand1.isNone && t.operand2.isNone then
    if t.isName then
      let symbol ← s.config.resolve t false
      make { n with kind := .ident, text := t.text, symbol } [] none
    else s.opaqueNode e
  else if t.text = "(" then
    if t.isCast then s.ofCast below t location stop
    else
      match t.operand1 with
      | some fn => s.ofCall below t fn location stop
      | none => s.opaqueNode e
  else if t.text = "[" && t.operand1.isSome && t.operand2.isSome then
    ofPair below { n with kind := .index } t.operand1 t.operand2
  else
    match t.memberName.filter (fun name => (s.config.token name).isName) with
    | some name => s.ofMember below t name n
    | none =>
      let branches := s.config.look t.operand2
      if t.text = "?" && branches.text = ":" then
        let selector ← below t.operand1
        let first ← below branches.operand1
        let second ← below branches.operand2
        make { n with kind := .conditional } [selector, first, second] none
      else
        match t.operand1, t.operand2 with
        | some operand, none =>
          if unaryOperators.contains t.text then s.ofUnary below id operand n else s.opaqueNode e
        | some left, some right =>
          if binaryOperators.contains t.text then
            ofPair below { n with kind := .binary, op := t.text } (some left) (some right)
          else s.opaqueNode e
        | none, _ => s.opaqueNode e

/-- The expression of a token, following the tree for at most `steps` levels. A missing token has no expression. -/
def ofTokenWithin (s : Source) : Nat → Option TokenId → m Expression
  | 0, t => do
    let e ← s.extent t
    let location ← (s.config.token e.first).location
    Making.note { level := .debug, source := .expressions,
                  message := location.text ++ ": expression nested deeper than " ++ Number.natText depthLimit }
    let node ← s.opaqueNode e
    s.inParens e node
  | _ + 1, none => liftM (.error .nothingToSpan : Except Fault Expression)
  | steps + 1, some t => do
    let e ← s.extent (some t)
    let node ← s.ofTokenNode (ofTokenWithin s steps) t e
    s.inParens e node

/-- The expression of a token, its nodes numbered from zero on. -/
def expression (s : Source) (t : Option TokenId) : Logged Fault Expression := do
  let (e, _) ← (s.ofTokenWithin (m := Numbering) (depthLimit + 1) t).run 0
  pure e

end Source

end FormatAudit
