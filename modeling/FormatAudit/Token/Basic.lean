import FormatAudit.Fault
import FormatAudit.Location

/-!
# One configuration of a compilation unit

A dump of a C or C++ compilation unit holds, for each preprocessor configuration, a table of tokens together with the variables,
functions and scopes that they refer to. Tokens refer to each other by their place in the table: the operands of the abstract
syntax tree, the matching bracket, the neighbours in the source. The operands may form cycles and shared subtrees; nothing here
follows them without a bound.

Attributes may be missing. A missing reference is `none`, and looking at a missing token gives the blank token, which has no text
and refers to nothing.
-/

namespace FormatAudit

/-- The place of a token in the table of its configuration. -/
abbrev TokenId := Nat

/-- The place of a variable in the table of its configuration. -/
abbrev VariableId := Nat

/-- The place of a function in the table of its configuration. -/
abbrev FunctionId := Nat

/-- A numeric attribute as the dump holds it: a text that should spell a number. -/
structure RawNumber where
  written ::
  text : String := ""
  deriving DecidableEq, Repr, Inhabited

/-- The value of a numeric attribute. An empty text counts as zero. -/
def RawNumber.value (n : RawNumber) : Except Fault Int :=
  if n.text = "" then .ok 0 else (Number.read n.text).mapError (Fault.notANumber n.text)

/-- The type of the value of a name: how many pointer levels it has, which levels are constant (one bit for each, the lowest for
the data pointed to), and the name of the type as written. -/
structure ValueType where
  pointer : RawNumber := {}
  constness : RawNumber := {}
  writtenType : String := ""
  deriving DecidableEq, Repr, Inhabited

/-- One token with its attributes. The defaults are those of a token of which nothing is known. -/
structure Token where
  text : String := ""
  file : String := ""
  line : RawNumber := {}
  column : RawNumber := {}
  isName : Bool := false
  isNumber : Bool := false
  isString : Bool := false
  isChar : Bool := false
  isBoolean : Bool := false
  isCast : Bool := false
  isAssignmentOp : Bool := false
  hasType : Bool := false
  hasTypeScope : Bool := false
  operand1 : Option TokenId := none
  operand2 : Option TokenId := none
  link : Option TokenId := none
  next : Option TokenId := none
  previous : Option TokenId := none
  /-- The spelling in the source, where it differs from `text` (`->` is simplified to `.`). -/
  spelling : String := ""
  variableRef : Option VariableId := none
  functionRef : Option FunctionId := none
  varId : Int := 0
  valueType : Option ValueType := none
  /-- The kinds of the values that are recorded for the token. -/
  valueKinds : List String := []
  deriving DecidableEq, Repr, Inhabited

/-- An identifier that a dump gives to a variable or a function. A text never equals a number. -/
inductive EntityId where
  | text (s : String)
  | number (n : Int)
  deriving DecidableEq, Repr, Inhabited

/-- A variable. -/
structure VariableDecl where
  id : Option EntityId := none
  name : String := ""
  nameToken : Option TokenId := none
  typeStart : Option TokenId := none
  typeStop : Option TokenId := none
  isArgument : Bool := false
  isArray : Bool := false
  isPointer : Bool := false
  isConst : Bool := false
  deriving DecidableEq, Repr, Inhabited

/-- A function. Its named parameters are numbered; for a number that occurs twice the last entry holds. -/
structure FunctionDecl where
  id : Option EntityId := none
  name : String := ""
  nameToken : Option TokenId := none
  arguments : List (Int × VariableId) := []
  deriving DecidableEq, Repr, Inhabited

/-- A scope: a brace-enclosed piece of the source. -/
structure Scope where
  kind : String := ""
  bodyStart : Option TokenId := none
  bodyStop : Option TokenId := none
  function : Option FunctionId := none
  deriving DecidableEq, Repr, Inhabited

/-- The line of a recorded suppression as the dump holds it. -/
inductive RawLine where
  | whole (n : Int)
  | written (text : String)
  /-- Anything that is no number. -/
  | other
  deriving DecidableEq, Repr, Inhabited

/-- A suppression that the dump records. -/
structure RecordedSuppression where
  errorId : String := ""
  file : String := ""
  line : RawLine := .whole 0
  deriving DecidableEq, Repr, Inhabited

/-- The most words of thirty bits that a number can have. -/
def wordLimit : Nat := 2305843009213693945

/-- One configuration. `tokenList` is the order in which the tokens stand in the source; the table may hold more. -/
structure Configuration where
  name : String := ""
  tokens : Array Token := #[]
  tokenList : List TokenId := []
  variableDecls : Array VariableDecl := #[]
  functionDecls : Array FunctionDecl := #[]
  scopes : List Scope := []
  suppressions : List RecordedSuppression := []
  /-- The most words of a number for which there is memory. -/
  memory : Nat := wordLimit
  deriving Repr, Inhabited

namespace Configuration

/-- The token at a place, blank if the table has no such place. -/
def token (c : Configuration) (t : TokenId) : Token :=
  c.tokens.getD t {}

/-- The token that a reference leads to, blank if the reference is missing. -/
def look (c : Configuration) : Option TokenId → Token
  | none => {}
  | some t => c.token t

/-- The variable at a place. -/
def variableAt (c : Configuration) (v : VariableId) : VariableDecl :=
  c.variableDecls.getD v {}

/-- The function at a place. -/
def functionAt (c : Configuration) (f : FunctionId) : FunctionDecl :=
  c.functionDecls.getD f {}

/-- The scopes that are bodies of functions, in the order of the dump. -/
def functionScopes (c : Configuration) : List Scope :=
  c.scopes.filter (fun s => s.kind == "Function")

@[simp]
theorem look_some (c : Configuration) (t : TokenId) : c.look (some t) = c.token t := rfl

@[simp]
theorem look_none (c : Configuration) : c.look none = {} := rfl

/-- A place past the end of the table holds the blank token. -/
theorem token_of_size_le {c : Configuration} {t : TokenId} (h : c.tokens.size ≤ t) : c.token t = {} := by
  simp [token, Array.getD, Nat.not_lt.2 h]

end Configuration

/-- The location of a token. -/
def Token.location (t : Token) : Except Fault Location := do
  let line ← t.line.value
  let column ← t.column.value
  pure { file := t.file, line, column }

end FormatAudit
