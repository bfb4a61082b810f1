import FormatAudit.Token.Basic

/-!
# Shapes of tokens

What a token is by itself: a literal, an assignment, a call, a grouping parenthesis. In the syntax tree of a dump a call is the
token `(` whose first operand is the called expression; casts share that token and carry a flag; grouping parentheses are plain
linked tokens outside the tree.
-/

namespace FormatAudit

/-- The operators that assign. -/
def assignmentOperators : List String :=
  ["=", "+=", "-=", "*=", "/=", "%=", "&=", "|=", "^=", "<<=", ">>="]

/-- The binary operators that make a value of both operands. Assignments are not among them. -/
def binaryOperators : List String :=
  ["+", "-", "*", "/", "%", "&", "|", "^", "<<", ">>", "==", "!=", "<", ">", "<=", ">=", "<=>", "&&", "||", ",", ".*", "->*"]

/-- The operators with one operand. -/
def unaryOperators : List String :=
  ["++", "--", "+", "-", "!", "~", "*", "&", "sizeof", "alignof", "typeof", "decltype"]

/-- Keyword casts that convert to a named type. -/
def castKeywords : List String :=
  ["static_cast", "const_cast", "reinterpret_cast"]

/-- Keyword casts that check the dynamic type of their operand. -/
def checkedCastKeywords : List String :=
  ["dynamic_cast"]

/-- Keywords that name a type and may head a cast in function style. -/
def builtinTypes : List String :=
  ["void", "bool", "_Bool", "char", "wchar_t", "char8_t", "char16_t", "char32_t", "short", "int", "long", "float", "double",
   "signed", "unsigned", "size_t", "ssize_t", "ptrdiff_t", "intptr_t", "uintptr_t"]

/-- The names of the type of a list of variable arguments. -/
def argumentListTypes : List String :=
  ["va_list", "__builtin_va_list", "__gnuc_va_list"]

namespace Token

/-- A number, string, character or boolean literal, or the null pointer literal. -/
def isLiteral (t : Token) : Bool :=
  t.isNumber || t.isString || t.isChar || t.isBoolean || t.text == "nullptr"

/-- A plain or compound assignment. -/
def assigns (t : Token) : Bool :=
  t.isAssignmentOp || assignmentOperators.contains t.text

/-- An increment or decrement with an operand. -/
def isStep (t : Token) : Bool :=
  (t.text == "++" || t.text == "--") && t.operand1.isSome

/-- A call: a parenthesis that has the called expression as its first operand and is no cast. -/
def isCall (t : Token) : Bool :=
  t.text == "(" && t.operand1.isSome && !t.isCast

/-- An opening parenthesis that takes no part in the syntax tree. -/
def opensGroup (t : Token) : Bool :=
  t.text == "(" && t.operand1.isNone && t.operand2.isNone && !t.isCast

/-- An opening bracket of any kind whose matching bracket belongs to the same piece of source. -/
def isOpeningBracket (t : Token) : Bool :=
  t.text == "(" || t.text == "[" || t.text == "\x7b"

end Token

end FormatAudit
