import FormatAudit.SExpr.Basic

/-!
# Reading S-expressions

The reader takes one character after the other. Its state holds the items of the innermost open list, the lists that are open
around it, and whether it stands inside a string, an atom or a comment. An apostrophe quotes the next item of its list.

An atom that reads as a whole number is one, else a decimal number is, and every other atom is a symbol.
-/

namespace FormatAudit.SExpr

/-- Why a text is not one form. -/
inductive ReadError where
  | unterminatedString
  | danglingEscape
  | unclosed (expected : Char) (got : Option Char)
  | nothingQuoted (position : Nat)
  | leftOver (rest : String)
  | notOneForm
  deriving DecidableEq, Repr

/-- A character as a message shows it. -/
def describeChar (c : Char) : String :=
  Text.quoted (String.ofList [c])

/-- The words for an error. -/
def ReadError.message : ReadError → String
  | .unterminatedString => "'NoneType' object has no attribute 'start'"
  | .danglingEscape => "string index out of range"
  | .unclosed expected got =>
    "Not enough closing brackets. Expected " ++ describeChar expected ++ " to be the last letter in the sexp. Got: " ++
      (got.map describeChar).getD "None"
  | .nothingQuoted position => "No s-exp is found after an apostrophe at position " ++ Number.natText position
  | .leftOver rest =>
    "Too many closing brackets. Expected no character left in the sexp. Got: " ++ Text.quoted rest
  | .notOneForm => ""

/-- What opened a list. -/
inductive Opening where
  | paren
  | bracket
  | quote (position : Nat)
  deriving DecidableEq, Repr

/-- Where the reader stands. Texts are held in reverse. -/
inductive Mode where
  | between
  | string (text : List Char)
  | stringEscape (text : List Char)
  | atom (text : List Char)
  | atomEscape (text : List Char)
  | comment
  deriving DecidableEq, Repr

/-- The state of the reader. Items are held in reverse; `stack` has, for every open list from the innermost on, what opened it
and the items of the list around it. -/
structure Reader where
  items : List SExpr := []
  stack : List (Opening × List SExpr) := []
  mode : Mode := .between
  position : Nat := 0
  deriving Repr

/-- Whether a character separates items. -/
def isSeparator (c : Char) : Bool :=
  c == ' ' || c == '\t' || c == '\n' || c == '\r' || c == '\x0b' || c == '\x0c'

/-- Whether a character ends an atom. -/
def endsAtom (c : Char) : Bool :=
  c == '(' || c == ')' || c == '[' || c == ']' || c == '"' || c == ';' || isSeparator c

/-- What a backslash and a character stand for in a string, in reverse. -/
def unescapeString (c : Char) : List Char :=
  if c = '\\' || c = '"' then [c]
  else if c = 'b' then ['\x08']
  else if c = 'f' then ['\x0c']
  else if c = 'n' then ['\n']
  else if c = 'r' then ['\r']
  else if c = 't' then ['\t']
  else [c, '\\']

/-- The characters that a backslash makes ordinary in an atom. -/
def atomEscapes : List Char :=
  ['\\', Char.ofNat 39, Char.ofNat 96, '"', '(', ')', '[', ']', ' ', ',', '?', ';', '#']

/-- What a backslash and a character stand for in an atom, in reverse. -/
def unescapeAtom (c : Char) : List Char :=
  if atomEscapes.contains c then [c] else [c, '\\']

/-- The form of an atom. -/
def ofAtom (text : String) : SExpr :=
  match Number.read text with
  | .ok n => .whole n
  | .error _ =>
    match Number.Real.read? text with
    | some r => .real r
    | none => .symbol text

namespace Reader

/-- Ends the atom that is being read, if one is. -/
def endAtom (r : Reader) : Reader :=
  match r.mode with
  | .atom text => { r with items := ofAtom (String.ofList text.reverse) :: r.items, mode := .between }
  | _ => r

/-- Closes the innermost lists that an apostrophe opened: the first item of each is quoted. -/
def closeQuotes (items : List SExpr) : List (Opening × List SExpr) →
    Except ReadError (List SExpr × List (Opening × List SExpr))
  | (.quote position, outer) :: stack =>
    match items.reverse with
    | [] => .error (.nothingQuoted position)
    | first :: more => closeQuotes (more.reverse ++ .quoted first :: outer) stack
  | stack => .ok (items, stack)

/-- Closes the innermost list at a closing bracket; `rest` is the text from that bracket on. -/
def close (r : Reader) (c : Char) (rest : List Char) : Except ReadError Reader := do
  let (items, stack) ← closeQuotes r.items r.stack
  match stack with
  | [] => .error (.leftOver (String.ofList rest))
  | (.bracket, outer) :: stack =>
    if c = ']' then .ok { r with items := .brackets items.reverse :: outer, stack }
    else .error (.unclosed ']' (some c))
  | (_, outer) :: stack =>
    if c = ')' then .ok { r with items := .list items.reverse :: outer, stack }
    else .error (.unclosed ')' (some c))

/-- Opens a list. -/
def openList (r : Reader) (o : Opening) : Reader :=
  { r with items := [], stack := (o, r.items) :: r.stack }

/-- Takes one character between items; `rest` is the text from that character on. -/
def takeBetween (r : Reader) (c : Char) (rest : List Char) : Except ReadError Reader :=
  if c = '"' then .ok { r with mode := .string [] }
  else if isSeparator c then .ok r
  else if c = '(' then .ok (r.openList .paren)
  else if c = '[' then .ok (r.openList .bracket)
  else if c = ')' || c = ']' then r.close c rest
  else if c = Char.ofNat 39 then .ok (r.openList (.quote r.position))
  else if c = ';' then .ok { r with mode := .comment }
  else if c = '\\' then .ok { r with mode := .atomEscape [] }
  else .ok { r with mode := .atom [c] }

/-- Takes one character; `rest` is the text from that character on. -/
def take (r : Reader) (c : Char) (rest : List Char) : Except ReadError Reader :=
  match r.mode with
  | .between => r.takeBetween c rest
  | .string text =>
    if c = '"' then .ok { r with items := .string (String.ofList text.reverse) :: r.items, mode := .between }
    else if c = '\\' then .ok { r with mode := .stringEscape text }
    else .ok { r with mode := .string (c :: text) }
  | .stringEscape text => .ok { r with mode := .string (unescapeString c ++ text) }
  | .atom text =>
    if endsAtom c then r.endAtom.takeBetween c rest
    else if c = '\\' then .ok { r with mode := .atomEscape text }
    else .ok { r with mode := .atom (c :: text) }
  | .atomEscape text => .ok { r with mode := .atom (unescapeAtom c ++ text) }
  | .comment => .ok (if c = '\n' then { r with mode := .between } else r)

/-- Takes all characters of a text. -/
def run : List Char → Reader → Except ReadError Reader
  | [], r => .ok r
  | c :: cs, r =>
    match r.take c (c :: cs) with
    | .ok r => run cs { r with position := r.position + 1 }
    | .error e => .error e

/-- The items of a text that ends here. -/
def finish (r : Reader) : Except ReadError (List SExpr) :=
  match r.mode with
  | .string _ => .error .unterminatedString
  | .stringEscape _ | .atomEscape _ => .error .danglingEscape
  | _ => do
    let r := r.endAtom
    let (items, stack) ← closeQuotes r.items r.stack
    match stack with
    | [] => .ok items.reverse
    | (.bracket, _) :: _ => .error (.unclosed ']' none)
    | _ :: _ => .error (.unclosed ')' none)

end Reader

/-- Reads the one form of a text. -/
def read (s : String) : Except ReadError SExpr := do
  let r ← Reader.run s.toList {}
  match ← r.finish with
  | [x] => .ok x
  | _ => .error .notOneForm

end FormatAudit.SExpr
