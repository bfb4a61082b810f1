import FormatAudit.Finding.Basic

/-!
# Findings as JSON

One line of printable ASCII for each finding. Characters outside that range are written as escapes: five controls by a letter,
all others by the numbers of their UTF-16 units.
-/

namespace FormatAudit.Finding

/-- One UTF-16 unit as an escape. -/
def unitEscape (n : Nat) : List Char :=
  '\\' :: 'u' :: Text.hexDigits 4 n

/-- One character inside a JSON string. -/
def jsonChar (c : Char) : List Char :=
  if c = '"' then ['\\', '"']
  else if c = '\\' then ['\\', '\\']
  else if c = '\n' then ['\\', 'n']
  else if c = '\r' then ['\\', 'r']
  else if c = '\t' then ['\\', 't']
  else if c = '\x08' then ['\\', 'b']
  else if c = '\x0c' then ['\\', 'f']
  else if 0x20 ≤ c.toNat && c.toNat ≤ 0x7e then [c]
  else if c.toNat < 0x10000 then unitEscape c.toNat
  else
    let n := c.toNat - 0x10000
    unitEscape (0xD800 + n / 0x400) ++ unitEscape (0xDC00 + n % 0x400)

/-- A JSON string. -/
def jsonString (s : String) : List Char :=
  '"' :: s.toList.flatMap jsonChar ++ ['"']

/-- The value of a field: a text or a whole number. -/
inductive FieldValue where
  | text (s : String)
  | number (n : Int)
  deriving DecidableEq, Repr

/-- The characters of a value. -/
def FieldValue.chars : FieldValue → List Char
  | .text s => jsonString s
  | .number n => Number.intChars n

/-- The fields of a finding, in order. The weakness is left out if there is none. -/
def fields (f : Finding) : List (String × FieldValue) :=
  [("file", .text f.location.file), ("linenr", .number f.location.line), ("column", .number f.location.column),
   ("severity", .text f.severity.name), ("message", .text f.message), ("addon", .text f.addon),
   ("errorId", .text f.errorId), ("extra", .text f.extra)] ++
    if f.cwe = 0 then [] else [("cwe", .number f.cwe)]

/-- The fields of an object, with commas between them. -/
def fieldChars : List (String × FieldValue) → List Char
  | [] => []
  | [(name, value)] => jsonString name ++ ':' :: ' ' :: value.chars
  | (name, value) :: more => jsonString name ++ ':' :: ' ' :: value.chars ++ ',' :: ' ' :: fieldChars more

/-- The text of a JSON object on one line. -/
def jsonText (f : Finding) : String :=
  String.ofList ('\x7b' :: fieldChars f.fields ++ ['\x7d'])

/-- The numbers of a value. -/
def FieldValue.numbers : FieldValue → List Int
  | .text _ => []
  | .number n => [n]

/-- The finding as a JSON object on one line, if its numbers can be written. -/
def json (f : Finding) : Except Fault String :=
  textShowing (f.fields.flatMap (fun p => p.2.numbers)) f.jsonText

end FormatAudit.Finding
