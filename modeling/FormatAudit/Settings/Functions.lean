import FormatAudit.Settings.Error
import FormatAudit.Table
import FormatAudit.Text.Letter

/-!
# Naming functions that take a format

A function is named by itself, or with the place of its format after a colon: `die:1`. Several are given with commas between
them, and blank pieces are left out; of a name given twice the last place holds.
-/

namespace FormatAudit

/-- A function and the place of its format, if that is given. -/
abbrev FunctionSpec := String × Option Int

/-- Whether a name may be the name of a function: it starts with a letter or an underscore. -/
def startsLikeName : List Char → Bool
  | [] => false
  | c :: _ => Text.isLetter c || c == '_'

/-- Splits a text at the first colon; the second part is missing if there is no colon. -/
def splitColon : List Char → List Char × Option (List Char)
  | [] => ([], none)
  | c :: cs =>
    if c = ':' then ([], some cs)
    else
      let rest := splitColon cs
      (c :: rest.1, rest.2)

/-- Splits a text at every comma. -/
def splitCommas : List Char → List (List Char)
  | [] => [[]]
  | c :: cs =>
    if c = ',' then [] :: splitCommas cs
    else
      match splitCommas cs with
      | [] => [[c]]
      | piece :: pieces => (c :: piece) :: pieces

/-- Reads a function and the place of its format. -/
def FunctionSpec.parse (spec : String) : Except SettingsError FunctionSpec :=
  let (name, index) := splitColon (Text.trimChars spec.toList)
  let name := Text.trimChars name
  if !startsLikeName name then .error (.invalidName spec)
  else
    match index with
    | none => .ok (String.ofList name, none)
    | some digits =>
      match Number.readChars digits with
      | .error _ => .error (.invalidIndex spec)
      | .ok n => if n < 0 then .error (.negativeIndex spec) else .ok (String.ofList name, some n)

/-- Reads several functions. -/
def FunctionSpec.parseAll : List String → Except SettingsError (List FunctionSpec)
  | [] => .ok []
  | spec :: specs => do
    let f ← FunctionSpec.parse spec
    let more ← FunctionSpec.parseAll specs
    pure (f :: more)

/-- The pieces of a list of functions that are not blank. -/
def functionPieces (text : String) : List String :=
  ((splitCommas text.toList).filter (fun piece => !(Text.trimChars piece).isEmpty)).map String.ofList

/-- Reads a list of functions with commas between them. -/
def parseFunctions (text : String) : Except SettingsError (Table String (Option Int)) := do
  let specs ← FunctionSpec.parseAll (functionPieces text)
  pure (Table.putAll [] specs)

end FormatAudit
