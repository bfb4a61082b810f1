import FormatAudit.Settings.Basic
import FormatAudit.Settings.Functions

/-!
# Settings files

A settings file holds one form: a list headed by the name of the program, whose entries are lists headed by the name of a
setting. Entries are taken in order. The last word on a flag holds, functions replace earlier ones of the same name, and
suppressions add up. One bad entry makes the whole file unacceptable.
-/

namespace FormatAudit

namespace SExpr

/-- The name of a symbol. -/
def symbolName? : SExpr → Option String
  | .symbol name => some name
  | _ => none

/-- The text of a symbol or a string. -/
def word? : SExpr → Option String
  | .symbol name => some name
  | .string text => some text
  | _ => none

end SExpr

namespace Settings

/-- The words for "on". -/
def onWords : List String := ["#t", "t", "true", "yes", "on"]

/-- The words for "off". -/
def offWords : List String := ["#f", "nil", "false", "no", "off"]

/-- The word in lower case. Only plain letters have a case that matters, since the words are made of them. -/
def lowered (s : String) : String :=
  String.ofList (s.toList.map Char.toLower)

/-- A flag. -/
def flagOf (key : String) (form : SExpr) : Except SettingsError Bool :=
  match form.symbolName? with
  | none => .error (.notBoolean key form)
  | some name =>
    if onWords.contains (lowered name) then .ok true
    else if offWords.contains (lowered name) then .ok false
    else .error (.notBoolean key form)

/-- The one value of an entry. -/
def oneValue (key : String) : List SExpr → Except SettingsError SExpr
  | [form] => .ok form
  | _ => .error (.notOneValue key)

/-- A function: a name with or without the place of its format, or a list of a name and a place. -/
def functionOf (form : SExpr) : Except SettingsError FunctionSpec :=
  match form with
  | .symbol name => FunctionSpec.parse name
  | .string text => FunctionSpec.parse text
  | .list [head, .whole place] =>
    match head.word? with
    | none => .error (.malformedFunction form)
    | some name => do
      let (function, index) ← FunctionSpec.parse name
      if index.isSome then .error (.indexTwice name)
      else if place < 0 then .error (.negativeIndexFor name)
      else pure (function, some place)
  | _ => .error (.malformedFunction form)

/-- Functions, from the first to the last. -/
def functionsOf : List SExpr → Except SettingsError (List FunctionSpec)
  | [] => .ok []
  | form :: forms => do
    let f ← functionOf form
    let more ← functionsOf forms
    pure (f :: more)

/-- Suppressions, from the first to the last. -/
def suppressionsOf : List SExpr → Except SettingsError (List String)
  | [] => .ok []
  | form :: forms =>
    match form.word? with
    | none => .error (.malformedSuppression form)
    | some word => do
      let more ← suppressionsOf forms
      pure (word :: more)

/-- Takes one setting. -/
def takeSetting (s : Settings) (key : String) (values : List SExpr) : Except SettingsError Settings :=
  if key = "no-args" then do
    let form ← oneValue key values
    let flag ← flagOf key form
    pure { s with skipBareCalls := flag }
  else if key = "infer-wrappers" then do
    let form ← oneValue key values
    let flag ← flagOf key form
    pure { s with findWrappers := flag }
  else if key = "funcs" then do
    let specs ← functionsOf values
    pure { s with functions := Table.putAll s.functions specs }
  else if key = "suppress" then do
    let entries ← suppressionsOf values
    pure { s with suppress := s.suppress ++ entries }
  else .error (.unknownSetting key)

/-- Takes one entry. -/
def takeEntry (s : Settings) (form : SExpr) : Except SettingsError Settings :=
  match form with
  | .list (.symbol key :: values) => s.takeSetting key values
  | _ => .error (.malformedEntry form)

/-- Takes entries from the first to the last. -/
def takeEntries (s : Settings) : List SExpr → Except SettingsError Settings
  | [] => .ok s
  | form :: forms => do
    let s ← s.takeEntry form
    takeEntries s forms

/-- The settings of a form. -/
def ofForm : SExpr → Except SettingsError Settings
  | .list (.symbol "varfmt" :: entries) => takeEntries {} entries
  | _ => .error .notSettings

/-- How the one form of a text is read. -/
abbrev FormReader := String → Except SExpr.ReadError SExpr

/-- Reads settings from a text whose form the given reader finds. -/
def parse (read : FormReader) (text : String) : Except SettingsError Settings :=
  match read text with
  | .error cause => .error (.syntaxError cause)
  | .ok form => ofForm form

/-- Reads settings from a text that comes from the named file. -/
def parseFrom (read : FormReader) (source : Option String) (text : String) : Except SettingsFailure Settings :=
  (parse read text).mapError (fun error => { error, source })

end Settings

end FormatAudit
