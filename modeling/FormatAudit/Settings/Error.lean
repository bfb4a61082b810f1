import FormatAudit.SExpr.Reader

/-!
# Errors in settings
-/

namespace FormatAudit

/-- Why a file cannot be read. -/
inductive FileError where
  | missing | isDirectory | notDirectory | nameTooLong
  deriving DecidableEq, Repr

/-- The words for an error of a file. -/
def FileError.message : FileError → String
  | .missing => "No such file or directory"
  | .isDirectory => "Is a directory"
  | .notDirectory => "Not a directory"
  | .nameTooLong => "File name too long"

/-- Why settings are not accepted. -/
inductive SettingsError where
  | invalidName (spec : String)
  | invalidIndex (spec : String)
  | negativeIndex (spec : String)
  | syntaxError (cause : SExpr.ReadError)
  | notSettings
  | malformedEntry (form : SExpr)
  | unknownSetting (key : String)
  | notOneValue (key : String)
  | notBoolean (key : String) (form : SExpr)
  | indexTwice (name : String)
  | negativeIndexFor (name : String)
  | malformedFunction (form : SExpr)
  | malformedSuppression (form : SExpr)
  | unreadable (cause : FileError)
  deriving Repr

/-- The words for an error. -/
def SettingsError.message : SettingsError → String
  | .invalidName spec => "invalid function name in " ++ Text.quoted spec
  | .invalidIndex spec => "invalid format index in " ++ Text.quoted spec
  | .negativeIndex spec => "negative format index in " ++ Text.quoted spec
  | .syntaxError cause => "S-expression syntax error: " ++ cause.message
  | .notSettings => "expected a (varfmt ...) form"
  | .malformedEntry form => "malformed entry " ++ form.describe
  | .unknownSetting key => "unknown setting " ++ Text.quoted key
  | .notOneValue key => "(" ++ key ++ " ...) takes exactly one value"
  | .notBoolean key form => "(" ++ key ++ " ...) expects #t or #f, got " ++ form.describe
  | .indexTwice name => "index given twice for " ++ Text.quoted name
  | .negativeIndexFor name => "negative format index for " ++ Text.quoted name
  | .malformedFunction form => "malformed funcs entry " ++ form.describe
  | .malformedSuppression form => "malformed suppress entry " ++ form.describe
  | .unreadable cause => "cannot read config: " ++ cause.message

/-- An error together with the file that it was met in, if there is one. -/
structure SettingsFailure where
  error : SettingsError
  source : Option String := none
  deriving Repr

/-- The words for a failure: the file first, if it has a name. -/
def SettingsFailure.message (f : SettingsFailure) : String :=
  match f.source with
  | none | some "" => f.error.message
  | some source => source ++ ": " ++ f.error.message

end FormatAudit
