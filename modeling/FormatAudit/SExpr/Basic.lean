import FormatAudit.Number.Real
import FormatAudit.Text.Quoted

/-!
# S-expressions

The forms of settings files and of one of the output formats. Besides lists there are lists in square brackets and quoted forms,
which are told apart from lists everywhere.
-/

namespace FormatAudit

/-- A form. -/
inductive SExpr where
  | symbol (name : String)
  | string (text : String)
  | whole (n : Int)
  | real (r : Number.Real)
  | list (items : List SExpr)
  | brackets (items : List SExpr)
  | quoted (item : SExpr)
  deriving Repr, Inhabited

namespace SExpr

mutual

/-- How a message shows a form. -/
def describe : SExpr → String
  | .symbol name => "Symbol(" ++ Text.quoted name ++ ")"
  | .string text => Text.quoted text
  | .whole n => Number.intText n
  | .real r => r.text
  | .list items => "[" ++ ", ".intercalate (describeList items) ++ "]"
  | .brackets items => "Brackets(I=[" ++ ", ".intercalate (describeList items) ++ "])"
  | .quoted item => "Quoted(" ++ describe item ++ ")"

/-- How a message shows several forms. -/
def describeList : List SExpr → List String
  | [] => []
  | x :: xs => describe x :: describeList xs

end

end SExpr

end FormatAudit
