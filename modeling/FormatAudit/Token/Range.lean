import FormatAudit.Token.Shape

/-!
# Runs of tokens

Tokens in source order, from one token to another, along the references to the next token. A run that never meets its last token
goes on to the end of the chain. A chain without a cycle is never longer than the table, so the walk is cut off there.
-/

namespace FormatAudit.Configuration

/-- At most `count` tokens along the chain that starts at `start`, up to `stop` if it is met. -/
def chain (c : Configuration) (stop : Option TokenId) : Nat → Option TokenId → List TokenId
  | 0, _ => []
  | _ + 1, none => []
  | count + 1, some t => t :: if stop = some t then [] else chain c stop count (c.token t).next

/-- The tokens from one token to another, both included. -/
def range (c : Configuration) (start stop : Option TokenId) : List TokenId :=
  c.chain stop (c.tokens.size + 1) start

/-- The text of the tokens from one token to another, with single spaces between them. -/
def rangeText (c : Configuration) (start stop : Option TokenId) : String :=
  " ".intercalate ((c.range start stop).map (fun t => (c.token t).text))

/-- The tokens of a scope, braces included; none if one of the braces is not known. -/
def scopeTokens (c : Configuration) (s : Scope) : List TokenId :=
  match s.bodyStart, s.bodyStop with
  | some start, some stop => c.range (some start) (some stop)
  | _, _ => []

end FormatAudit.Configuration
