import FormatAudit.Token.Shape

/-!
# Arguments of a call

The arguments of a call hang off its second operand as a tree of commas, of any shape and with operands missing. They are
collected with a stack of pending tokens, because a comma chain is as deep as the argument list is long.

Each pending token carries how many more commas may be opened below it. A comma tree without cycles is never deeper than the
table of tokens, so the allowance of the root, the size of the table, is never used up by one.
-/

namespace FormatAudit.Configuration

/-- The weight of the pending tokens: opening a comma replaces one token by two of a smaller allowance, which together weigh
less. -/
def pendingWeight (pending : List (Nat × Option TokenId)) : Nat :=
  pending.foldr (fun p weight => Nat.pow 3 p.1 + weight) 0

/-- Collects the arguments below the pending tokens, the first pending token first. -/
def collectArguments (c : Configuration) (pending : List (Nat × Option TokenId)) (found : List TokenId) : List TokenId :=
  match pending with
  | [] => found.reverse
  | (_, none) :: rest => collectArguments c rest found
  | (0, some t) :: rest => collectArguments c rest (if (c.token t).text == "," then found else t :: found)
  | (allowance + 1, some t) :: rest =>
    if (c.token t).text == "," then
      collectArguments c ((allowance, (c.token t).operand1) :: (allowance, (c.token t).operand2) :: rest) found
    else collectArguments c rest (t :: found)
  termination_by pendingWeight pending
  decreasing_by
    all_goals simp only [pendingWeight, List.foldr_cons, Nat.pow_eq, Nat.pow_succ, Nat.pow_zero]
    · exact Nat.lt_add_of_pos_left (Nat.pow_pos (by decide))
    · omega
    · have := Nat.pow_pos (n := allowance) (show 0 < 3 by decide)
      omega
    · have := Nat.pow_pos (n := allowance) (show 0 < 3 by decide)
      omega

/-- The root tokens of the arguments of a call, from left to right. -/
def callArguments (c : Configuration) (call : Token) : List TokenId :=
  if call.text == "(" then c.collectArguments [(c.tokens.size, call.operand2)] [] else []

end FormatAudit.Configuration
