import FormatAudit.Token.Shape
import Std.Data.HashSet

/-!
# The extent of a subtree

A token of the syntax tree covers all tokens that are reachable from it through operands, and the matching bracket of every
opening bracket among them. Its extent is the first and the last token that it covers.

Tokens are ordered by their place in the token list of the configuration; tokens that are not in the list come after all others,
by line and column. The search keeps the set of tokens it has visited, so it ends on cyclic trees too.
-/

namespace FormatAudit

/-- Where a token stands in source order: at a place of the token list, or outside the list at a line and column. -/
inductive OrderKey where
  | listed (position : Nat)
  | loose (line column : Int)
  deriving DecidableEq, Repr

/-- Whether one place comes strictly before another. -/
def OrderKey.before : OrderKey → OrderKey → Bool
  | .listed a, .listed b => decide (a < b)
  | .listed _, .loose _ _ => true
  | .loose _ _, .listed _ => false
  | .loose l c, .loose l' c' => decide (l < l') || (l == l' && decide (c < c'))

/-- The place of every token of a table in the token list. -/
structure SourceOrder where
  positions : Array (Option Nat)
  deriving Repr

namespace SourceOrder

/-- Records the places of tokens, counted from `start`; a token that occurs twice keeps its last place. -/
def record : Nat → List TokenId → Array (Option Nat) → Array (Option Nat)
  | _, [], places => places
  | start, t :: ts, places => record (start + 1) ts (places.setIfInBounds t (some start))

/-- The order that a token list gives to a table of tokens. -/
def ofList (size : Nat) (list : List TokenId) : SourceOrder :=
  { positions := record 0 list (Array.replicate size none) }

/-- The place of a token in the list. -/
def position? (o : SourceOrder) (t : TokenId) : Option Nat :=
  o.positions.getD t none

end SourceOrder

/-- A configuration together with the order of its tokens. -/
structure Source where
  config : Configuration
  order : SourceOrder

/-- A configuration with its tokens ordered by its token list. -/
def Configuration.source (c : Configuration) : Source :=
  { config := c, order := SourceOrder.ofList c.tokens.size c.tokenList }

namespace Source

/-- Where a token stands in source order. -/
def key (s : Source) (t : TokenId) : Except Fault OrderKey :=
  match s.order.position? t with
  | some p => .ok (.listed p)
  | none => do
    let line ← (s.config.token t).line.value
    let column ← (s.config.token t).column.value
    pure (.loose line column)

end Source

namespace Configuration

/-- How many tokens of a table are not among the visited ones. -/
def unvisited (size : Nat) (visited : Std.HashSet TokenId) : Nat :=
  (List.range size).countP (fun t => !visited.contains t)

/-- Visiting one more token of a list leaves fewer unvisited ones. -/
theorem countP_insert_lt {l : List TokenId} {visited : Std.HashSet TokenId} {t : TokenId} (hmem : t ∈ l)
    (hnew : visited.contains t = false) :
    l.countP (fun u => !(visited.insert t).contains u) < l.countP (fun u => !visited.contains u) := by
  induction l with
  | nil => simp at hmem
  | cons a l ih =>
    have hle : l.countP (fun u => !(visited.insert t).contains u) ≤ l.countP (fun u => !visited.contains u) := by
      apply List.countP_mono_left
      intro x _ hx
      rw [Std.HashSet.contains_insert] at hx
      simp only [Bool.not_or, Bool.and_eq_true] at hx
      exact hx.2
    by_cases hat : a = t
    · subst hat
      rw [List.countP_cons_of_neg (by simp), List.countP_cons_of_pos (p := fun u => !visited.contains u) (by simp [hnew])]
      omega
    · have hl : t ∈ l := by
        rcases List.mem_cons.1 hmem with h | h
        · exact absurd h.symm hat
        · exact h
      have := ih hl
      have hsame : (visited.insert t).contains a = visited.contains a := by
        rw [Std.HashSet.contains_insert]
        simp [Ne.symm hat]
      simp only [List.countP_cons, hsame]
      omega

/-- The operands of a token, the second one first. -/
def operandStack (t : Token) : List TokenId :=
  t.operand2.toList ++ t.operand1.toList

/-- What a visited token adds to the tokens covered: itself and, for an opening bracket, its matching one. -/
def coveredBy (c : Configuration) (t : TokenId) : List TokenId :=
  t :: if (c.token t).isOpeningBracket then (c.token t).link.toList else []

/-- Visits the pending tokens, and what is reachable from them, that are not visited yet; returns the tokens covered in the order
of the visits. -/
def visit (c : Configuration) (pending : List TokenId) (visited : Std.HashSet TokenId) : List TokenId :=
  match pending with
  | [] => []
  | t :: rest =>
    if visited.contains t then visit c rest visited
    else c.coveredBy t ++ visit c (operandStack (c.token t) ++ rest) (visited.insert t)
  termination_by (unvisited c.tokens.size visited, pending.length)
  decreasing_by
    · exact Prod.Lex.right _ (by simp)
    · by_cases ht : t < c.tokens.size
      · exact Prod.Lex.left _ _ (countP_insert_lt (List.mem_range.2 ht) (Bool.eq_false_iff.2 ‹_›))
      · have hblank : c.token t = {} := token_of_size_le (Nat.le_of_not_lt ht)
        have hsame : unvisited c.tokens.size (visited.insert t) = unvisited c.tokens.size visited := by
          apply List.countP_congr
          intro u hu
          have : t ≠ u := fun h => ht (h ▸ List.mem_range.1 hu)
          rw [Std.HashSet.contains_insert]
          simp [this]
        rw [hsame, hblank]
        exact Prod.Lex.right _ (by simp [operandStack])

/-- The tokens that a token covers, in the order of the visits. -/
def covered (c : Configuration) (root : TokenId) : List TokenId :=
  c.visit [root] {}

end Configuration

/-- The first and the last token of a piece of source. -/
structure Extent where
  first : TokenId
  last : TokenId
  deriving DecidableEq, Repr

/-- The earliest of some tokens with their places; of several at one place the one that is met first. -/
def earliest (start : TokenId × OrderKey) (more : List (TokenId × OrderKey)) : TokenId × OrderKey :=
  more.foldl (fun best x => if x.2.before best.2 then x else best) start

/-- The latest of some tokens with their places; of several at one place the one that is met first. -/
def latest (start : TokenId × OrderKey) (more : List (TokenId × OrderKey)) : TokenId × OrderKey :=
  more.foldl (fun best x => if best.2.before x.2 then x else best) start

namespace Source

/-- Tokens with their places in source order. -/
def keyed (s : Source) : List TokenId → Except Fault (List (TokenId × OrderKey))
  | [] => .ok []
  | t :: ts => do
    let k ← s.key t
    let more ← keyed s ts
    pure ((t, k) :: more)

/-- The extent of the subtree of a token; a missing token has none. -/
def extent (s : Source) : Option TokenId → Except Fault Extent
  | none => .error .nothingToSpan
  | some root => do
    match ← s.keyed (s.config.covered root) with
    | [] => .error .nothingToSpan
    | k :: more => pure { first := (earliest k more).1, last := (latest k more).1 }

end Source

end FormatAudit
