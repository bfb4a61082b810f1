import FormatAudit.Expression.Basic

/-!
# Culprits

The nodes to blame for an expression that is not constant, as a set that remembers the order in which its members came. Members
are told apart by the identity of the node. Adding a member again leaves it where it is; a member that is discarded and added
again goes to the end.
-/

namespace FormatAudit

/-- A set of nodes in the order in which they were added. -/
structure Culprits where
  members : List Expression := []
  deriving Repr, Inhabited

namespace Culprits

/-- Whether a node is a member. -/
def has (cs : Culprits) (e : Expression) : Bool :=
  cs.members.any (fun m => m.id == e.id)

/-- Adds a node at the end, unless it is a member. -/
def add (cs : Culprits) (e : Expression) : Culprits :=
  if cs.has e then cs else { members := cs.members ++ [e] }

/-- Takes a node out. -/
def discard (cs : Culprits) (e : Expression) : Culprits :=
  { members := cs.members.filter (fun m => m.id != e.id) }

/-- Takes several nodes out. -/
def discardAll (cs : Culprits) (es : List Expression) : Culprits :=
  es.foldl discard cs

/-- The members by source location; members at one location stay in the order in which they were added. -/
def bySource (cs : Culprits) : List Expression :=
  cs.members.mergeSort (fun a b => a.location.le b.location)

end Culprits

end FormatAudit
