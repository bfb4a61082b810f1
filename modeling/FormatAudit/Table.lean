/-!
# Tables

Finite maps as lists of pairs in the order in which the keys came. Putting a key again replaces its value and leaves its place.
-/

namespace FormatAudit

/-- A finite map; every key occurs once. -/
abbrev Table (κ α : Type) := List (κ × α)

namespace Table

variable {κ α : Type} [BEq κ]

/-- The value of a key. -/
def get? (t : Table κ α) (k : κ) : Option α :=
  t.lookup k

/-- The map with one more entry. -/
def put (k : κ) (a : α) : Table κ α → Table κ α
  | [] => [(k, a)]
  | (k', a') :: t => if k' == k then (k, a) :: t else (k', a') :: put k a t

/-- The map with the entries of a list put in one after the other. -/
def putAll (t : Table κ α) (entries : List (κ × α)) : Table κ α :=
  entries.foldl (fun t e => put e.1 e.2 t) t

/-- Whether two maps have the same entries, in whatever order. -/
def sameEntries [BEq α] (s t : Table κ α) : Bool :=
  s.length == t.length && s.all (fun e => get? t e.1 == some e.2)

end Table

end FormatAudit
