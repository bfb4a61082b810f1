/-!
# Wildcard patterns

Shell-style patterns over whole texts: `*` stands for any run of characters, `?` for any one character, a bracketed class for
one character of the class. Characters are compared by code point, and a path separator or a newline is a character like any
other.

A class may be negated by a leading `!`, holds single characters and ranges, and may have `]` as its first member. A range whose
ends are in the wrong order is dropped together with its ends. A bracket that is never closed is an ordinary character.
-/

namespace FormatAudit.Text.Glob

/-- What one position of a pattern asks of the text: any run, or one character of a class. -/
inductive Item where
  /-- Any run of characters, the empty one included. -/
  | run
  /-- One character, any at all. -/
  | any
  /-- One given character. -/
  | char (c : Char)
  /-- One character that is (or, negated, is not) among the singles or in one of the ranges. -/
  | oneOf (negated : Bool) (singles : List Char) (ranges : List (Char × Char))
  deriving DecidableEq, Repr

/-- Whether a character satisfies an item that asks for one character. -/
def Item.accepts : Item → Char → Bool
  | .run, _ => false
  | .any, _ => true
  | .char d, c => c == d
  | .oneOf negated singles ranges, c =>
    (singles.contains c || ranges.any (fun r => r.1.toNat ≤ c.toNat && c.toNat ≤ r.2.toNat)) != negated

/-- For each place of a list, whether some entry from there on is true. -/
def orFromHere : List Bool → List Bool
  | [] => []
  | b :: bs =>
    let rest := orFromHere bs
    (b || rest.headD false) :: rest

/-- For each suffix of a text, from the whole text to the empty one, whether it satisfies a sequence of items. An item is tried at
every suffix at once, so the work is the product of both lengths, however many runs a pattern has. -/
def suffixRow (cs : List Char) : List Item → List Bool
  | [] => List.replicate cs.length false ++ [true]
  | .run :: items => orFromHere (suffixRow cs items)
  | item :: items => List.zipWith (fun c later => item.accepts c && later) cs (suffixRow cs items).tail ++ [false]

/-- Whether a whole text satisfies a sequence of items. -/
def matchItems (items : List Item) (cs : List Char) : Bool :=
  (suffixRow cs items).headD false

/-- There is one answer for each place. -/
@[simp]
theorem length_orFromHere (bs : List Bool) : (orFromHere bs).length = bs.length := by
  induction bs with
  | nil => rfl
  | cons b bs ih => simp [orFromHere, ih]

/-- A row has an entry for each suffix. -/
theorem length_suffixRow (cs : List Char) (items : List Item) : (suffixRow cs items).length = cs.length + 1 := by
  induction items with
  | nil => simp [suffixRow]
  | cons item items ih =>
    cases item with
    | run => simp [suffixRow, ih]
    | _ => simp [suffixRow, ih]

/-- A row has a first entry, which is the answer for the whole text. -/
theorem suffixRow_eq_cons (cs : List Char) (items : List Item) :
    suffixRow cs items = matchItems items cs :: (suffixRow cs items).tail := by
  have hlen := length_suffixRow cs items
  unfold matchItems
  cases h : suffixRow cs items with
  | nil =>
    rw [h] at hlen
    simp at hlen
  | cons b bs => rfl

/-- Without its first entry, the row of a text is the row of the text without its first character. -/
theorem tail_suffixRow_cons (c : Char) (cs : List Char) (items : List Item) :
    (suffixRow (c :: cs) items).tail = suffixRow cs items := by
  induction items with
  | nil => rfl
  | cons item items ih =>
    have h := suffixRow_eq_cons (c :: cs) items
    rw [ih] at h
    cases item with
    | run =>
      simp only [suffixRow]
      rw [h]
      rfl
    | _ =>
      simp only [suffixRow]
      rw [ih, suffixRow_eq_cons cs items]
      rfl

/-- Without items only the empty text is left. -/
theorem matchItems_nil (cs : List Char) : matchItems [] cs = cs.isEmpty := by
  cases cs <;> rfl

/-- At the end of the text a run is empty. -/
theorem matchItems_run_nil (items : List Item) : matchItems (.run :: items) [] = matchItems items [] := by
  have hlen := length_suffixRow [] items
  rw [suffixRow_eq_cons, List.length_cons] at hlen
  have htail : (suffixRow [] items).tail = [] := List.eq_nil_of_length_eq_zero (Nat.succ.inj hlen)
  simp only [matchItems, suffixRow]
  rw [suffixRow_eq_cons [] items, htail]
  simp [orFromHere]

/-- A run is empty, or takes the first character and stays. -/
theorem matchItems_run_cons (items : List Item) (c : Char) (cs : List Char) :
    matchItems (.run :: items) (c :: cs) = (matchItems items (c :: cs) || matchItems (.run :: items) cs) := by
  simp only [matchItems, suffixRow]
  rw [suffixRow_eq_cons (c :: cs) items, tail_suffixRow_cons]
  rfl

/-- An item that asks for one character takes none from the empty text. -/
theorem matchItems_item_nil {item : Item} (h : item ≠ .run) (items : List Item) : matchItems (item :: items) [] = false := by
  cases item with
  | run => exact absurd rfl h
  | _ => rfl

/-- An item that asks for one character takes the first. -/
theorem matchItems_item_cons {item : Item} (h : item ≠ .run) (items : List Item) (c : Char) (cs : List Char) :
    matchItems (item :: items) (c :: cs) = (item.accepts c && matchItems items cs) := by
  cases item with
  | run => exact absurd rfl h
  | _ =>
    simp only [matchItems, suffixRow]
    rw [tail_suffixRow_cons, suffixRow_eq_cons cs items]
    rfl

/-- The inside of a class split at the hyphens that may form ranges: the first `skip` characters never do, nor do the two after
such a hyphen. `piece` holds the current piece in reverse. -/
def splitRanges : Nat → List Char → List Char → List (List Char)
  | _, piece, [] => [piece.reverse]
  | skip + 1, piece, c :: cs => splitRanges skip (c :: piece) cs
  | 0, piece, c :: cs => if c = '-' then piece.reverse :: splitRanges 2 [] cs else splitRanges 0 (c :: piece) cs

/-- A trailing hyphen is a member of the class: an empty last piece gives its hyphen back to the piece before it. -/
def keepTrailingHyphen : List (List Char) → List (List Char)
  | [piece, []] => [piece ++ ['-']]
  | piece :: pieces => piece :: keepTrailingHyphen pieces
  | [] => []

/-- Joins the pieces around every range whose ends are in the wrong order, without those ends, from the last to the first. -/
def dropEmptyRanges : List (List Char) → List (List Char)
  | [] => []
  | piece :: pieces =>
    match dropEmptyRanges pieces with
    | [] => [piece]
    | next :: rest =>
      match piece.getLast?, next.head? with
      | some lo, some hi =>
        if hi.toNat < lo.toNat then (piece.dropLast ++ next.tail) :: rest else piece :: next :: rest
      | _, _ => piece :: next :: rest

/-- The ranges between neighbouring pieces. -/
def rangesBetween : List (List Char) → List (Char × Char)
  | piece :: next :: rest =>
    match piece.getLast?, next.head? with
    | some lo, some hi => (lo, hi) :: rangesBetween (next :: rest)
    | _, _ => rangesBetween (next :: rest)
  | _ => []

/-- The item for the pieces of a class whose negation mark is already taken off. A piece that is empty with others after it
leaves its hyphen as a member. -/
def classOfPieces (negated : Bool) (pieces : List (List Char)) : Item :=
  match pieces with
  | [] :: next :: rest => .oneOf negated ('-' :: (next :: rest).flatten) (rangesBetween (next :: rest))
  | pieces => .oneOf negated pieces.flatten (rangesBetween pieces)

/-- The item for the inside of a class. -/
def classItem (inside : List Char) : Item :=
  let skip := if inside.head? = some '!' then 2 else 1
  match dropEmptyRanges (keepTrailingHyphen (splitRanges skip [] inside)) with
  | ('!' :: piece) :: pieces => classOfPieces true (piece :: pieces)
  | pieces => classOfPieces false pieces

/-- The characters up to the next closing bracket, `none` when there is none. -/
def untilBracket (cs : List Char) : Option (List Char) :=
  if cs.contains ']' then some (cs.takeWhile (· != ']')) else none

/-- The inside of a class, read just after its opening bracket; `none` when the class is never closed. A leading `!`, and a `]`
right after it or right at the start, belong to the inside. -/
def classInside? : List Char → Option (List Char)
  | '!' :: ']' :: cs => (untilBracket cs).map ('!' :: ']' :: ·)
  | '!' :: cs => (untilBracket cs).map ('!' :: ·)
  | ']' :: cs => (untilBracket cs).map (']' :: ·)
  | cs => untilBracket cs

/-- The items of a pattern, after leaving out its first `skip` characters. -/
def parseFrom : Nat → List Char → List Item
  | _, [] => []
  | skip + 1, _ :: cs => parseFrom skip cs
  | 0, c :: cs =>
    if c = '*' then .run :: parseFrom 0 cs
    else if c = '?' then .any :: parseFrom 0 cs
    else if c = '[' then
      match classInside? cs with
      | some inside => classItem inside :: parseFrom (inside.length + 1) cs
      | none => .char '[' :: parseFrom 0 cs
    else .char c :: parseFrom 0 cs

end Glob

/-- Whether a whole text matches a wildcard pattern. -/
def globMatches (text pattern : String) : Bool :=
  Glob.matchItems (Glob.parseFrom 0 pattern.toList) text.toList

end FormatAudit.Text
