/-!
# Paths

A path is kept as its parts: empty parts and single dots vanish, so doubled and trailing slashes do too, while `..` stays. A path
without parts is the current directory.
-/

namespace FormatAudit.CommandLine

/-- A path: what it starts with (nothing, one slash or two) and its parts. -/
structure Path where
  root : String := ""
  parts : List String := []
  deriving DecidableEq, Repr, Inhabited

namespace Path

/-- Splits a text at every slash. -/
def splitSlashes : List Char → List (List Char)
  | [] => [[]]
  | c :: cs =>
    if c = '/' then [] :: splitSlashes cs
    else
      match splitSlashes cs with
      | [] => [[c]]
      | piece :: pieces => (c :: piece) :: pieces

/-- What a path starts with: exactly two slashes stay two, any other number counts as one. -/
def rootOf (cs : List Char) : String :=
  match (cs.takeWhile (· == '/')).length with
  | 0 => ""
  | 2 => "//"
  | _ => "/"

/-- The path of a text. -/
def ofText (s : String) : Path :=
  { root := rootOf s.toList
    parts := ((splitSlashes s.toList).map String.ofList).filter (fun p => p ≠ "" && p ≠ ".") }

/-- The text of a path. -/
def text (p : Path) : String :=
  if p.root = "" && p.parts.isEmpty then "." else p.root ++ "/".intercalate p.parts

/-- The most bytes that a part of a path may have. -/
def partLimit : Nat := 255

/-- The least number of bytes that a path may not have. -/
def lengthLimit : Nat := 4096

/-- Whether a path has more bytes than any path may have. -/
def isTooLong (p : Path) : Bool :=
  decide (lengthLimit ≤ p.text.utf8ByteSize)

/-- Whether a text holds a character that no path may hold. -/
def hasNul (s : String) : Bool :=
  s.toList.contains (Char.ofNat 0)

/-- The first part of a path that names a home directory. -/
def homePart? (p : Path) : Option String :=
  match p.root, p.parts with
  | "", part :: _ => if part.toList.head? = some '~' then some part else none
  | _, _ => none

end Path

end FormatAudit.CommandLine
