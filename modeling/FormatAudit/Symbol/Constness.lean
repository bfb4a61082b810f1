import FormatAudit.Symbol.Basic
import FormatAudit.Token.Range

/-!
# Declared constants

A variable counts as a constant only if it can be neither assigned nor made to point elsewhere: `constexpr`, a constant array, or
a pointer that is `const` at every level. A parameter never counts, since it holds what the caller passed.

Where the dump gives the type of the value, the answer is a test of its bits. Otherwise the words of the declared type are
searched.
-/

namespace FormatAudit

/-- The words of the declared type of a variable. -/
def Configuration.declaredWords (c : Configuration) (v : VariableDecl) : List String :=
  match v.typeStart with
  | none => []
  | some start => (c.range (some start) (some (v.typeStop.getD start))).map (fun t => (c.token t).text)

/-- The name of the type of a variable: as recorded with its value, else the first word of the declared type. -/
def Configuration.typeName (c : Configuration) (v : VariableDecl) : String :=
  let recorded := match (c.look v.nameToken).valueType with
    | some vt => vt.writtenType
    | none => ""
  if recorded = "" then (c.look v.typeStart).text else recorded

/-- Whether a variable is a list of variable arguments. -/
def Configuration.isArgumentList (c : Configuration) (v : VariableDecl) : Bool :=
  argumentListTypes.contains (c.typeName v)

/-- Whether the lowest `count` bits of a number are all set, that is, whether the next number is divisible by the power of two.
Minus one has all bits set; any other number is followed by one that is not divisible by a larger power. -/
def lowBitsSet (n : Int) (count : Nat) : Bool :=
  if n = -1 then true
  else if count ≤ (n + 1).natAbs.log2 then (n + 1) % (Nat.pow 2 count : Nat) == 0
  else false

/-- The number of words of thirty bits that hold a mask of `count` bits and the bit above it. -/
def maskWords (count : Nat) : Nat :=
  1 + count / 30 + (if count % 30 = 0 then 0 else 1)

/-- Whether a value is constant at each of its pointer levels and at the data pointed to: bits `0` to `depth` are all set. The
mask for these bits has to exist and to fit into a memory of the given size, even where the answer does not depend on it. -/
def constAtEveryLevel (memory : Nat) (constness depth : Int) : Except Fault Bool :=
  if depth < -1 then .error .negativeShift
  else
    let count := (depth + 1).toNat
    if wordLimit < maskWords count then .error .tooManyLevels
    else if memory < maskWords count then .error .outOfMemory
    else .ok (lowBitsSet constness count)

/-- The words before the last star. -/
def beforeLastStar (words : List String) : List String :=
  ((words.reverse.dropWhile (· != "*")).drop 1).reverse

/-- The words after the last star. -/
def afterLastStar (words : List String) : List String :=
  (words.reverse.takeWhile (· != "*")).reverse

/-- Whether the words of a pointer type have `const` on both sides of the last star. -/
def constAroundLastStar (words : List String) : Bool :=
  words.contains "*" && (beforeLastStar words).contains "const" && (afterLastStar words).contains "const"

/-- Whether a variable is constant by the type recorded for its value. -/
def VariableDecl.isConstantByValueType (v : VariableDecl) (memory : Nat) (vt : ValueType) : Except Fault Bool := do
  let constness ← vt.constness.value
  let depth ← vt.pointer.value
  if v.isArray then pure (constness % 2 == 1)
  else if depth ≠ 0 then constAtEveryLevel memory constness depth
  else pure v.isConst

/-- Whether a variable is constant by the words of its declared type. -/
def VariableDecl.isConstantByWords (v : VariableDecl) (words : List String) : Bool :=
  if v.isPointer then constAroundLastStar words
  else if v.isArray then words.contains "const"
  else v.isConst

/-- Whether a variable holds text that is fixed when the program is compiled. -/
def Configuration.isFixed (c : Configuration) (v : VariableDecl) : Except Fault Bool :=
  if v.isArgument then .ok false
  else if (c.declaredWords v).contains "constexpr" then .ok true
  else
    match (c.look v.nameToken).valueType with
    | some vt => v.isConstantByValueType c.memory vt
    | none => .ok (v.isConstantByWords (c.declaredWords v))

end FormatAudit
