import FormatAudit.Number.Decimal
import FormatAudit.Number.Whole

/-!
# Binary64 numbers: reading and writing

An atom of a settings file that is not a whole number but looks like a decimal number is read as a binary64 number, and messages
show that number by the fewest digits that read back to it. Both directions are exact integer arithmetic: a finite number is
kept as `mantissa * 2 ^ scale`, with a mantissa below `2 ^ 53` and a scale of at least `-1074`.
-/

namespace FormatAudit.Number

/-- A binary64 number. -/
inductive Real where
  | nan
  | infinite (negative : Bool)
  | finite (negative : Bool) (mantissa : Nat) (scale : Int)
  deriving DecidableEq, Repr

namespace Real

/-- The least scale. -/
def minScale : Int := -1074

/-- The greatest scale. -/
def maxScale : Int := 971

/-- The quotient rounded to the nearest whole number, a tie to the even one. -/
def roundDiv (num den : Nat) : Nat :=
  let q := num / den
  let r := num % den
  if den < 2 * r then q + 1
  else if 2 * r = den then q + q % 2
  else q

/-- `base ^ e` for a non-negative exponent, else one. -/
def powIf (base : Nat) (e : Int) : Nat :=
  base.pow e.toNat

/-- The nearest number to `num / den`, where both are positive. -/
def ofRatio (negative : Bool) (num den : Nat) : Real :=
  let guess : Int := (num.log2 : Int) - (den.log2 : Int) - 53
  let scale : Int := max guess minScale
  -- the quotient at this scale is below `2 ^ 55`; two steps bring it below `2 ^ 53`
  let mantissaAt (q : Int) : Nat := roundDiv (num * powIf 2 (-q)) (den * powIf 2 q)
  let fits (q : Int) : Bool := num * powIf 2 (-q) < Nat.pow 2 53 * (den * powIf 2 q)
  let q := if fits scale then scale else if fits (scale + 1) then scale + 1 else scale + 2
  let m := mantissaAt q
  let (m, q) := if m = Nat.pow 2 53 then (Nat.pow 2 52, q + 1) else (m, q)
  if maxScale < q then .infinite negative else .finite negative m q

/-- The nearest number to `digits * 10 ^ exponent`. Exponents far out of range are settled by size alone. -/
def ofDecimal (negative : Bool) (digits : Nat) (exponent : Int) : Real :=
  let size : Int := (natChars digits).length + exponent
  if digits = 0 then .finite negative 0 minScale
  else if 400 < size then .infinite negative
  else if size < -400 then .finite negative 0 minScale
  else ofRatio negative (digits * powIf 10 exponent) (powIf 10 (-exponent))

/-! ## Reading -/

/-- The digits of any script as plain digits, and underscores between two digits left out; `none` when an underscore stands
anywhere else. The flag says whether the previous character was a digit, an underscore or neither. -/
def plainChars : Char → List Char → Option (List Char)
  | previous, [] => if previous = '_' then none else some []
  | previous, c :: cs =>
    if c = '_' then
      if previous.isDigit then plainChars '_' cs else none
    else
      let plain := match Text.digitValue? c with
        | some d => Nat.digitChar d
        | none => c
      if previous = '_' && !plain.isDigit then none
      else (plainChars plain cs).map (plain :: ·)

/-- Splits off the digits at the front. -/
def spanDigits (cs : List Char) : List Char × List Char :=
  (cs.takeWhile Char.isDigit, cs.dropWhile Char.isDigit)

/-- The number that plain decimal digits spell. -/
def spell (ds : List Char) : Nat :=
  ds.foldl (fun n c => 10 * n + (c.toNat - 48)) 0

/-- An exponent mark with its number, if that is all there is. -/
def exponent? : List Char → Option Int
  | [] => some 0
  | mark :: cs =>
    if mark = 'e' || mark = 'E' then
      let (negative, body) := takeSign cs
      if !body.isEmpty && body.all Char.isDigit then some (signed negative (spell body)) else none
    else none

/-- A decimal number without sign. -/
def unsigned? (negative : Bool) (cs : List Char) : Option Real :=
  let (whole, rest) := spanDigits cs
  let (fraction, rest) := match rest with
    | '.' :: r => spanDigits r
    | r => ([], r)
  if whole.isEmpty && fraction.isEmpty then none
  else (exponent? rest).map (fun e => ofDecimal negative (spell (whole ++ fraction)) (e - fraction.length))

/-- Reads a binary64 number: blanks around it, a sign, then a decimal number or one of the names for not-a-number and
infinity. -/
def read? (s : String) : Option Real :=
  let body := ((s.toList.dropWhile Text.isNumeralBlank).reverse.dropWhile Text.isNumeralBlank).reverse
  (plainChars ' ' body).bind fun cs =>
    let (negative, body) := takeSign cs
    let name := String.ofList (body.map Char.toLower)
    if name = "nan" then some .nan
    else if name = "inf" || name = "infinity" then some (.infinite negative)
    else unsigned? negative body

/-! ## Writing -/

/-- Whether `digits * 10 ^ place` is less than `n * 2 ^ scale`. -/
def decimalLt (digits : Nat) (place : Int) (n : Nat) (scale : Int) : Bool :=
  digits * powIf 10 place * powIf 2 (-scale) < n * powIf 2 scale * powIf 10 (-place)

/-- Whether `digits * 10 ^ place` is greater than `n * 2 ^ scale`. -/
def decimalGt (digits : Nat) (place : Int) (n : Nat) (scale : Int) : Bool :=
  n * powIf 2 scale * powIf 10 (-place) < digits * powIf 10 place * powIf 2 (-scale)

/-- The decimal exponent of the highest digit of `mantissa * 2 ^ scale`. -/
def decimalExponent (mantissa : Nat) (scale : Int) : Int :=
  let guess := Int.fdiv (((mantissa.log2 : Int) + scale) * 30103) 100000
  if decimalGt 1 guess mantissa scale then guess - 1
  else if decimalGt 1 (guess + 1) mantissa scale then guess
  else guess + 1

/-- Whether `digits * 10 ^ place` reads back as `mantissa * 2 ^ scale`: it lies between the midpoints to the neighbours, which
belong to the number when its mantissa is even. Quarter units keep the midpoints whole. -/
def readsBack (mantissa : Nat) (scale : Int) (digits : Nat) (place : Int) : Bool :=
  let below := if mantissa = Nat.pow 2 52 && minScale < scale then 4 * mantissa - 1 else 4 * mantissa - 2
  let above := 4 * mantissa + 2
  if mantissa % 2 = 0 then !decimalLt digits place below (scale - 2) && !decimalGt digits place above (scale - 2)
  else decimalGt digits place below (scale - 2) && decimalLt digits place above (scale - 2)

/-- The neighbours of the number on the grid of multiples of `10 ^ place`, the nearer one first. -/
def gridNeighbours (mantissa : Nat) (scale place : Int) : Nat × Nat :=
  let num := mantissa * powIf 2 scale * powIf 10 (-place)
  let den := powIf 10 place * powIf 2 (-scale)
  let low := num / den
  if roundDiv num den = low then (low, low + 1) else (low + 1, low)

/-- The fewest digits, at most `count` more places than already tried, that read back; `place` is the place of the last digit. -/
def shortestFrom (mantissa : Nat) (scale : Int) : Nat → Int → Nat × Int
  | 0, place => ((gridNeighbours mantissa scale place).1, place)
  | count + 1, place =>
    let (near, far) := gridNeighbours mantissa scale place
    if readsBack mantissa scale near place then (near, place)
    else if readsBack mantissa scale far place then (far, place)
    else shortestFrom mantissa scale count (place - 1)

/-- Digits with the trailing zeros taken off, and the place of the last one left. -/
def dropZeros : Nat → Nat × Int → Nat × Int
  | 0, r => r
  | fuel + 1, (digits, place) =>
    if digits ≠ 0 && digits % 10 = 0 then dropZeros fuel (digits / 10, place + 1) else (digits, place)

/-- The text of a positive number with the given digits and place of the last digit: positional from `0.0001` up to sixteen
digits before the point, else with an exponent of at least two digits. -/
def positional (digits : Nat) (place : Int) : String :=
  let ds := natChars digits
  let point : Int := ds.length + place
  if -4 < point && point ≤ 16 then
    if point ≤ 0 then String.ofList ('0' :: '.' :: List.replicate (-point).toNat '0' ++ ds)
    else if (ds.length : Int) ≤ point then
      String.ofList (ds ++ List.replicate (point - ds.length).toNat '0' ++ ['.', '0'])
    else String.ofList (ds.take point.toNat ++ '.' :: ds.drop point.toNat)
  else
    let e := point - 1
    let sign := if e < 0 then '-' else '+'
    let es := natChars e.natAbs
    let es := if es.length < 2 then '0' :: es else es
    let lead := match ds with
      | [] => []
      | d :: [] => [d]
      | d :: more => d :: '.' :: more
    String.ofList (lead ++ 'e' :: sign :: es)

/-- The text of a number: the fewest digits that read back. -/
def text : Real → String
  | .nan => "nan"
  | .infinite negative => if negative then "-inf" else "inf"
  | .finite negative mantissa scale =>
    let sign := if negative then "-" else ""
    if mantissa = 0 then sign ++ "0.0"
    else
      let (digits, place) := dropZeros 20 (shortestFrom mantissa scale 16 (decimalExponent mantissa scale))
      sign ++ positional digits place

end Real

end FormatAudit.Number
