import Mathlib

/-!
# A reader of JSON

The other side of every statement about JSON output: which value a text stands for by the grammar of JSON alone, for any value
and not only for those that are written here. A text is cut into lexemes, and the lexemes are read as one value. Nothing may be
left over, a control character may not stand in a string, and an escape may not leave half of a surrogate pair behind.
-/

namespace FormatAudit

/-- A JSON value. A number is `digits * 10 ^ exponent`; the fields of an object are in the order of the text. -/
inductive Json where
  | null
  | bool (b : Bool)
  | number (digits exponent : Int)
  | text (s : String)
  | array (items : List Json)
  | object (fields : List (String × Json))

namespace Json

/-! ## Strings -/

/-- The value of a digit in base sixteen, in either case. -/
def hexValue? (c : Char) : Option Nat :=
  if '0' ≤ c ∧ c ≤ '9' then some (c.toNat - '0'.toNat)
  else if 'a' ≤ c ∧ c ≤ 'f' then some (c.toNat - 'a'.toNat + 10)
  else if 'A' ≤ c ∧ c ≤ 'F' then some (c.toNat - 'A'.toNat + 10)
  else none

/-- The UTF-16 unit that four digits stand for. -/
def hexUnit? (a b c d : Char) : Option Nat := do
  let a ← hexValue? a
  let b ← hexValue? b
  let c ← hexValue? c
  let d ← hexValue? d
  pure (((a * 16 + b) * 16 + c) * 16 + d)

/-- What a backslash with this letter stands for. -/
def shortEscape? (c : Char) : Option Char :=
  if c = '"' ∨ c = '\\' ∨ c = '/' then some c
  else if c = 'b' then some '\x08'
  else if c = 'f' then some '\x0c'
  else if c = 'n' then some '\n'
  else if c = 'r' then some '\r'
  else if c = 't' then some '\t'
  else none

/-- Puts units in front of those that are read. -/
def prepend (ns : List Nat) (read : List Nat × List Char) : List Nat × List Char :=
  (ns ++ read.1, read.2)

/-- The units up to the closing quote, and what follows it. A character that stands for itself is one unit. -/
def units : List Char → Option (List Nat × List Char)
  | [] => none
  | '"' :: rest => some ([], rest)
  | '\\' :: 'u' :: a :: b :: c :: d :: rest => (hexUnit? a b c d).bind fun n => (units rest).map (prepend [n])
  | '\\' :: e :: rest => (shortEscape? e).bind fun c => (units rest).map (prepend [c.toNat])
  | c :: rest => if c = '\\' ∨ c.toNat < 0x20 then none else (units rest).map (prepend [c.toNat])

/-- The text of units: a high surrogate and the low one after it make one character. -/
def ofUnits : List Nat → Option (List Char)
  | [] => some []
  | n :: ns =>
    if 0xD800 ≤ n ∧ n < 0xDC00 then
      match ns with
      | [] => none
      | m :: ms =>
        if 0xDC00 ≤ m ∧ m < 0xE000 then
          (ofUnits ms).map (Char.ofNat (0x10000 + (n - 0xD800) * 0x400 + (m - 0xDC00)) :: ·)
        else none
    else if 0xDC00 ≤ n ∧ n < 0xE000 then none
    else (ofUnits ns).map (Char.ofNat n :: ·)

/-- The string after an opening quote, and what follows it. -/
def readText (cs : List Char) : Option (String × List Char) :=
  (units cs).bind fun read => (ofUnits read.1).map fun s => (String.ofList s, read.2)

/-! ## Numbers and words -/

/-- The number that a text of digits stands for. -/
def natural? (ds : List Char) : Option Nat :=
  if ds ≠ [] ∧ ds.all Char.isDigit then some (Nat.ofDigitChars 10 ds 0) else none

/-- The digits of a fraction, and what follows them. -/
def fraction? : List Char → Option (List Char × List Char)
  | '.' :: w =>
    if w.takeWhile Char.isDigit = [] then none else some (w.takeWhile Char.isDigit, w.dropWhile Char.isDigit)
  | w => some ([], w)

/-- The exponent at the end of a number. -/
def exponent? : List Char → Option Int
  | [] => some 0
  | e :: w =>
    if e = 'e' ∨ e = 'E' then
      match w with
      | '-' :: ds => (natural? ds).map fun n => -(n : Int)
      | '+' :: ds => (natural? ds).map fun n => (n : Int)
      | ds => (natural? ds).map fun n => (n : Int)
    else none

/-- A number without its sign: digits without leading zeros, a fraction, an exponent. -/
def unsigned? (w : List Char) : Option (Nat × Int) :=
  let whole := w.takeWhile Char.isDigit
  if whole = [] ∨ (whole.head? = some '0' ∧ whole ≠ ['0']) then none
  else
    (fraction? (w.dropWhile Char.isDigit)).bind fun (fraction, w) =>
      (exponent? w).map fun exponent => (Nat.ofDigitChars 10 (whole ++ fraction) 0, exponent - fraction.length)

/-- A number. -/
def number? : List Char → Option Json
  | '-' :: w => (unsigned? w).map fun (n, exponent) => .number (-n) exponent
  | w => (unsigned? w).map fun (n, exponent) => .number n exponent

/-- The value that a run of letters, digits, signs and points stands for. -/
def word? (w : List Char) : Option Json :=
  if w = ['n', 'u', 'l', 'l'] then some .null
  else if w = ['t', 'r', 'u', 'e'] then some (.bool true)
  else if w = ['f', 'a', 'l', 's', 'e'] then some (.bool false)
  else number? w

/-! ## Lexemes -/

/-- A piece of a text. -/
inductive Lexeme where
  | arrayOpen
  | arrayClose
  | objectOpen
  | objectClose
  | comma
  | colon
  | text (s : String)
  | word (v : Json)

/-- The marks that are lexemes of their own. -/
def mark? (c : Char) : Option Lexeme :=
  if c = '[' then some .arrayOpen
  else if c = ']' then some .arrayClose
  else if c = '\x7b' then some .objectOpen
  else if c = '\x7d' then some .objectClose
  else if c = ',' then some .comma
  else if c = ':' then some .colon
  else none

def isBlank (c : Char) : Bool :=
  c == ' ' || c == '\t' || c == '\n' || c == '\r'

def isWordChar (c : Char) : Bool :=
  c.isAlphanum || c == '-' || c == '+' || c == '.'

theorem length_of_prepend {cs rest : List Char} {ns ms : List Nat}
    (ih : ∀ {ms : List Nat}, units cs = some (ms, rest) → rest.length < cs.length)
    (h : (units cs).map (prepend ns) = some (ms, rest)) : rest.length < cs.length := by
  obtain ⟨⟨ms', rest'⟩, hunits, heq⟩ := Option.map_eq_some_iff.mp h
  cases heq
  exact ih hunits

/-- Reading code units takes characters away. -/
theorem length_of_units {cs rest : List Char} {ns : List Nat} (h : units cs = some (ns, rest)) :
    rest.length < cs.length := by
  induction cs using units.induct generalizing ns with
  | case1 => cases h
  | case2 =>
    cases h
    simp
  | case3 a b c d tail ih =>
    obtain ⟨n, -, h⟩ := Option.bind_eq_some_iff.mp h
    have := length_of_prepend ih h
    simp only [List.length_cons]
    omega
  | case4 e tail hunit ih =>
    rw [units.eq_4 e tail hunit] at h
    obtain ⟨c, -, h⟩ := Option.bind_eq_some_iff.mp h
    have := length_of_prepend ih h
    simp only [List.length_cons]
    omega
  | case5 c tail hquote hunit hescape hrefused =>
    rw [units.eq_5 c tail hquote hunit hescape, if_pos hrefused] at h
    cases h
  | case6 c tail hquote hunit hescape hallowed ih =>
    rw [units.eq_5 c tail hquote hunit hescape, if_neg hallowed] at h
    have := length_of_prepend ih h
    simp only [List.length_cons]
    omega

/-- Reading a string takes characters away. -/
theorem length_of_readText {cs rest : List Char} {s : String} (h : readText cs = some (s, rest)) :
    rest.length < cs.length := by
  unfold readText at h
  obtain ⟨⟨ns, rest'⟩, hunits, hread⟩ := Option.bind_eq_some_iff.mp h
  obtain ⟨t, -, heq⟩ := Option.map_eq_some_iff.mp hread
  cases heq
  exact length_of_units hunits

/-- The lexemes of a text. -/
def lexemes : List Char → Option (List Lexeme)
  | [] => some []
  | c :: cs =>
    if isBlank c then lexemes cs
    else
      match mark? c with
      | some mark => (lexemes cs).map (mark :: ·)
      | none =>
        if c = '"' then
          match _h : readText cs with
          | some (s, rest) => (lexemes rest).map (.text s :: ·)
          | none => none
        else
          -- a character that begins no word fails here
          (word? (c :: cs.takeWhile isWordChar)).bind fun v =>
            (lexemes (cs.dropWhile isWordChar)).map (.word v :: ·)
termination_by cs => cs.length
decreasing_by
  · simp
  · simp
  · have := length_of_readText _h
    simp only [List.length_cons]
    omega
  · have : (cs.dropWhile isWordChar).length ≤ cs.length := (List.dropWhile_suffix isWordChar).length_le
    simp only [List.length_cons]
    omega

theorem lexemes_blank {c : Char} (h : isBlank c = true) (cs : List Char) : lexemes (c :: cs) = lexemes cs := by
  rw [lexemes, if_pos h]

theorem lexemes_mark {c : Char} {mark : Lexeme} (hblank : isBlank c = false) (h : mark? c = some mark) (cs : List Char) :
    lexemes (c :: cs) = (lexemes cs).map (mark :: ·) := by
  rw [lexemes, if_neg (by simp [hblank]), h]

theorem lexemes_text {cs rest : List Char} {s : String} (h : readText cs = some (s, rest)) :
    lexemes ('"' :: cs) = (lexemes rest).map (.text s :: ·) := by
  rw [lexemes, if_neg (by decide), show mark? '"' = none from rfl]
  simp only [↓reduceIte]
  split
  · next s' rest' h' =>
    rw [h] at h'
    cases h'
    rfl
  · next h' =>
    rw [h] at h'
    cases h'

/-- A character of a word is no blank, no mark and no quote. -/
theorem starts_word {c : Char} (h : isWordChar c = true) : isBlank c = false ∧ mark? c = none ∧ c ≠ '"' := by
  have hne : ∀ d, isWordChar d = false → c ≠ d := by
    rintro d hd rfl
    rw [hd] at h
    cases h
  refine ⟨?_, ?_, hne '"' rfl⟩
  · simp [isBlank, hne ' ' rfl, hne '\t' rfl, hne '\n' rfl, hne '\r' rfl]
  · simp [mark?, hne '[' rfl, hne ']' rfl, hne '\x7b' rfl, hne '\x7d' rfl, hne ',' rfl, hne ':' rfl]

/-- A word that stands for a value is read as far as it goes. -/
theorem lexemes_word {w rest : List Char} {v : Json} (hword : ∀ c ∈ w, isWordChar c = true) (h : word? w = some v)
    (hend : rest.takeWhile isWordChar = []) : lexemes (w ++ rest) = (lexemes rest).map (.word v :: ·) := by
  cases w with
  | nil => cases h
  | cons c w =>
    obtain ⟨hc, hw⟩ := List.forall_mem_cons.1 hword
    obtain ⟨hblank, hmark, hquote⟩ := starts_word hc
    have htake : (w ++ rest).takeWhile isWordChar = w := by
      rw [List.takeWhile_append_of_pos hw, hend, List.append_nil]
    have hdrop : (w ++ rest).dropWhile isWordChar = rest := by
      have hrest := List.takeWhile_append_dropWhile (p := isWordChar) (l := rest)
      rwa [hend, List.nil_append, ← List.dropWhile_append_of_pos hw] at hrest
    rw [List.cons_append, lexemes, if_neg (by simp [hblank]), hmark]
    simp only [if_neg hquote, htake, hdrop, h, Option.bind_some]

/-! ## Values -/

/-- An array or object that is not closed yet. Its items or fields so far are in reverse; an object has read the name of the
next field. -/
inductive Container where
  | array (items : List Json)
  | object (fields : List (String × Json)) (name : String)

mutual

/-- Reads a value inside the open containers, from the innermost on, and what follows it. -/
def readValue (around : List Container) : List Lexeme → Option Json
  | .text s :: rest => readAfter around (.text s) rest
  | .word v :: rest => readAfter around v rest
  | .arrayOpen :: .arrayClose :: rest => readAfter around (.array []) rest
  | .arrayOpen :: rest => readValue (.array [] :: around) rest
  | .objectOpen :: .objectClose :: rest => readAfter around (.object []) rest
  | .objectOpen :: .text name :: .colon :: rest => readValue (.object [] name :: around) rest
  | _ => none

/-- Reads what follows the value `v`. -/
def readAfter : List Container → Json → List Lexeme → Option Json
  | [], v, [] => some v
  | .array items :: around, v, .arrayClose :: rest => readAfter around (.array (v :: items).reverse) rest
  | .array items :: around, v, .comma :: rest => readValue (.array (v :: items) :: around) rest
  | .object fields name :: around, v, .objectClose :: rest =>
    readAfter around (.object ((name, v) :: fields).reverse) rest
  | .object fields name :: around, v, .comma :: .text next :: .colon :: rest =>
    readValue (.object ((name, v) :: fields) next :: around) rest
  | _, _, _ => none

end

/-- The value that a text stands for. -/
def read (s : String) : Option Json :=
  (lexemes s.toList).bind (readValue [])

example : read "[-25.0e-1, [], true]" = some (.array [.number (-250) (-2), .array [], .bool true]) := by cbv

example : read "[1,]" = none ∧ read "[01]" = none ∧ read "\"\\ud83d\"" = none := by cbv

end Json

end FormatAudit
