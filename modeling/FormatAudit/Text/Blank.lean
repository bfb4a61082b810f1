/-!
# White space

Two classes of blank characters. `isBlank` is the class that trimming removes: every space, line and paragraph separator of
Unicode, the control characters that act as separators included. `isNumeralBlank` is the class that may surround a numeral; it
lacks the four information separators.
-/

namespace FormatAudit.Text

/-- Whether trimming removes a character at the end of a text. -/
def isBlank (c : Char) : Bool :=
  let n := c.toNat
  (9 ≤ n && n ≤ 13) || (28 ≤ n && n ≤ 32) || n == 0x85 || n == 0xA0 || n == 0x1680 || (0x2000 ≤ n && n ≤ 0x200A) ||
    n == 0x2028 || n == 0x2029 || n == 0x202F || n == 0x205F || n == 0x3000

/-- Whether a character may stand before or after a numeral: any blank but the information separators. -/
def isNumeralBlank (c : Char) : Bool :=
  isBlank c && !(28 ≤ c.toNat && c.toNat ≤ 31)

/-- The characters from the first to the last that is not blank. -/
def trimChars (cs : List Char) : List Char :=
  ((cs.dropWhile isBlank).reverse.dropWhile isBlank).reverse

/-- The text without blanks at its ends. -/
def trim (s : String) : String :=
  String.ofList (trimChars s.toList)

@[simp]
theorem trimChars_nil : trimChars [] = [] := rfl

/-- Trimming a text trims its characters. -/
@[simp]
theorem toList_trim (s : String) : (trim s).toList = trimChars s.toList := by
  simp [trim]

end FormatAudit.Text
