import Mathlib
import FormatAudit.Proofs.ExitStatus
import FormatAudit.Proofs.JsonReader
import FormatAudit.Proofs.Numerals

/-!
# Reading findings back

Every escape that `Finding.jsonChar` writes is undone by the reader of JSON (`units_jsonChar`, `ofUnits_unitsOf`), and so is every
whole number (`number?_intChars`). Both are stated with the rest of the text behind them, so a finding is read back field by field
(`lexemes_pairChars`, `read_jsonText`). What is written lies between the blank and the tilde (`plain_jsonText`); a line feed does
not, so the lines of the output are the findings (`readsBack_join`). A finding with a line or column of too many digits has no line
of JSON (`long_line_has_no_json`).
-/

namespace FormatAudit

namespace Json

open Finding

/-! ## Strings -/

/-- A hexadecimal digit is read as the value that it was written for. -/
theorem hexValue?_digitChar {d : Nat} (h : d < 16) : hexValue? (Nat.digitChar d) = some d := by
  have hall : ∀ d : Fin 16, hexValue? (Nat.digitChar d) = some d.val := by decide
  exact hall ⟨d, h⟩

/-- An escaped code unit is read as that unit. -/
theorem units_unitEscape {n : Nat} (h : n < 0x10000) (rest : List Char) :
    units (unitEscape n ++ rest) = (units rest).map (prepend [n]) := by
  have hdigit : ∀ m : Nat, hexValue? (Nat.digitChar (m % 16)) = some (m % 16) :=
    fun m => hexValue?_digitChar (Nat.mod_lt m (by decide))
  have hvalue : ((n / 16 / 16 / 16 % 16 * 16 + n / 16 / 16 % 16) * 16 + n / 16 % 16) * 16 + n % 16 = n := by omega
  simp only [unitEscape, Text.hexDigits, List.nil_append, List.cons_append, units, hexUnit?, hdigit, Option.pure_def,
    Option.bind_eq_bind, Option.bind_some, hvalue]

/-- Escaped code units are read one after the other. -/
theorem units_flatMap_unitEscape {ns : List Nat} (h : ∀ n ∈ ns, n < 0x10000) (rest : List Char) :
    units (ns.flatMap unitEscape ++ rest) = (units rest).map (prepend ns) := by
  induction ns with
  | nil => exact Option.map_id'.symm
  | cons n ns ih =>
    obtain ⟨hn, hns⟩ := List.forall_mem_cons.1 h
    rw [List.flatMap_cons, List.append_assoc, units_unitEscape hn, ih hns, Option.map_map]
    rfl

/-- A short escape is read as the code unit of its character. -/
theorem units_shortEscape {c e : Char} (h : shortEscape? e = some c) (rest : List Char) :
    units ('\\' :: e :: rest) = (units rest).map (prepend [c.toNat]) := by
  have hletter : e ≠ 'u' := by
    rintro rfl
    cases h
  rw [units.eq_4 e rest (fun _ _ _ _ _ hu _ => hletter hu), h, Option.bind_some]

/-- The UTF-16 units of a character. -/
def unitsOf (c : Char) : List Nat :=
  if c.toNat < 0x10000 then [c.toNat]
  else [0xD800 + (c.toNat - 0x10000) / 0x400, 0xDC00 + (c.toNat - 0x10000) % 0x400]

/-- A character of the basic plane is one code unit. -/
theorem unitsOf_of_lt {c : Char} (h : c.toNat < 0x10000) : unitsOf c = [c.toNat] :=
  if_pos h

/-- Code units are sixteen bits wide. -/
theorem lt_of_mem_unitsOf {c : Char} {n : Nat} (h : n ∈ unitsOf c) : n < 0x10000 := by
  have hscalar : c.toNat < 0xD800 ∨ 0xDFFF < c.toNat ∧ c.toNat < 0x110000 := c.valid
  unfold unitsOf at h
  split at h
  · simp only [List.mem_singleton] at h
    omega
  · simp only [List.mem_cons, List.not_mem_nil, or_false] at h
    omega

/-- A character is written by a letter, as itself or by its units. -/
theorem jsonChar_cases (c : Char) :
    (∃ e, shortEscape? e = some c ∧ jsonChar c = ['\\', e] ∧ c.toNat < 0x80) ∨
      (jsonChar c = [c] ∧ 0x20 ≤ c.toNat ∧ c.toNat ≤ 0x7e ∧ c ≠ '"' ∧ c ≠ '\\') ∨
      jsonChar c = (unitsOf c).flatMap unitEscape := by
  fun_cases jsonChar c with
  | case1 h => exact .inl ⟨'"', by rw [h]; rfl, rfl, by rw [h]; decide⟩
  | case2 _ h => exact .inl ⟨'\\', by rw [h]; rfl, rfl, by rw [h]; decide⟩
  | case3 _ _ h => exact .inl ⟨'n', by rw [h]; rfl, rfl, by rw [h]; decide⟩
  | case4 _ _ _ h => exact .inl ⟨'r', by rw [h]; rfl, rfl, by rw [h]; decide⟩
  | case5 _ _ _ _ h => exact .inl ⟨'t', by rw [h]; rfl, rfl, by rw [h]; decide⟩
  | case6 _ _ _ _ _ h => exact .inl ⟨'b', by rw [h]; rfl, rfl, by rw [h]; decide⟩
  | case7 _ _ _ _ _ _ h => exact .inl ⟨'f', by rw [h]; rfl, rfl, by rw [h]; decide⟩
  | case8 hquote hslash _ _ _ _ _ h =>
    simp only [Bool.and_eq_true, decide_eq_true_eq] at h
    exact .inr (.inl ⟨rfl, h.1, h.2, hquote, hslash⟩)
  | case9 _ _ _ _ _ _ _ _ h =>
    rw [unitsOf_of_lt h, List.flatMap_singleton]
    exact .inr (.inr rfl)
  | case10 _ _ _ _ _ _ _ _ h n =>
    rw [unitsOf, if_neg h, List.flatMap_cons, List.flatMap_singleton]
    exact .inr (.inr rfl)

/-- Reading undoes the escape of one character, as far as its units. -/
theorem units_jsonChar (c : Char) (rest : List Char) :
    units (jsonChar c ++ rest) = (units rest).map (prepend (unitsOf c)) := by
  rcases jsonChar_cases c with ⟨e, hescape, hchar, hsmall⟩ | ⟨hchar, hleft, hright, hquote, hslash⟩ | hchar
  · rw [hchar, unitsOf_of_lt (by omega)]
    exact units_shortEscape hescape rest
  · have hallowed : ¬(c = '\\' ∨ c.toNat < 0x20) := by
      rintro (h | h)
      · exact hslash h
      · omega
    rw [hchar, unitsOf_of_lt (by omega), List.singleton_append, units.eq_5 c rest hquote (fun _ _ _ _ _ h => absurd h hslash)
      (fun _ _ h => absurd h hslash), if_neg hallowed]
  · rw [hchar]
    exact units_flatMap_unitEscape (fun n hn => lt_of_mem_unitsOf hn) rest

/-- The units of a character, whatever units come after it, make that character again. -/
theorem ofUnits_unitsOf (c : Char) (ns : List Nat) :
    ofUnits (unitsOf c ++ ns) = (ofUnits ns).map (c :: ·) := by
  have hscalar : c.toNat < 0xD800 ∨ 0xDFFF < c.toNat ∧ c.toNat < 0x110000 := c.valid
  unfold unitsOf
  by_cases hsmall : c.toNat < 0x10000
  · -- a character is never one of the numbers that are kept for the halves of a pair
    have hhigh : ¬(0xD800 ≤ c.toNat ∧ c.toNat < 0xDC00) := by omega
    have hlow : ¬(0xDC00 ≤ c.toNat ∧ c.toNat < 0xE000) := by omega
    rw [if_pos hsmall, List.cons_append, List.nil_append, ofUnits.eq_def]
    simp only [if_neg hhigh, if_neg hlow, Char.ofNat_toNat]
  · have hhigh : 0xD800 ≤ 0xD800 + (c.toNat - 0x10000) / 0x400 ∧ 0xD800 + (c.toNat - 0x10000) / 0x400 < 0xDC00 := by omega
    have hlow : 0xDC00 ≤ 0xDC00 + (c.toNat - 0x10000) % 0x400 ∧ 0xDC00 + (c.toNat - 0x10000) % 0x400 < 0xE000 := by omega
    have hpair : 0x10000 + (0xD800 + (c.toNat - 0x10000) / 0x400 - 0xD800) * 0x400 +
        (0xDC00 + (c.toNat - 0x10000) % 0x400 - 0xDC00) = c.toNat := by omega
    rw [if_neg hsmall, List.cons_append, List.cons_append, List.nil_append, ofUnits, if_pos hhigh]
    simp only [if_pos hlow, hpair, Char.ofNat_toNat]

/-- A written string is read up to its closing quote as the code units of its characters. -/
theorem units_flatMap_jsonChar (s rest : List Char) :
    units (s.flatMap jsonChar ++ '"' :: rest) = some (s.flatMap unitsOf, rest) := by
  induction s with
  | nil => rfl
  | cons c s ih =>
    rw [List.flatMap_cons, List.append_assoc, units_jsonChar, ih]
    rfl

/-- The code units of a text decode to the text. -/
theorem ofUnits_flatMap_unitsOf (s : List Char) : ofUnits (s.flatMap unitsOf) = some s := by
  induction s with
  | nil => rfl
  | cons c s ih => rw [List.flatMap_cons, ofUnits_unitsOf, ih, Option.map_some]

/-- A string is read back, whatever follows it. -/
theorem readText_jsonChars (s : String) (rest : List Char) :
    readText (s.toList.flatMap jsonChar ++ '"' :: rest) = some (s, rest) := by
  simp only [readText, units_flatMap_jsonChar, Option.bind_some, ofUnits_flatMap_unitsOf, Option.map_some,
    String.ofList_toList]

/-- A written string is one lexeme. -/
theorem lexemes_jsonString (s : String) (rest : List Char) :
    lexemes (jsonString s ++ rest) = (lexemes rest).map (.text s :: ·) := by
  rw [jsonString, List.append_assoc, List.cons_append, List.singleton_append]
  exact lexemes_text (readText_jsonChars s rest)

/-! ## Numbers -/

/-- Only zero is written with a zero in front. -/
theorem head?_natChars {n : Nat} (h : 0 < n) : (Number.natChars n).head? ≠ some '0' := by
  induction n using Nat.strongRecOn with
  | ind n ih =>
    unfold Number.natChars at ih ⊢
    by_cases hsmall : n < 10
    · rw [Nat.toDigits_of_lt_base hsmall]
      have hall : ∀ d : Fin 10, 0 < d.val → [Nat.digitChar d].head? ≠ some '0' := by decide
      exact hall ⟨n, hsmall⟩ h
    · have hlead : 0 < n / 10 := by omega
      have hdigits := Nat.toDigits_append_toDigits (by decide) hlead (Nat.mod_lt n (by decide : 0 < 10))
      -- the first digit is that of the number without its last digit
      rw [Nat.div_add_mod] at hdigits
      rw [← hdigits, List.head?_append_of_ne_nil _ Nat.toDigits_ne_nil]
      exact ih (n / 10) (by omega) hlead

/-- A numeral without a sign has no fraction and no exponent. -/
theorem unsigned?_natChars (n : Nat) : unsigned? (Number.natChars n) = some (n, 0) := by
  have hdigits : ∀ c ∈ Number.natChars n, c.isDigit = true := fun c hc => Number.isDigit_of_mem_natChars hc
  have htake : (Number.natChars n).takeWhile Char.isDigit = Number.natChars n := List.takeWhile_eq_self_iff.2 hdigits
  have hdrop : (Number.natChars n).dropWhile Char.isDigit = [] := List.dropWhile_eq_nil_iff.2 hdigits
  have hform : ¬(Number.natChars n = [] ∨ ((Number.natChars n).head? = some '0' ∧ Number.natChars n ≠ ['0'])) := by
    rintro (hempty | ⟨hzero, hlong⟩)
    · exact Nat.toDigits_ne_nil hempty
    · rcases Nat.eq_zero_or_pos n with rfl | hpos
      · exact hlong rfl
      · exact head?_natChars hpos hzero
  have hvalue : Nat.ofDigitChars 10 (Number.natChars n) 0 = n := Nat.ofDigitChars_toDigits (by decide) (by decide)
  simp only [unsigned?, htake, hdrop, if_neg hform, fraction?, exponent?, Option.bind_some, Option.map_some, List.append_nil,
    hvalue, List.length_nil]
  rfl

/-- An integer that is written is read as itself. -/
theorem number?_intChars (n : Int) : number? (Number.intChars n) = some (.number n 0) := by
  cases n with
  | ofNat n =>
    have hsign : ∀ w, Number.natChars n = '-' :: w → False := by
      intro w hw
      have hdigit : '-'.isDigit = true := Number.isDigit_of_mem_natChars (n := n) (by rw [hw]; exact List.mem_cons_self)
      cases hdigit
    rw [Number.intChars, number?.eq_2 _ hsign, unsigned?_natChars]
    rfl
  | negSucc n =>
    rw [Number.intChars, number?, unsigned?_natChars]
    rfl

/-- An integer is a word of its own. -/
theorem word?_intChars (n : Int) : word? (Number.intChars n) = some (.number n 0) := by
  have hletter : ∀ c w, c.isDigit = false → c ≠ '-' → Number.intChars n ≠ c :: w := by
    intro c w hdigit hsign hw
    have hc : c ∈ Number.intChars n := by rw [hw]; exact List.mem_cons_self
    rcases Number.mem_intChars hc with h | h
    · rw [hdigit] at h
      cases h
    · exact hsign h
  rw [word?, if_neg (hletter _ _ rfl (by decide)), if_neg (hletter _ _ rfl (by decide)), if_neg (hletter _ _ rfl (by decide)),
    number?_intChars]

/-- A whole number is read back if what follows it cannot belong to it. -/
theorem lexemes_intChars (n : Int) {rest : List Char} (hend : rest.takeWhile isWordChar = []) :
    lexemes (Number.intChars n ++ rest) = (lexemes rest).map (.word (.number n 0) :: ·) := by
  refine lexemes_word (fun c hc => ?_) (word?_intChars n) hend
  rcases Number.mem_intChars hc with h | rfl
  · simp [isWordChar, Char.isAlphanum, h]
  · rfl

/-! ## Objects -/

/-- The value that a field stands for. -/
def ofField : FieldValue → Json
  | .text s => .text s
  | .number n => .number n 0

def fieldLexeme : FieldValue → Lexeme
  | .text s => .text s
  | .number n => .word (.number n 0)

/-- One field with its name. -/
def pairChars (field : String × FieldValue) : List Char :=
  jsonString field.1 ++ ':' :: ' ' :: field.2.chars

/-- A written field is three lexemes: its name, a colon and its value. -/
theorem lexemes_pairChars (field : String × FieldValue) {rest : List Char} (hend : rest.takeWhile isWordChar = []) :
    lexemes (pairChars field ++ rest) =
      (lexemes rest).map (fun more => .text field.1 :: .colon :: fieldLexeme field.2 :: more) := by
  have hvalue : lexemes (field.2.chars ++ rest) = (lexemes rest).map (fieldLexeme field.2 :: ·) := by
    cases field.2 with
    | text s => exact lexemes_jsonString s rest
    | number n => exact lexemes_intChars n hend
  rw [pairChars, List.append_assoc, lexemes_jsonString, List.cons_append, List.cons_append,
    lexemes_mark (by decide) (show mark? ':' = some .colon from rfl), lexemes_blank (by decide), hvalue, Option.map_map,
    Option.map_map]
  rfl

/-- The fields after the first, and the end of the object. -/
def moreChars : List (String × FieldValue) → List Char
  | [] => ['\x7d']
  | field :: more => ',' :: ' ' :: pairChars field ++ moreChars more

def moreLexemes : List (String × FieldValue) → List Lexeme
  | [] => [.objectClose]
  | field :: more => .comma :: .text field.1 :: .colon :: fieldLexeme field.2 :: moreLexemes more

/-- The fields of a record are written as the first one and what follows it. -/
theorem fieldChars_close (field : String × FieldValue) (more : List (String × FieldValue)) :
    fieldChars (field :: more) ++ ['\x7d'] = pairChars field ++ moreChars more := by
  induction more generalizing field with
  | nil => rfl
  | cons next more ih =>
    rw [moreChars, List.cons_append, List.cons_append, ← ih]
    simp [fieldChars, pairChars]

/-- A field ends where the next one or the end of the object begins. -/
theorem takeWhile_moreChars (more : List (String × FieldValue)) : (moreChars more).takeWhile isWordChar = [] := by
  cases more <;> rfl

/-- What follows a field is split into lexemes. -/
theorem lexemes_moreChars (more : List (String × FieldValue)) : lexemes (moreChars more) = some (moreLexemes more) := by
  induction more with
  | nil =>
    rw [moreChars, lexemes_mark (by decide) (show mark? '\x7d' = some .objectClose from rfl), lexemes]
    rfl
  | cons field more ih =>
    rw [moreChars, List.cons_append, List.cons_append, lexemes_mark (by decide) (show mark? ',' = some .comma from rfl),
      lexemes_blank (by decide), lexemes_pairChars field (takeWhile_moreChars more), ih]
    rfl

/-- The lexeme of a value is read as the value. -/
theorem readValue_fieldLexeme (around : List Container) (value : FieldValue) (rest : List Lexeme) :
    readValue around (fieldLexeme value :: rest) = readAfter around (ofField value) rest := by
  cases value <;> rw [fieldLexeme, readValue, ofField]

/-- What follows a field is read as the other fields, up to the end of the record. -/
theorem readAfter_moreLexemes (fields : List (String × Json)) (name : String) (v : Json)
    (more : List (String × FieldValue)) :
    readAfter [.object fields name] v (moreLexemes more) =
      some (.object (fields.reverse ++ (name, v) :: more.map (fun field => (field.1, ofField field.2)))) := by
  induction more generalizing fields name v with
  | nil =>
    rw [moreLexemes, readAfter, readAfter]
    simp
  | cons field more ih =>
    rw [moreLexemes, readAfter, readValue_fieldLexeme, ih]
    simp

/-- An object is read back with its fields in order. -/
theorem read_fieldChars (field : String × FieldValue) (more : List (String × FieldValue)) :
    read (String.ofList ('\x7b' :: fieldChars (field :: more) ++ ['\x7d'])) =
      some (.object ((field :: more).map (fun field => (field.1, ofField field.2)))) := by
  have hopen : mark? '\x7b' = some .objectOpen := rfl
  rw [read, String.toList_ofList, List.cons_append, fieldChars_close, lexemes_mark (by decide) hopen,
    lexemes_pairChars field (takeWhile_moreChars more), lexemes_moreChars]
  simp only [Option.map_some, Option.bind_some]
  rw [readValue, readValue_fieldLexeme, readAfter_moreLexemes]
  rfl

end Json

namespace Finding

/-- What a finding says, as the fields of an object. -/
def contents (f : Finding) : List (String × Json) :=
  let always : List (String × Json) :=
    [("file", .text f.location.file), ("linenr", .number f.location.line 0), ("column", .number f.location.column 0),
     ("severity", .text f.severity.name), ("message", .text f.message), ("addon", .text f.addon),
     ("errorId", .text f.errorId), ("extra", .text f.extra)]
  if f.cwe = 0 then always else always ++ [("cwe", Json.number f.cwe 0)]

/-- The text of a finding is read as the record of what the finding contains. -/
theorem read_jsonText (f : Finding) : Json.read f.jsonText = some (.object f.contents) := by
  have hread := Json.read_fieldChars ("file", .text f.location.file) f.fields.tail
  have hfields : ("file", .text f.location.file) :: f.fields.tail = f.fields := rfl
  have hcontents : f.fields.map (fun field => (field.1, Json.ofField field.2)) = f.contents := by
    unfold fields contents
    split <;> rfl
  rwa [hfields, hcontents] at hread

/-- No field of a finding is written twice. -/
theorem nodup_contents (f : Finding) : (f.contents.map Prod.fst).Nodup := by
  unfold contents
  split <;> simp

/-! ## Lines -/

/-- A character of printable ASCII. -/
def IsPlain (c : Char) : Prop :=
  0x20 ≤ c.toNat ∧ c.toNat ≤ 0x7e

instance (c : Char) : Decidable (IsPlain c) :=
  instDecidableAnd

/-- An escaped code unit is plain. -/
theorem plain_unitEscape (n : Nat) : ∀ c ∈ unitEscape n, IsPlain c := by
  have hdigit : ∀ m : Nat, IsPlain (Nat.digitChar (m % 16)) := by
    intro m
    have hall : ∀ d : Fin 16, IsPlain (Nat.digitChar d) := by decide
    exact hall ⟨m % 16, Nat.mod_lt m (by decide)⟩
  have hslash : IsPlain '\\' := by decide
  have hletter : IsPlain 'u' := by decide
  simp [unitEscape, Text.hexDigits, hdigit, hslash, hletter]

/-- So is the letter of a short escape. -/
theorem plain_shortEscape {c e : Char} (h : Json.shortEscape? e = some c) : IsPlain e := by
  have hall : ∀ e ∈ ['"', '\\', '/', 'b', 'f', 'n', 'r', 't'], IsPlain e := by simp [IsPlain]
  refine hall e ?_
  by_contra hnot
  simp only [List.mem_cons, List.not_mem_nil, or_false, not_or] at hnot
  simp [Json.shortEscape?, hnot] at h

/-- A character is written with plain characters only. -/
theorem plain_jsonChar (c : Char) : ∀ d ∈ jsonChar c, IsPlain d := by
  rcases Json.jsonChar_cases c with ⟨e, hescape, hchar, -⟩ | ⟨hchar, hleft, hright, -⟩ | hchar
  · rw [hchar]
    exact List.forall_mem_cons.2 ⟨by decide, List.forall_mem_singleton.2 (plain_shortEscape hescape)⟩
  · rw [hchar]
    exact List.forall_mem_singleton.2 ⟨hleft, hright⟩
  · rw [hchar]
    exact List.forall_mem_flatMap.2 (fun n _ => plain_unitEscape n)

/-- So is a string. -/
theorem plain_jsonString (s : String) : ∀ c ∈ jsonString s, IsPlain c := by
  have hquote : IsPlain '"' := by decide
  have hchars : ∀ c ∈ s.toList.flatMap jsonChar, IsPlain c := List.forall_mem_flatMap.2 (fun c _ => plain_jsonChar c)
  exact List.forall_mem_append.2 ⟨List.forall_mem_cons.2 ⟨hquote, hchars⟩, List.forall_mem_singleton.2 hquote⟩

/-- So is an integer. -/
theorem plain_intChars (n : Int) : ∀ c ∈ Number.intChars n, IsPlain c := by
  intro c hc
  rcases Number.mem_intChars hc with h | rfl
  · obtain ⟨hleft, hright⟩ := Char.isDigit_iff_toNat.1 h
    exact ⟨le_trans (by decide) hleft, le_trans hright (by decide)⟩
  · decide

/-- So is a field. -/
theorem plain_pairChars (field : String × FieldValue) : ∀ c ∈ Json.pairChars field, IsPlain c := by
  have hvalue : ∀ c ∈ field.2.chars, IsPlain c := by
    cases field.2 with
    | text s => exact plain_jsonString s
    | number n => exact plain_intChars n
  have hcolon : IsPlain ':' := by decide
  have hblank : IsPlain ' ' := by decide
  exact List.forall_mem_append.2 ⟨plain_jsonString field.1,
    List.forall_mem_cons.2 ⟨hcolon, List.forall_mem_cons.2 ⟨hblank, hvalue⟩⟩⟩

/-- So is everything up to the end of a record. -/
theorem plain_moreChars (more : List (String × FieldValue)) : ∀ c ∈ Json.moreChars more, IsPlain c := by
  induction more with
  | nil => simp [Json.moreChars, IsPlain]
  | cons field more ih =>
    have hcomma : IsPlain ',' := by decide
    have hblank : IsPlain ' ' := by decide
    have hfield := List.forall_mem_cons.2 ⟨hcomma, List.forall_mem_cons.2 ⟨hblank, plain_pairChars field⟩⟩
    exact List.forall_mem_append.2 ⟨hfield, ih⟩

/-- A finding is written in printable ASCII. -/
theorem plain_jsonText (f : Finding) : ∀ c ∈ f.jsonText.toList, IsPlain c := by
  have hopen : IsPlain '\x7b' := by decide
  have hchars : f.jsonText.toList = '\x7b' :: (Json.pairChars ("file", .text f.location.file) ++ Json.moreChars f.fields.tail) := by
    rw [jsonText, String.toList_ofList, ← Json.fieldChars_close]
    rfl
  rw [hchars]
  exact List.forall_mem_cons.2 ⟨hopen, List.forall_mem_append.2 ⟨plain_pairChars _, plain_moreChars _⟩⟩

/-- The numbers that JSON shows of a finding have at most as many digits as can be written. -/
def ShowsShort (f : Finding) : Prop :=
  ∀ n ∈ [f.location.line, f.location.column, f.cwe], n.natAbs < 10 ^ Number.digitLimit

/-- A finding whose numbers are short enough is written. -/
theorem json_of_showsShort {f : Finding} (h : f.ShowsShort) : f.json = .ok f.jsonText :=
  json_eq_ok_iff.2 ⟨h, rfl⟩

/-- A finding with a number that is too long fails with it. -/
theorem json_of_not_showsShort {f : Finding} (h : ¬f.ShowsShort) : f.json = .error .tooManyDigits := by
  cases hf : f.json with
  | ok text => exact absurd (json_eq_ok_iff.1 hf).1 h
  | error fault => rw [fault_of_textShowing hf]

/-- A finding that can be written has no number that is too long. -/
theorem Writable.showsShort {f : Finding} (h : f.Writable) : f.ShowsShort :=
  fun n hn => (Number.isWritable_iff n).1 (h n (List.mem_append_left _ hn))

end Finding

/-- The text has a line for each finding, in order, and each line reads as its finding. The last line feed ends the last line. -/
def ReadsBack (text : String) (fs : List Finding) : Prop :=
  ∃ lines, text.toList.splitOn '\n' = lines ++ [[]] ∧
    List.Forall₂ (fun line f => Json.read (String.ofList line) = some (.object f.contents)) lines fs

namespace CommandLine

/-- A finding as a line of JSON. -/
def jsonLine (f : Finding) : String :=
  f.jsonText ++ "\n"

/-- The written lines are split back into the texts of the findings. -/
theorem splitOn_join_jsonLine (fs : List Finding) :
    (String.join (fs.map jsonLine)).toList.splitOn '\n' = fs.map (fun f => f.jsonText.toList) ++ [[]] := by
  induction fs with
  | nil => rfl
  | cons f fs ih =>
    have hline : '\n' ∉ f.jsonText.toList := fun hmem => absurd (f.plain_jsonText '\n' hmem) (by decide)
    have htext : (jsonLine f).toList = f.jsonText.toList ++ ['\n'] := by
      simp [jsonLine]
    rw [List.map_cons, String.join_cons, String.toList_append, htext, List.append_assoc, List.singleton_append,
      List.splitOn, List.splitOnP_append_cons _ _ (by decide), ← List.splitOn, ← List.splitOn, ih,
      List.splitOn_eq_singleton hline]
    rfl

/-- The lines of findings read back as the findings. -/
theorem readsBack_join (fs : List Finding) : ReadsBack (String.join (fs.map jsonLine)) fs := by
  refine ⟨_, splitOn_join_jsonLine fs, ?_⟩
  rw [List.forall₂_map_left_iff, List.forall₂_same]
  intro f _
  rw [String.ofList_toList]
  exact f.read_jsonText

/-- Findings with short numbers are written line by line. -/
theorem writeFindings_json {fs : List Finding} (h : ∀ f ∈ fs, f.ShowsShort) :
    (writeFindings .json fs).fault = none ∧ (writeFindings .json fs).state = String.join (fs.map jsonLine) := by
  refine writeFindings_of_texts (List.forall₂_map_right_iff.2 (List.forall₂_same.2 fun f hf => ?_))
  exact findingText_json (Finding.json_of_showsShort (h f hf))

/-- The first finding with a number of too many digits ends the output. -/
theorem writeFindings_json_of_not_showsShort {before : List Finding} {f : Finding} (h : ∀ g ∈ before, g.ShowsShort)
    (hf : ¬f.ShowsShort) (after : List Finding) :
    (writeFindings .json (before ++ f :: after)).fault = some .tooManyDigits ∧
      (writeFindings .json (before ++ f :: after)).state = String.join (before.map jsonLine) := by
  have htext : findingText .json f = .error .tooManyDigits := by
    rw [findingText, Finding.json_of_not_showsShort hf]
    rfl
  refine Progress.Reaches.along_of_error (writeFindings_json h) ?_
  rw [Logged.result_bind, Logged.result_liftM, htext]
  rfl

/-! ## Runs -/

/-- The findings that are reported for a dump. -/
def Finds (h : Host) (settings : Settings) (path : String) (fs : List Finding) : Prop :=
  ∃ d, (readDump h path).result = .ok d ∧
    (d.run settings [] (RuleSet.ofEntries settings.suppress)).report.findings = fs

section Runs

variable {h : Host} {o : Options} (hjson : o.addonMode = true ∨ o.format = .json)

include hjson

/-- The output for a dump that can be checked is the lines of what is found in it. -/
theorem dumpText_of_checkable {path : String} (hpath : Checkable h o path) (settings : Settings) :
    ∃ fs, Finds h settings path fs ∧ dumpText h settings o path = String.join (fs.map jsonLine) := by
  obtain ⟨⟨d, hread⟩, hsuppress⟩ := hpath
  have hformat : formatOf o = .json := by
    rcases hjson with haddon | hformat
    · rw [formatOf, if_pos haddon]
    · rw [formatOf, hformat, ite_self]
  refine ⟨_, ⟨d, hread, rfl⟩, ?_⟩
  rw [dumpText, checkDump_of_readDump hread hsuppress settings, hformat]
  exact (writeFindings_json fun f hf => (d.writable_run settings _ f hf).showsShort).2

/-- The output for dumps that can be checked is the lines of what is found in each of them. -/
theorem join_dumpText_of_checkable (settings : Settings) {paths : List String} (hall : ∀ p ∈ paths, Checkable h o p) :
    ∃ reports, List.Forall₂ (Finds h settings) paths reports ∧
      String.join (paths.map (dumpText h settings o)) = String.join (reports.flatten.map jsonLine) := by
  induction paths with
  | nil => exact ⟨[], .nil, rfl⟩
  | cons path paths ih =>
    obtain ⟨hpath, hall⟩ := List.forall_mem_cons.1 hall
    obtain ⟨fs, hfs, htext⟩ := dumpText_of_checkable hjson hpath settings
    obtain ⟨reports, hreports, hjoin⟩ := ih hall
    refine ⟨fs :: reports, .cons hfs hreports, ?_⟩
    rw [List.map_cons, String.join_cons, htext, hjoin, List.flatten_cons, List.map_append, String.join_append]

end Runs

/-- JSON output can be read back. A finding has a line of JSON exactly if its line, its column and its weakness have not too many
digits. The line is printable ASCII and a reader of JSON takes it for an object with exactly the contents of the finding, under
names that differ from each other. Findings written one after the other are the lines of the output, in order, up to the first one
that has no line. The findings of all dumps in a run that writes JSON are the lines of its output: they all have one. -/
theorem json_output_reads_back :
    (∀ f : Finding, ((∃ text, f.json = .ok text) ↔ f.ShowsShort) ∧ (∀ fault, f.json = .error fault → fault = .tooManyDigits) ∧
      ∀ text, f.json = .ok text → (∀ c ∈ text.toList, Finding.IsPlain c) ∧ Json.read text = some (.object f.contents) ∧
        (f.contents.map Prod.fst).Nodup) ∧
    (∀ fs : List Finding, (∀ f ∈ fs, f.ShowsShort) →
      (writeFindings .json fs).fault = none ∧ ReadsBack (writeFindings .json fs).state fs) ∧
    (∀ (before : List Finding) (f : Finding) (after : List Finding), (∀ g ∈ before, g.ShowsShort) → ¬f.ShowsShort →
      (writeFindings .json (before ++ f :: after)).fault = some .tooManyDigits ∧
        ReadsBack (writeFindings .json (before ++ f :: after)).state before) ∧
    ∀ (h : Host) (o : Options) (settings : Settings), o.addonMode = true ∨ o.format = .json →
      (settingsOf h o).result = .ok settings → (∀ p ∈ o.dumps, Checkable h o p) →
      ∃ reports, List.Forall₂ (Finds h settings) o.dumps reports ∧ ReadsBack (runOptions h o).stdout reports.flatten := by
  refine ⟨fun f => ⟨?_, fun fault => fault_of_textShowing, ?_⟩, ?_, ?_, ?_⟩
  · simp only [Finding.json_eq_ok_iff, exists_and_left, exists_eq', and_true, Finding.ShowsShort]
  · intro text htext
    obtain ⟨-, rfl⟩ := Finding.json_eq_ok_iff.1 htext
    exact ⟨f.plain_jsonText, f.read_jsonText, f.nodup_contents⟩
  · intro fs hfs
    obtain ⟨hfault, hstate⟩ := writeFindings_json hfs
    rw [hstate]
    exact ⟨hfault, readsBack_join fs⟩
  · intro before f after hbefore hf
    obtain ⟨hfault, hstate⟩ := writeFindings_json_of_not_showsShort hbefore hf after
    rw [hstate]
    exact ⟨hfault, readsBack_join before⟩
  · intro h o settings hjson hsettings hall
    obtain ⟨reports, hreports, hjoin⟩ := join_dumpText_of_checkable hjson settings hall
    refine ⟨reports, hreports, ?_⟩
    rw [(runOptions_of_checkable hsettings hall).1, hjoin]
    exact readsBack_join reports.flatten

/-- A finding whose texts hold quotes, a backslash, controls and characters beyond the basic plane, far down in its file. -/
def strangeFinding : Finding :=
  { errorId := "a\"b\\c", message := "\n\x00\x7f\u2028", severity := .warning,
    location := { file := "\u00e9😀.c", line := 100000000000000000000, column := -1 } }

/-- All of it is read back, and so is every line of a run over a dump that is named twice. -/
theorem strange_finding_read :
    (∃ text, strangeFinding.json = .ok text ∧ Json.read text = some (.object
      [("file", .text "\u00e9😀.c"), ("linenr", .number 100000000000000000000 0), ("column", .number (-1) 0),
       ("severity", .text "warning"), ("message", .text "\n\x00\x7f\u2028"), ("addon", .text "varfmt"),
       ("errorId", .text "a\"b\\c"), ("extra", .text "")])) ∧
      ∃ reports, List.Forall₂ (Finds (OneFile.host (.dump OneFile.calls)) {}) ["a", "a"] reports ∧
        ReadsBack (runOptions (OneFile.host (.dump OneFile.calls)) { dumps := ["a", "a"], addonMode := true }).stdout
          reports.flatten := by
  obtain ⟨hfinding, -, -, hrun⟩ := json_output_reads_back
  constructor
  · have hshort : strangeFinding.ShowsShort := by
      have hsmall : ∀ n ∈ [strangeFinding.location.line, strangeFinding.location.column, strangeFinding.cwe],
        n.natAbs < 10 ^ 21 := by decide
      exact fun n hn => (hsmall n hn).trans_le (Nat.pow_le_pow_right (by decide) (by decide))
    obtain ⟨hline, -, hread⟩ := hfinding strangeFinding
    obtain ⟨text, htext⟩ := hline.2 hshort
    exact ⟨text, htext, (hread text htext).2.1⟩
  · refine hrun _ { dumps := ["a", "a"], addonMode := true } {} (.inl rfl) rfl ?_
    have hcalls : Checkable (OneFile.host (.dump OneFile.calls)) { dumps := ["a", "a"], addonMode := true } "a" :=
      ⟨⟨OneFile.calls, OneFile.readDump_dump OneFile.calls⟩, by decide⟩
    simpa using hcalls

/-- A line number with one digit too many has no line of JSON. -/
theorem long_line_has_no_json :
    ∃ f : Finding, f.location.line = 10 ^ Number.digitLimit ∧ f.json = .error .tooManyDigits := by
  let f : Finding :=
    { errorId := formatErrorId, message := "m", severity := .warning, location := { line := 10 ^ Number.digitLimit } }
  refine ⟨f, rfl, Finding.json_of_not_showsShort fun hshort => ?_⟩
  exact Number.not_natAbs_pow_lt Number.digitLimit (hshort (10 ^ Number.digitLimit) List.mem_cons_self)

end CommandLine

end FormatAudit
