import Mathlib
import FormatAudit.Fault

/-!
# Reading and writing numbers

When a text is read as a whole number (`readChars_eq_ok_iff`): blanks, a sign, a run of digits that is not too long, and blanks.
A number as it is written (`intChars`) is such a text, with or without blanks around it, exactly if it has at most `digitLimit`
digits (`readChars_padded_iff`), and blanks of any kind may be taken off the end of such a text (`readChars_of_append`).

The same limit holds for writing (`isWritable_iff`), so every number that was read can be written (`isWritable_of_readChars`). A text
with numbers in it is written exactly if all of them can be (`textShowing_eq_ok_iff`).
-/

namespace FormatAudit.Number

/-! ## Characters -/

/-- A natural number is written with digits. -/
theorem isDigit_of_mem_natChars {n : Nat} {c : Char} (h : c ∈ natChars n) : c.isDigit = true :=
  Nat.isDigit_of_mem_toDigits (by decide) (by decide) h

/-- An integer is written with digits and a minus sign. -/
theorem mem_intChars {n : Int} {c : Char} (h : c ∈ intChars n) : c.isDigit = true ∨ c = '-' := by
  cases n with
  | ofNat n => exact .inl (isDigit_of_mem_natChars h)
  | negSucc n =>
    rcases List.mem_cons.1 h with rfl | h
    · exact .inr rfl
    · exact .inl (isDigit_of_mem_natChars h)

/-- A decimal digit has its usual value. -/
theorem digitValue?_of_isDigit {c : Char} (h : c.isDigit = true) : Text.digitValue? c = some (c.toNat - '0'.toNat) := by
  have hall : ∀ n ∈ List.range' 0x30 10, Text.zeroDigits.find? (fun z => decide (z ≤ n) && decide (n ≤ z + 9)) = some 0x30 := by
    decide
  have hrange : '0'.toNat ≤ c.toNat ∧ c.toNat ≤ '9'.toNat := Char.isDigit_iff_toNat.1 h
  have hmem : c.toNat ∈ List.range' 0x30 10 := List.mem_range'_1.2 ⟨hrange.1, Nat.lt_succ_of_le hrange.2⟩
  rw [Text.digitValue?, hall c.toNat hmem]
  rfl

/-- The code points of blanks. -/
def blankCodes : List Nat :=
  [9, 10, 11, 12, 13, 28, 29, 30, 31, 32, 0x85, 0xA0, 0x1680, 0x2000, 0x2001, 0x2002, 0x2003, 0x2004, 0x2005, 0x2006, 0x2007,
   0x2008, 0x2009, 0x200A, 0x2028, 0x2029, 0x202F, 0x205F, 0x3000]

/-- A blank is one of the listed characters. -/
theorem mem_blankCodes {c : Char} (h : Text.isBlank c = true) : c.toNat ∈ blankCodes := by
  simp only [Text.isBlank, Bool.or_eq_true, Bool.and_eq_true, decide_eq_true_eq, beq_iff_eq] at h
  simp only [blankCodes, List.mem_cons, List.not_mem_nil, or_false]
  omega

/-- No script writes a digit as a blank. -/
theorem digitValue?_of_isBlank {c : Char} (h : Text.isBlank c = true) : Text.digitValue? c = none := by
  have hall : ∀ n ∈ blankCodes, Text.zeroDigits.find? (fun z => decide (z ≤ n) && decide (n ≤ z + 9)) = none := by decide
  rw [Text.digitValue?, hall c.toNat (mem_blankCodes h)]
  rfl

/-- No digit is blank. -/
theorem not_isBlank_of_isDigit {c : Char} (h : c.isDigit = true) : Text.isBlank c = false := by
  by_contra hblank
  have hvalue := digitValue?_of_isDigit h
  rw [digitValue?_of_isBlank (by simpa using hblank)] at hvalue
  cases hvalue

/-- What may stand around a numeral is blank. -/
theorem isBlank_of_isNumeralBlank {c : Char} (h : Text.isNumeralBlank c = true) : Text.isBlank c = true :=
  (Bool.and_eq_true_iff.1 h).1

/-! ## Runs of digits -/

/-- A text that no run of digits goes into: it does not start with a digit or an underscore. -/
def EndsDigits (rest : List Char) : Prop :=
  ∀ c ∈ rest.head?, Text.digitValue? c = none ∧ c ≠ '_'

/-- Blanks end a run of digits. -/
theorem endsDigits_of_isBlank {blanks : List Char} (h : ∀ c ∈ blanks, Text.isBlank c = true) : EndsDigits blanks := by
  intro c hc
  have hblank : Text.isBlank c = true := h c (List.mem_of_mem_head? hc)
  refine ⟨digitValue?_of_isBlank hblank, ?_⟩
  rintro rfl
  cases hblank

/-- There are no digits before the end of a run. -/
theorem digitRun_of_endsDigits {rest : List Char} (h : EndsDigits rest) (afterDigit : Bool) :
    digitRun afterDigit rest = ([], rest) := by
  cases rest with
  | nil => cases afterDigit <;> rfl
  | cons c cs =>
    obtain ⟨hdigit, hunderscore⟩ := h c rfl
    simp [digitRun, hdigit, hunderscore]

/-- What cannot belong to a run of digits is left over. -/
theorem digitRun_append {rest : List Char} (h : EndsDigits rest) (afterDigit : Bool) (cs : List Char) :
    digitRun afterDigit (cs ++ rest) = ((digitRun afterDigit cs).1, (digitRun afterDigit cs).2 ++ rest) := by
  induction cs generalizing afterDigit with
  | nil =>
    rw [List.nil_append, digitRun_of_endsDigits h]
    cases afterDigit <;> rfl
  | cons c cs ih =>
    rw [List.cons_append, digitRun, digitRun]
    cases hdigit : Text.digitValue? c with
    | some d => simp only [ih]
    | none =>
      by_cases hmark : (afterDigit && c == '_') = true
      · simp only [if_pos hmark, ih]
        rcases hrun : digitRun false cs with ⟨_ | ⟨d, ds⟩, left⟩ <;> rfl
      · simp only [if_neg hmark, List.cons_append]

/-- A run of digits is taken whole. -/
theorem digitRun_of_isDigit {ds : List Char} (h : ∀ c ∈ ds, c.isDigit = true) (afterDigit : Bool) :
    digitRun afterDigit ds = (ds.map (fun c => c.toNat - '0'.toNat), []) := by
  induction ds generalizing afterDigit with
  | nil => cases afterDigit <;> rfl
  | cons c ds ih =>
    obtain ⟨hc, hds⟩ := List.forall_mem_cons.1 h
    rw [digitRun, digitValue?_of_isDigit hc]
    simp only [ih hds, List.map_cons]

/-- The digits of a natural number have its value. -/
theorem ofDigits_map_natChars (n : Nat) : ofDigits ((natChars n).map (fun c => c.toNat - '0'.toNat)) = n := by
  have hvalue : Nat.ofDigitChars 10 (natChars n) 0 = n := Nat.ofDigitChars_toDigits (by decide) (by decide)
  rw [ofDigits, List.foldl_map]
  exact hvalue

/-! ## Numbers -/

/-- A text is read as a number exactly if it has blanks, a sign, some digits but not too many, and blanks. -/
theorem readChars_eq_ok_iff {cs : List Char} {n : Int} :
    readChars cs = .ok n ↔ ∃ negative body ds rest, takeSign (cs.dropWhile Text.isNumeralBlank) = (negative, body) ∧
      digitRun false body = (ds, rest) ∧ ds ≠ [] ∧ ds.length ≤ digitLimit ∧ (∀ c ∈ rest, Text.isNumeralBlank c = true) ∧
      n = signed negative (ofDigits ds) := by
  rcases hsign : takeSign (cs.dropWhile Text.isNumeralBlank) with ⟨negative, body⟩
  rcases hrun : digitRun false body with ⟨ds, rest⟩
  constructor
  · intro h
    refine ⟨negative, body, ds, rest, rfl, hrun, ?_⟩
    simp only [readChars, hsign, hrun] at h
    cases ds with
    | nil => cases h
    | cons d ds =>
      simp only at h
      split at h
      · cases h
      split at h
      · cases h
      split at h
      · rename_i hlimit hblank
        cases h
        exact ⟨List.cons_ne_nil d ds, Nat.le_of_not_lt hlimit, List.all_eq_true.1 hblank, rfl⟩
      · cases h
  · rintro ⟨negative', body', ds', rest', hsign', hrun', hne, hlimit, hblank, rfl⟩
    cases hsign'
    rw [hrun] at hrun'
    cases hrun'
    have hhead : rest.head? ≠ some '_' := by
      intro hhead
      cases hblank '_' (List.mem_of_mem_head? hhead)
    simp only [readChars, hsign, hrun, if_neg hhead, if_neg (Nat.not_lt.2 hlimit), if_pos (List.all_eq_true.2 hblank)]

/-- A character that is no sign is not taken as one. -/
theorem takeSign_of_ne {c : Char} (hminus : c ≠ '-') (hplus : c ≠ '+') (cs : List Char) :
    takeSign (c :: cs) = (false, c :: cs) := by
  refine takeSign.eq_3 (c :: cs) ?_ ?_
  · intro cs' h
    exact hminus (List.cons.inj h).1
  · intro cs' h
    exact hplus (List.cons.inj h).1

/-- The sign of a numeral is taken whatever follows the numeral. -/
theorem takeSign_append {cs : List Char} (h : cs ≠ []) (rest : List Char) :
    takeSign (cs ++ rest) = ((takeSign cs).1, (takeSign cs).2 ++ rest) := by
  obtain ⟨c, cs, rfl⟩ := List.exists_cons_of_ne_nil h
  by_cases hminus : c = '-'
  · subst hminus
    rfl
  by_cases hplus : c = '+'
  · subst hplus
    rfl
  rw [List.cons_append, takeSign_of_ne hminus hplus, takeSign_of_ne hminus hplus]
  rfl

/-- Blanks have no sign. -/
theorem takeSign_of_isBlank {blanks : List Char} (h : ∀ c ∈ blanks, Text.isBlank c = true) :
    takeSign blanks = (false, blanks) := by
  cases blanks with
  | nil => rfl
  | cons c cs =>
    have hc : Text.isBlank c = true := h c List.mem_cons_self
    refine takeSign_of_ne ?_ ?_ cs
    · rintro rfl
      cases hc
    · rintro rfl
      cases hc

/-- A natural number has a first digit. -/
theorem exists_natChars_cons (n : Nat) : ∃ c ds, natChars n = c :: ds ∧ c.isDigit = true := by
  obtain ⟨c, ds, h⟩ := List.exists_cons_of_ne_nil (show natChars n ≠ [] from Nat.toDigits_ne_nil)
  exact ⟨c, ds, h, isDigit_of_mem_natChars (h ▸ List.mem_cons_self)⟩

/-- An integer starts with a digit or a minus sign. -/
theorem exists_intChars_cons (n : Int) : ∃ c w, intChars n = c :: w ∧ (c.isDigit = true ∨ c = '-') := by
  cases n with
  | ofNat n =>
    obtain ⟨c, ds, h, hc⟩ := exists_natChars_cons n
    exact ⟨c, ds, h, .inl hc⟩
  | negSucc n => exact ⟨'-', natChars (n + 1), rfl, .inr rfl⟩

/-- The sign and the digits of a number, whatever follows them. -/
theorem takeSign_intChars (n : Int) (rest : List Char) :
    takeSign (intChars n ++ rest) = (decide (n < 0), natChars n.natAbs ++ rest) := by
  cases n with
  | ofNat n =>
    obtain ⟨c, ds, h, hc⟩ := exists_natChars_cons n
    have hne : ∀ d, d.isDigit = false → c ≠ d := by
      rintro d hd rfl
      rw [hd] at hc
      cases hc
    rw [intChars, h, List.cons_append, takeSign_of_ne (hne '-' rfl) (hne '+' rfl), ← List.cons_append, ← h]
    rfl
  | negSucc n =>
    rw [decide_eq_true (Int.negSucc_lt_zero n)]
    rfl

/-- An integer is its sign and its magnitude. -/
theorem signed_natAbs (n : Int) : signed (decide (n < 0)) n.natAbs = n := by
  unfold signed
  split
  · rename_i h
    have := of_decide_eq_true h
    omega
  · rename_i h
    have := of_decide_eq_false (Bool.not_eq_true _ ▸ h)
    omega

/-- Different integers are written differently. -/
theorem intChars_injective : Function.Injective intChars := by
  intro m n h
  have hsign : (decide (m < 0), natChars m.natAbs) = (decide (n < 0), natChars n.natAbs) := by
    have hm := takeSign_intChars m []
    rw [h, takeSign_intChars n [], List.append_nil, List.append_nil] at hm
    exact hm.symm
  obtain ⟨hneg, habs⟩ := Prod.mk.inj hsign
  have hvalue : m.natAbs = n.natAbs := by
    rw [← ofDigits_map_natChars m.natAbs, habs, ofDigits_map_natChars]
  rw [← signed_natAbs m, hneg, hvalue, signed_natAbs]

/-- A written number, with or without blanks around it, is read exactly if it has not too many digits. -/
theorem readChars_padded_iff (n : Int) {before after : List Char} (hbefore : ∀ c ∈ before, Text.isNumeralBlank c = true)
    (hafter : ∀ c ∈ after, Text.isNumeralBlank c = true) :
    readChars (before ++ intChars n ++ after) = .ok n ↔ (natChars n.natAbs).length ≤ digitLimit := by
  have hdrop : (before ++ intChars n ++ after).dropWhile Text.isNumeralBlank = intChars n ++ after := by
    obtain ⟨c, w, hchars, hc⟩ := exists_intChars_cons n
    have hblank : Text.isNumeralBlank c = false := by
      rcases hc with hc | rfl
      · rw [Text.isNumeralBlank, not_isBlank_of_isDigit hc, Bool.false_and]
      · rfl
    rw [List.append_assoc, List.dropWhile_append_of_pos hbefore, hchars, List.cons_append,
      List.dropWhile_cons_of_neg (by simp [hblank])]
  have hrun : digitRun false (natChars n.natAbs ++ after) =
      ((natChars n.natAbs).map (fun c => c.toNat - '0'.toNat), after) := by
    have hend : EndsDigits after := endsDigits_of_isBlank (fun c hc => isBlank_of_isNumeralBlank (hafter c hc))
    rw [digitRun_append hend, digitRun_of_isDigit (fun c hc => isDigit_of_mem_natChars hc), List.nil_append]
  rw [readChars_eq_ok_iff, hdrop]
  constructor
  · rintro ⟨negative, body, ds, rest, hsign, hdigits, -, hlimit, -⟩
    rw [takeSign_intChars] at hsign
    cases hsign
    rw [hrun] at hdigits
    cases hdigits
    rwa [List.length_map] at hlimit
  · intro hlimit
    refine ⟨_, _, _, _, takeSign_intChars n after, hrun, ?_, by rwa [List.length_map], hafter, ?_⟩
    · exact mt List.map_eq_nil_iff.1 Nat.toDigits_ne_nil
    · rw [ofDigits_map_natChars, signed_natAbs]

/-- Blanks at the end of a text that is read as a number can be taken off. -/
theorem readChars_of_append {cs blanks : List Char} {n : Int} (hblanks : ∀ c ∈ blanks, Text.isBlank c = true)
    (h : readChars (cs ++ blanks) = .ok n) : readChars cs = .ok n := by
  obtain ⟨negative, body, ds, rest, hsign, hrun, hne, hlimit, hrest, rfl⟩ := readChars_eq_ok_iff.1 h
  rw [List.dropWhile_append] at hsign
  split at hsign
  · -- there would be no digits among blanks alone
    have hblank : ∀ c ∈ blanks.dropWhile Text.isNumeralBlank, Text.isBlank c = true :=
      fun c hc => hblanks c ((List.dropWhile_suffix _).subset hc)
    rw [takeSign_of_isBlank hblank] at hsign
    cases hsign
    rw [digitRun_of_endsDigits (endsDigits_of_isBlank hblank)] at hrun
    cases hrun
    exact absurd rfl hne
  · rename_i hcs
    rw [takeSign_append (fun hnil => hcs (by rw [hnil]; rfl))] at hsign
    cases hsign
    rw [digitRun_append (endsDigits_of_isBlank hblanks)] at hrun
    cases hrun
    exact readChars_eq_ok_iff.2 ⟨_, _, _, _, rfl, rfl, hne, hlimit, fun c hc => hrest c (List.mem_append_left _ hc), rfl⟩

/-! ## Numbers that can be written -/

/-- A number can be written exactly if it has at most `digitLimit` digits. -/
theorem isWritable_iff (n : Int) : isWritable n = true ↔ n.natAbs < 10 ^ digitLimit := by
  rw [isWritable, decide_eq_true_iff]
  exact Nat.length_toDigits_le_iff (by decide) (by decide)

/-- A power of ten has one digit more than the numbers below it. -/
theorem not_natAbs_pow_lt (digits : Nat) : ¬((10 : Int) ^ digits).natAbs < 10 ^ digits := by
  rw [Int.natAbs_pow]
  exact Nat.lt_irrefl (10 ^ digits)

/-- The value of a digit is below ten. -/
theorem digitValue?_lt {c : Char} {d : Nat} (h : Text.digitValue? c = some d) : d < 10 := by
  obtain ⟨z, hz, rfl⟩ := Option.map_eq_some_iff.1 h
  have hrange := List.find?_some hz
  simp only [Bool.and_eq_true, decide_eq_true_eq] at hrange
  omega

/-- So are the values of a run of digits. -/
theorem digitRun_lt (afterDigit : Bool) (cs : List Char) : ∀ d ∈ (digitRun afterDigit cs).1, d < 10 := by
  induction cs generalizing afterDigit with
  | nil => simp [digitRun]
  | cons c cs ih =>
    rw [digitRun]
    split
    · rename_i d hd
      exact List.forall_mem_cons.2 ⟨digitValue?_lt hd, ih true⟩
    · split
      · split
        · simp
        · exact ih false
      · simp

/-- A number has no more digits than it is written with. -/
theorem ofDigits_lt {ds : List Nat} (h : ∀ d ∈ ds, d < 10) : ofDigits ds < 10 ^ ds.length := by
  -- the digits that were read before count as a number above
  suffices key : ∀ n, ds.foldl (fun n d => 10 * n + d) n < (n + 1) * 10 ^ ds.length by
    simpa [ofDigits] using key 0
  induction ds with
  | nil => simp
  | cons d ds ih =>
    obtain ⟨hd, hds⟩ := List.forall_mem_cons.1 h
    intro n
    calc (d :: ds).foldl (fun n d => 10 * n + d) n
        < (10 * n + d + 1) * 10 ^ ds.length := ih hds (10 * n + d)
      _ ≤ (10 * (n + 1)) * 10 ^ ds.length := Nat.mul_le_mul_right _ (by omega)
      _ = (n + 1) * 10 ^ (d :: ds).length := by rw [List.length_cons, Nat.pow_succ]; ring

/-- A sign does not change the magnitude. -/
theorem natAbs_signed (negative : Bool) (n : Nat) : (signed negative n).natAbs = n := by
  cases negative
  · rfl
  · exact Int.natAbs_neg n

/-- Every number that was read can be written. -/
theorem isWritable_of_readChars {cs : List Char} {n : Int} (h : readChars cs = .ok n) : isWritable n = true := by
  obtain ⟨negative, body, ds, rest, -, hrun, -, hlimit, -, rfl⟩ := readChars_eq_ok_iff.1 h
  have hdigits : ∀ d ∈ ds, d < 10 := by
    have hlt := digitRun_lt false body
    rwa [hrun] at hlt
  rw [isWritable_iff, natAbs_signed]
  exact (ofDigits_lt hdigits).trans_le (Nat.pow_le_pow_right (by decide) hlimit)

end FormatAudit.Number

namespace FormatAudit

variable {numbers : List Int} {text : String}

/-- A text is written, and as it is, exactly if all its numbers can be. -/
theorem textShowing_eq_ok_iff {written : String} :
    textShowing numbers text = .ok written ↔ (∀ n ∈ numbers, Number.isWritable n = true) ∧ text = written := by
  rw [textShowing, ← List.all_eq_true]
  split
  · rename_i hall
    simp [hall]
  · rename_i hall
    simp [hall]

/-- There is one reason not to write a text. -/
theorem fault_of_textShowing {fault : Fault} (h : textShowing numbers text = .error fault) : fault = .tooManyDigits := by
  unfold textShowing at h
  split at h
  · cases h
  · cases h
    rfl

end FormatAudit
