import Mathlib
import FormatAudit.Settings.Functions
import FormatAudit.Proofs.Numerals
import FormatAudit.Proofs.Steps
import FormatAudit.Proofs.Tables

/-!
# Lists of functions

A list of functions is a text with commas. What stands between two commas is blank or spells one function (`Spells`): a name,
or a name, a colon and the place of its format, with blanks around them. `parseFunctions_eq_ok_iff` says which lists are read and
as what, `parseFunctions_error_iff` which are refused.

Lists are written from pieces that are blank or spell a function with spaces and tabs for blanks (`ListPiece`). Each of them is
read back (`ListPiece.parseFunctions_listText`), but other blanks are taken off as well (`other_blanks_taken_off`).
-/

namespace FormatAudit

/-! ## Trimming -/

namespace Text

/-- A text of blanks. -/
def AllBlank (cs : List Char) : Prop :=
  ∀ c ∈ cs, isBlank c = true

instance (cs : List Char) : Decidable (AllBlank cs) :=
  List.decidableBAll _ cs

/-- Trimming drops blanks on the left and then on the right. -/
theorem trimChars_eq (cs : List Char) : trimChars cs = (cs.dropWhile isBlank).rdropWhile isBlank := rfl

/-- What is trimmed off a text are blanks on both sides. -/
theorem exists_trimChars (cs : List Char) :
    ∃ before after, AllBlank before ∧ AllBlank after ∧ cs = before ++ trimChars cs ++ after := by
  refine ⟨cs.takeWhile isBlank, (cs.dropWhile isBlank).rtakeWhile isBlank, fun c hc => List.mem_takeWhile_imp hc,
    fun c hc => List.mem_rtakeWhile_imp hc, ?_⟩
  rw [trimChars_eq, List.append_assoc, List.rdropWhile_append_rtakeWhile, List.takeWhile_append_dropWhile]

/-- Blanks at the end are dropped on the right. -/
theorem AllBlank.rdropWhile_append {blanks : List Char} (h : AllBlank blanks) (cs : List Char) :
    (cs ++ blanks).rdropWhile isBlank = cs.rdropWhile isBlank := by
  have hreverse : ∀ c ∈ blanks.reverse, isBlank c = true := fun c hc => h c (List.mem_reverse.1 hc)
  rw [List.rdropWhile, List.reverse_append, List.dropWhile_append_of_pos hreverse]
  rfl

/-- Blanks at the start do not matter for trimming. -/
theorem AllBlank.trimChars_append_left {blanks : List Char} (h : AllBlank blanks) (cs : List Char) :
    trimChars (blanks ++ cs) = trimChars cs := by
  rw [trimChars_eq, List.dropWhile_append_of_pos h, trimChars_eq]

/-- Neither do blanks at the end. -/
theorem AllBlank.trimChars_append_right {blanks : List Char} (h : AllBlank blanks) (cs : List Char) :
    trimChars (cs ++ blanks) = trimChars cs := by
  rw [trimChars_eq, trimChars_eq, List.dropWhile_append]
  split
  · rename_i hcs
    rw [List.isEmpty_iff.1 hcs]
    exact List.rdropWhile_eq_nil_iff.2 (fun c hc => h c ((List.dropWhile_suffix _).subset hc))
  · exact h.rdropWhile_append _

/-- Trimming is done at once. -/
theorem trimChars_trimChars (cs : List Char) : trimChars (trimChars cs) = trimChars cs := by
  obtain ⟨before, after, hbefore, hafter, hcs⟩ := exists_trimChars cs
  conv_rhs => rw [hcs, hafter.trimChars_append_right, hbefore.trimChars_append_left]

/-- A trimmed text starts with no blank. -/
theorem dropWhile_of_trimmed {cs : List Char} (h : trimChars cs = cs) : cs.dropWhile isBlank = cs := by
  apply (List.dropWhile_suffix isBlank).eq_of_length_le
  have hlength : ((cs.dropWhile isBlank).rdropWhile isBlank).length ≤ (cs.dropWhile isBlank).length :=
    (List.rdropWhile_prefix isBlank _).length_le
  rwa [← trimChars_eq, h] at hlength

/-- Only what stands after a character that is no blank is trimmed at the end. -/
theorem rdropWhile_append_cons {c : Char} (hc : isBlank c = false) (before after : List Char) :
    (before ++ c :: after).rdropWhile isBlank = before ++ c :: after.rdropWhile isBlank := by
  have hdrop : (c :: before.reverse).dropWhile isBlank = c :: before.reverse :=
    List.dropWhile_cons_of_neg (by simp [hc])
  have hreverse : (before ++ c :: after).reverse = after.reverse ++ c :: before.reverse := by simp
  rw [List.rdropWhile, hreverse, List.dropWhile_append, hdrop]
  split
  · rename_i hafter
    simp [List.rdropWhile, List.isEmpty_iff.1 hafter]
  · simp [List.rdropWhile]

/-- A trimmed name keeps its place before a character that is no blank. -/
theorem trimChars_append_cons {name : List Char} {c : Char} (hname : name ≠ []) (htrimmed : trimChars name = name)
    (hc : isBlank c = false) (between after : List Char) :
    trimChars (name ++ between ++ c :: after) = name ++ between ++ c :: after.rdropWhile isBlank := by
  have hdrop : (name ++ (between ++ c :: after)).dropWhile isBlank = name ++ (between ++ c :: after) := by
    rw [List.dropWhile_append, dropWhile_of_trimmed htrimmed, if_neg (mt List.isEmpty_iff.1 hname)]
  rw [List.append_assoc, trimChars_eq, hdrop, ← List.append_assoc, rdropWhile_append_cons hc, List.append_assoc]

/-- Nothing is left of a text if it is all blank. -/
theorem trimChars_eq_nil_iff {cs : List Char} : trimChars cs = [] ↔ AllBlank cs := by
  constructor
  · intro h
    obtain ⟨before, after, hbefore, hafter, hcs⟩ := exists_trimChars cs
    rw [hcs, h, List.append_nil]
    exact List.forall_mem_append.2 ⟨hbefore, hafter⟩
  · intro h
    have hall := AllBlank.trimChars_append_left h []
    rwa [List.append_nil] at hall

end Text

/-! ## Splitting -/

/-- Splitting at commas is the usual splitting of lists. -/
theorem splitCommas_eq (cs : List Char) : splitCommas cs = cs.splitOn ',' := by
  induction cs with
  | nil => rfl
  | cons c cs ih =>
    have hstep : (c :: cs).splitOn ',' =
        if (c == ',') = true then [] :: cs.splitOn ',' else (cs.splitOn ',').modifyHead (List.cons c) :=
      List.splitOnP_cons_eq_if_modifyHead c cs
    rw [splitCommas, ih, hstep]
    by_cases hc : c = ','
    · rw [if_pos hc, if_pos (beq_iff_eq.2 hc)]
    · rw [if_neg hc, if_neg (mt beq_iff_eq.1 hc)]
      cases h : cs.splitOn ',' with
      | nil => exact absurd h (List.splitOn_ne_nil ',' cs)
      | cons piece pieces => rfl

/-- A text without a colon is not split. -/
theorem splitColon_of_not_mem {cs : List Char} (h : ':' ∉ cs) : splitColon cs = (cs, none) := by
  induction cs with
  | nil => rfl
  | cons c cs ih =>
    obtain ⟨hc, hcs⟩ := not_or.1 (mt List.mem_cons.2 h)
    rw [splitColon, if_neg (Ne.symm hc), ih hcs]

/-- A text is split at its first colon. -/
theorem splitColon_append {cs : List Char} (h : ':' ∉ cs) (rest : List Char) :
    splitColon (cs ++ ':' :: rest) = (cs, some rest) := by
  induction cs with
  | nil => rfl
  | cons c cs ih =>
    obtain ⟨hc, hcs⟩ := not_or.1 (mt List.mem_cons.2 h)
    rw [List.cons_append, splitColon, if_neg (Ne.symm hc), ih hcs]

/-- A text has no colon, or it is split at its first one. -/
theorem splitColon_cases (cs : List Char) :
    (':' ∉ cs ∧ splitColon cs = (cs, none)) ∨
      ∃ name rest, ':' ∉ name ∧ cs = name ++ ':' :: rest ∧ splitColon cs = (name, some rest) := by
  by_cases h : ':' ∈ cs
  · obtain ⟨name, rest, rfl, hname⟩ := List.eq_append_cons_of_mem h
    exact .inr ⟨name, rest, hname, rfl, splitColon_append hname rest⟩
  · exact .inl ⟨h, splitColon_of_not_mem h⟩

/-! ## Reading one after the other -/

section All

variable {ε α β : Type}

/-- A list is read exactly if each of its items is. -/
theorem all_eq_ok_iff (read : α → Except ε β) (readAll : List α → Except ε (List β)) (hnil : readAll [] = .ok [])
    (hcons : ∀ a l, readAll (a :: l) = (do let b ← read a; let bs ← readAll l; pure (b :: bs))) {l : List α} {bs : List β} :
    readAll l = .ok bs ↔ List.Forall₂ (fun a b => read a = .ok b) l bs := by
  induction l generalizing bs with
  | nil =>
    rw [hnil, List.forall₂_nil_left_iff, Except.ok.injEq, eq_comm]
  | cons a l ih =>
    rw [hcons, except_bind_eq_ok, List.forall₂_cons_left_iff]
    constructor
    · rintro ⟨b, hb, hrest⟩
      obtain ⟨more, hmore, hbs⟩ := except_bind_eq_ok.1 hrest
      cases hbs
      exact ⟨b, more, hb, ih.1 hmore, rfl⟩
    · rintro ⟨b, more, hb, hmore, rfl⟩
      exact ⟨b, hb, except_bind_eq_ok.2 ⟨more, ih.2 hmore, rfl⟩⟩

/-- Lists are related to some list if each item is related to something. -/
theorem exists_forall₂_iff {r : α → β → Prop} {l : List α} : (∃ l', List.Forall₂ r l l') ↔ ∀ a ∈ l, ∃ b, r a b := by
  induction l with
  | nil => simp
  | cons a l ih =>
    rw [List.forall_mem_cons, ← ih]
    constructor
    · rintro ⟨l', h⟩
      obtain ⟨b, l', hab, hl, rfl⟩ := List.forall₂_cons_left_iff.1 h
      exact ⟨⟨b, hab⟩, l', hl⟩
    · rintro ⟨⟨b, hab⟩, l', hl⟩
      exact ⟨b :: l', .cons hab hl⟩

/-- What follows from the relation holds of every related item. -/
theorem forall_mem_of_forall₂ {r : α → β → Prop} {l : List α} {l' : List β} (h : List.Forall₂ r l l') {p : β → Prop}
    (hr : ∀ a b, r a b → p b) : ∀ b ∈ l', p b := by
  induction h with
  | nil => simp
  | cons hab _ ih => exact List.forall_mem_cons.2 ⟨hr _ _ hab, ih⟩

end All

/-! ## One function -/

/-- A name that a function can have: it starts with a letter or an underscore, and has no colon and no blanks around it. -/
structure IsFunctionName (name : List Char) : Prop where
  starts : startsLikeName name = true
  noColon : ':' ∉ name
  trimmed : Text.trimChars name = name

/-- A name of a function is not empty. -/
theorem IsFunctionName.ne_nil {name : List Char} (h : IsFunctionName name) : name ≠ [] := by
  rintro rfl
  cases h.starts

/-- A text spells a function: its name, or its name, a colon and a text that is read as a number that is not negative. Characters
of the class `pad` may stand around the name and at the end. -/
inductive Spells (pad : Char → Prop) : List Char → FunctionSpec → Prop where
  | bare {before name after : List Char} (hbefore : ∀ c ∈ before, pad c) (hname : IsFunctionName name)
      (hafter : ∀ c ∈ after, pad c) : Spells pad (before ++ name ++ after) (String.ofList name, none)
  | placed {before name between index after : List Char} {n : Int} (hbefore : ∀ c ∈ before, pad c)
      (hname : IsFunctionName name) (hbetween : ∀ c ∈ between, pad c) (hindex : Number.readChars index = .ok n) (hn : 0 ≤ n)
      (hafter : ∀ c ∈ after, pad c) :
      Spells pad (before ++ (name ++ between ++ ':' :: index) ++ after) (String.ofList name, some n)

namespace FunctionSpec

/-- A text is parsed if it is a name, with or without an index that is not negative. -/
theorem parse_eq_ok_iff {s : String} {spec : FunctionSpec} :
    parse s = .ok spec ↔ ∃ name index, splitColon (Text.trimChars s.toList) = (name, index) ∧
      startsLikeName (Text.trimChars name) = true ∧ spec.1 = String.ofList (Text.trimChars name) ∧
      ((index = none ∧ spec.2 = none) ∨
        ∃ digits n, index = some digits ∧ Number.readChars digits = .ok n ∧ 0 ≤ n ∧ spec.2 = some n) := by
  rcases hsplit : splitColon (Text.trimChars s.toList) with ⟨name, index⟩
  constructor
  · intro h
    refine ⟨name, index, rfl, ?_⟩
    simp only [parse, hsplit] at h
    split at h
    · cases h
    · rename_i hstarts
      refine ⟨by simpa using hstarts, ?_⟩
      cases index with
      | none =>
        cases h
        exact ⟨rfl, .inl ⟨rfl, rfl⟩⟩
      | some digits =>
        simp only at h
        split at h
        · cases h
        · rename_i n hread
          split at h
          · cases h
          · rename_i hn
            cases h
            exact ⟨rfl, .inr ⟨digits, n, rfl, hread, Int.not_lt.1 hn, rfl⟩⟩
  · obtain ⟨first, second⟩ := spec
    rintro ⟨name', index', heq, hstarts, hfirst, hsecond⟩
    cases heq
    simp only at hfirst hsecond
    rcases hsecond with ⟨rfl, rfl⟩ | ⟨digits, n, rfl, hread, hn, rfl⟩
    · simp only [parse, hsplit, hstarts, hfirst]
      rfl
    · simp only [parse, hsplit, hstarts, hfirst, hread, if_neg (Int.not_lt.2 hn)]
      rfl

/-- Every spelling of a specification is parsed as it. -/
theorem parse_of_spells {s : String} {spec : FunctionSpec} (h : Spells (Text.isBlank · = true) s.toList spec) :
    parse s = .ok spec := by
  rw [parse_eq_ok_iff]
  generalize s.toList = cs at h
  cases h with
  | @bare before name after hbefore hname hafter =>
    have htrim : Text.trimChars (before ++ name ++ after) = name := by
      rw [Text.AllBlank.trimChars_append_right hafter, Text.AllBlank.trimChars_append_left hbefore, hname.trimmed]
    refine ⟨name, none, ?_, ?_, ?_, .inl ⟨rfl, rfl⟩⟩
    · rw [htrim, splitColon_of_not_mem hname.noColon]
    · rw [hname.trimmed, hname.starts]
    · rw [hname.trimmed]
  | @placed before name between index after n hbefore hname hbetween hindex hn hafter =>
    have htrim : Text.trimChars (before ++ (name ++ between ++ ':' :: index) ++ after) =
        name ++ between ++ ':' :: index.rdropWhile Text.isBlank := by
      rw [Text.AllBlank.trimChars_append_right hafter, Text.AllBlank.trimChars_append_left hbefore,
        Text.trimChars_append_cons hname.ne_nil hname.trimmed (by decide)]
    have hname' : Text.trimChars (name ++ between) = name := by
      rw [Text.AllBlank.trimChars_append_right hbetween, hname.trimmed]
    have hcolon : ':' ∉ name ++ between := by
      intro hmem
      rcases List.mem_append.1 hmem with hmem | hmem
      · exact hname.noColon hmem
      · cases hbetween ':' hmem
    have hdigits : Number.readChars (index.rdropWhile Text.isBlank) = .ok n := by
      have hblanks : ∀ c ∈ index.rtakeWhile Text.isBlank, Text.isBlank c = true := fun c hc => List.mem_rtakeWhile_imp hc
      apply Number.readChars_of_append hblanks
      rw [List.rdropWhile_append_rtakeWhile, hindex]
    refine ⟨name ++ between, some (index.rdropWhile Text.isBlank), ?_, ?_, ?_, .inr ⟨_, n, rfl, hdigits, hn, rfl⟩⟩
    · rw [htrim, splitColon_append hcolon]
    · rw [hname', hname.starts]
    · rw [hname']

/-- Whatever is parsed is a spelling of what it is parsed as. -/
theorem spells_of_parse {s : String} {spec : FunctionSpec} (h : parse s = .ok spec) :
    Spells (Text.isBlank · = true) s.toList spec := by
  obtain ⟨name, index, hsplit, hstarts, hfirst, hsecond⟩ := parse_eq_ok_iff.1 h
  generalize s.toList = cs at hsplit ⊢
  obtain ⟨before, after, hbefore, hafter, hcs⟩ := Text.exists_trimChars cs
  obtain ⟨first, second⟩ := spec
  rcases splitColon_cases (Text.trimChars cs) with ⟨hcolon, hnone⟩ | ⟨name', digits, hcolon, hcore, hsome⟩
  · rw [hsplit] at hnone
    cases hnone
    rcases hsecond with ⟨-, rfl⟩ | ⟨digits, n, hdigits, -⟩
    · rw [Text.trimChars_trimChars] at hstarts hfirst
      subst hfirst
      have hspells := Spells.bare hbefore ⟨hstarts, hcolon, Text.trimChars_trimChars cs⟩ hafter
      rwa [← hcs] at hspells
    · cases hdigits
  · rw [hsplit] at hsome
    cases hsome
    rcases hsecond with ⟨hdigits, -⟩ | ⟨digits', n, hdigits, hread, hn, rfl⟩
    · cases hdigits
    · cases hdigits
      subst hfirst
      obtain ⟨before', between, hbefore', hbetween, hname⟩ := Text.exists_trimChars name
      have hcolon' : ':' ∉ Text.trimChars name := by
        intro hmem
        apply hcolon
        rw [hname]
        exact List.mem_append_left _ (List.mem_append_right _ hmem)
      have hspells := Spells.placed (List.forall_mem_append.2 ⟨hbefore, hbefore'⟩)
        ⟨hstarts, hcolon', Text.trimChars_trimChars name⟩ hbetween hread hn hafter
      have htext : before ++ before' ++ (Text.trimChars name ++ between ++ ':' :: digits) ++ after = cs := by
        conv_rhs => rw [hcs, hcore, hname]
        simp only [List.append_assoc]
      rwa [htext] at hspells

/-- Parsing accepts exactly the spellings. -/
theorem parse_eq_ok_iff_spells {s : String} {spec : FunctionSpec} :
    parse s = .ok spec ↔ Spells (Text.isBlank · = true) s.toList spec :=
  ⟨spells_of_parse, parse_of_spells⟩

/-- Specifications are parsed one by one. -/
theorem parseAll_eq_ok_iff {specs : List String} {fs : List FunctionSpec} :
    parseAll specs = .ok fs ↔ List.Forall₂ (fun s f => parse s = .ok f) specs fs :=
  all_eq_ok_iff parse parseAll rfl (fun _ _ => rfl)

end FunctionSpec

/-- No spelling is blank. -/
theorem Spells.not_allBlank {cs : List Char} {spec : FunctionSpec} (h : Spells (Text.isBlank · = true) cs spec) :
    ¬Text.AllBlank cs := by
  intro hblank
  have hname : ∃ name, IsFunctionName name ∧ name ⊆ cs := by
    cases h with
    | @bare before name after _ hname _ =>
      exact ⟨name, hname, fun c hc => List.mem_append_left _ (List.mem_append_right _ hc)⟩
    | @placed before name between index after n _ hname _ _ _ _ =>
      exact ⟨name, hname, fun c hc => by simp [hc]⟩
  obtain ⟨name, hname, hsub⟩ := hname
  have hempty : Text.trimChars name = [] := Text.trimChars_eq_nil_iff.2 (fun c hc => hblank c (hsub hc))
  exact hname.ne_nil (hname.trimmed ▸ hempty)

/-! ## Lists -/

/-- The pieces of a text between commas that are not blank. -/
def spelledPieces (text : String) : List (List Char) :=
  (text.toList.splitOn ',').filter (fun piece => !(Text.trimChars piece).isEmpty)

/-- A piece counts if it is between commas and is not blank. -/
theorem mem_spelledPieces {text : String} {piece : List Char} :
    piece ∈ spelledPieces text ↔ piece ∈ text.toList.splitOn ',' ∧ ¬Text.AllBlank piece := by
  rw [spelledPieces, List.mem_filter, ← Text.trimChars_eq_nil_iff]
  simp

/-- The pieces that are parsed are the ones that are not blank. -/
theorem functionPieces_eq (text : String) : functionPieces text = (spelledPieces text).map String.ofList := by
  rw [functionPieces, splitCommas_eq, spelledPieces]

/-- A list is read exactly if each of its pieces that is not blank spells a function, and then it is the table of these. -/
theorem parseFunctions_eq_ok_iff {text : String} {t : Table String (Option Int)} :
    parseFunctions text = .ok t ↔
      ∃ fs, List.Forall₂ (Spells (Text.isBlank · = true)) (spelledPieces text) fs ∧ t = Table.putAll [] fs := by
  have hspells : ∀ fs, FunctionSpec.parseAll (functionPieces text) = .ok fs ↔
      List.Forall₂ (Spells (Text.isBlank · = true)) (spelledPieces text) fs := by
    intro fs
    rw [functionPieces_eq, FunctionSpec.parseAll_eq_ok_iff, List.forall₂_map_left_iff]
    simp only [FunctionSpec.parse_eq_ok_iff_spells, String.toList_ofList]
  rw [parseFunctions, except_bind_eq_ok]
  constructor
  · rintro ⟨fs, hfs, ht⟩
    exact ⟨fs, (hspells fs).1 hfs, (except_pure_eq_ok.1 ht).symm⟩
  · rintro ⟨fs, hfs, rfl⟩
    exact ⟨fs, (hspells fs).2 hfs, rfl⟩

/-- A list is refused exactly if one of its pieces is neither blank nor spells a function. -/
theorem parseFunctions_error_iff {text : String} :
    (∃ e, parseFunctions text = .error e) ↔
      ∃ piece ∈ text.toList.splitOn ',', ¬Text.AllBlank piece ∧ ¬∃ spec, Spells (Text.isBlank · = true) piece spec := by
  have hread : (∃ t, parseFunctions text = .ok t) ↔
      ∀ piece ∈ spelledPieces text, ∃ spec, Spells (Text.isBlank · = true) piece spec := by
    simp only [parseFunctions_eq_ok_iff, ← exists_forall₂_iff]
    constructor
    · rintro ⟨t, fs, hfs, -⟩
      exact ⟨fs, hfs⟩
    · rintro ⟨fs, hfs⟩
      exact ⟨_, fs, hfs, rfl⟩
  have herror : (∃ e, parseFunctions text = .error e) ↔ ¬∃ t, parseFunctions text = .ok t := by
    cases parseFunctions text <;> simp
  rw [herror, hread]
  simp only [mem_spelledPieces]
  push Not
  simp only [and_assoc]

/-! ## Writing lists -/

/-- Spaces and tabs. -/
structure Padding where
  chars : List Char
  plain : ∀ c ∈ chars, c = ' ' ∨ c = '\t'

/-- Padding can stand around a numeral. -/
theorem Padding.isNumeralBlank (pad : Padding) : ∀ c ∈ pad.chars, Text.isNumeralBlank c = true := by
  intro c hc
  rcases pad.plain c hc with rfl | rfl <;> rfl

/-- Padding is blank. -/
theorem Padding.isBlank (pad : Padding) : ∀ c ∈ pad.chars, Text.isBlank c = true :=
  fun c hc => Number.isBlank_of_isNumeralBlank (pad.isNumeralBlank c hc)

/-- A name that a function can have in a list. -/
structure ListedName where
  chars : List Char
  isName : IsFunctionName chars
  noComma : ',' ∉ chars

/-- One piece of a written list: blanks, a name, or a name with the place of its format. -/
inductive ListPiece where
  | blank (blanks : List Char) (hblanks : Text.AllBlank blanks)
  | bare (before : Padding) (name : ListedName) (after : Padding)
  | placed (before : Padding) (name : ListedName) (between left : Padding) (place : Nat)
      (hplace : (Number.natChars place).length ≤ Number.digitLimit) (right : Padding)

namespace ListPiece

/-- The text of a piece. -/
def chars : ListPiece → List Char
  | .blank blanks _ => blanks
  | .bare before name after => before.chars ++ name.chars ++ after.chars
  | .placed before name between left place _ right =>
    before.chars ++ (name.chars ++ between.chars ++ ':' :: (left.chars ++ Number.natChars place ++ right.chars))

/-- The function that a piece is about. -/
def spec? : ListPiece → Option FunctionSpec
  | .blank _ _ => none
  | .bare _ name _ => some (String.ofList name.chars, none)
  | .placed _ name _ _ place _ _ => some (String.ofList name.chars, some place)

/-- The text of a list. -/
def listText (pieces : List ListPiece) : String :=
  String.ofList ([','].intercalate (pieces.map chars))

/-- A piece with a specification spells it. -/
theorem spells {piece : ListPiece} {spec : FunctionSpec} (h : piece.spec? = some spec) :
    Spells (Text.isBlank · = true) piece.chars spec := by
  cases piece with
  | blank blanks hblanks => cases h
  | bare before name after =>
    cases h
    exact .bare before.isBlank name.isName after.isBlank
  | placed before name between left place hplace right =>
    cases h
    have hindex : Number.readChars (left.chars ++ Number.natChars place ++ right.chars) = .ok (place : Int) :=
      (Number.readChars_padded_iff place left.isNumeralBlank right.isNumeralBlank).2 hplace
    have hspells := Spells.placed before.isBlank name.isName between.isBlank hindex (Int.natCast_nonneg place)
      (show ∀ c ∈ [], Text.isBlank c = true by simp)
    rwa [List.append_nil] at hspells

/-- A piece without one is blank. -/
theorem allBlank {piece : ListPiece} (h : piece.spec? = none) : Text.AllBlank piece.chars := by
  cases piece with
  | blank blanks hblanks => exact hblanks
  | bare before name after => cases h
  | placed before name between left place hplace right => cases h

/-- No piece has a comma. -/
theorem comma_not_mem (piece : ListPiece) : ',' ∉ piece.chars := by
  have hpad : ∀ pad : Padding, ',' ∉ pad.chars := fun pad hmem => by cases pad.isBlank ',' hmem
  cases piece with
  | blank blanks hblanks =>
    intro hmem
    cases hblanks ',' hmem
  | bare before name after => simp [chars, hpad, name.noComma]
  | placed before name between left place hplace right =>
    have hdigits : ',' ∉ Number.natChars place := fun hmem => by cases Number.isDigit_of_mem_natChars hmem
    simp [chars, hpad, name.noComma, hdigits]

/-- The pieces that are about functions spell these, in order. -/
theorem forall₂_spells (pieces : List ListPiece) :
    List.Forall₂ (Spells (Text.isBlank · = true))
      ((pieces.map chars).filter (fun piece => !(Text.trimChars piece).isEmpty)) (pieces.filterMap spec?) := by
  induction pieces with
  | nil => exact .nil
  | cons piece pieces ih =>
    cases hspec : piece.spec? with
    | none =>
      have hempty : (Text.trimChars piece.chars).isEmpty = true :=
        List.isEmpty_iff.2 (Text.trimChars_eq_nil_iff.2 (allBlank hspec))
      rwa [List.map_cons, List.filter_cons_of_neg (by simp [hempty]), List.filterMap_cons_none hspec]
    | some spec =>
      have hfull : (Text.trimChars piece.chars).isEmpty = false := by
        rw [List.isEmpty_eq_false_iff]
        exact mt Text.trimChars_eq_nil_iff.1 (spells hspec).not_allBlank
      rw [List.map_cons, List.filter_cons_of_pos (by simp [hfull]), List.filterMap_cons_some hspec]
      exact .cons (spells hspec) ih

/-- A written list is parsed as the specifications of its pieces, the later ones in place of the earlier ones. -/
theorem parseFunctions_listText (pieces : List ListPiece) :
    parseFunctions (listText pieces) = .ok (Table.putAll [] (pieces.filterMap spec?)) := by
  refine parseFunctions_eq_ok_iff.2 ⟨pieces.filterMap spec?, ?_, rfl⟩
  cases pieces with
  | nil => exact .nil
  | cons piece pieces =>
    have hcommas : ∀ cs ∈ (piece :: pieces).map chars, ',' ∉ cs := by
      intro cs hcs
      obtain ⟨piece', -, rfl⟩ := List.mem_map.1 hcs
      exact piece'.comma_not_mem
    rw [spelledPieces, listText, String.toList_ofList, List.splitOn_intercalate ',' hcommas (by simp)]
    exact forall₂_spells (piece :: pieces)

end ListPiece

/-- Lists of functions are read back. A list that is written with blank pieces in between, and with spaces and tabs around names
and places, is read as the table of its functions, in which the last piece about a name wins. Conversely a list is refused
exactly if one of its pieces that are not blank spells no function, where blanks of any kind may stand around a name and at the
end of a piece. -/
theorem function_lists_read_back :
    (∀ pieces : List ListPiece, ∃ t, parseFunctions (ListPiece.listText pieces) = .ok t ∧ t.Distinct ∧
      ∀ name, Table.get? t name = (pieces.filterMap ListPiece.spec?).reverse.lookup name) ∧
    ∀ text, (∃ e, parseFunctions text = .error e) ↔
      ∃ piece ∈ text.toList.splitOn ',', ¬Text.AllBlank piece ∧ ¬∃ spec, Spells (Text.isBlank · = true) piece spec := by
  refine ⟨fun pieces => ⟨_, ListPiece.parseFunctions_listText pieces, Table.distinct_nil.putAll _, fun name => ?_⟩,
    fun text => parseFunctions_error_iff⟩
  rw [Table.get?_putAll]
  exact Option.or_none

/-! ## Other blanks -/

namespace Spells

variable {pad : Char → Prop}

/-- A spelled function begins with padding or with its name. -/
theorem pad_or_starts {c : Char} {cs : List Char} {spec : FunctionSpec} (h : Spells pad (c :: cs) spec) :
    pad c ∨ startsLikeName [c] = true := by
  have hparts : ∃ before name rest, (∀ c ∈ before, pad c) ∧ startsLikeName name = true ∧ c :: cs = before ++ (name ++ rest) := by
    generalize hcs : c :: cs = text at h
    cases h with
    | @bare before name after hbefore hname _ => exact ⟨before, name, after, hbefore, hname.starts, List.append_assoc _ _ _⟩
    | @placed before name between index after n hbefore hname _ _ _ _ =>
      exact ⟨before, name, between ++ ':' :: index ++ after, hbefore, hname.starts, by simp⟩
  obtain ⟨before, name, rest, hbefore, hname, hcs⟩ := hparts
  cases before with
  | cons b before =>
    cases hcs
    exact .inl (hbefore c List.mem_cons_self)
  | nil =>
    cases name with
    | nil => cases hname
    | cons d name =>
      cases hcs
      exact .inr hname

/-- What follows the first colon is read as a number, apart from padding at its end. -/
theorem index_of_colon (hpad : ¬pad ':') {name rest : List Char} (hname : ':' ∉ name) {spec : FunctionSpec}
    (h : Spells pad (name ++ ':' :: rest) spec) :
    ∃ index after n, rest = index ++ after ∧ (∀ c ∈ after, pad c) ∧ Number.readChars index = .ok n := by
  have hnot : ∀ cs : List Char, (∀ c ∈ cs, pad c) → ':' ∉ cs := fun cs hcs hmem => hpad (hcs ':' hmem)
  have hsplit := splitColon_append hname rest
  generalize name ++ ':' :: rest = text at h hsplit
  cases h with
  | @bare before name' after hbefore hname' hafter =>
    have hcolon : ':' ∉ before ++ name' ++ after := by simp [hnot before hbefore, hname'.noColon, hnot after hafter]
    rw [splitColon_of_not_mem hcolon] at hsplit
    cases hsplit
  | @placed before name' between index after n hbefore hname' hbetween hindex _ hafter =>
    have hcolon : ':' ∉ before ++ name' ++ between := by simp [hnot before hbefore, hname'.noColon, hnot between hbetween]
    have hparts := splitColon_append hcolon (index ++ after)
    rw [show before ++ name' ++ between ++ ':' :: (index ++ after) =
      before ++ (name' ++ between ++ ':' :: index) ++ after by simp, hsplit] at hparts
    cases hparts
    exact ⟨index, after, n, rfl, hafter, hindex⟩

end Spells

theorem isFunctionName_die : IsFunctionName ['d', 'i', 'e'] :=
  ⟨by decide +kernel, by decide, by decide⟩

/-- Spaces and tabs are not the only blanks: a line feed before a name and an information separator after a place are taken off
too, although the place is not read as a number with the separator. -/
theorem other_blanks_taken_off :
    (parseFunctions "\ndie" = .ok [("die", none)] ∧ ∃ piece ∈ "\ndie".toList.splitOn ',',
      ¬Text.AllBlank piece ∧ ¬∃ spec, Spells (fun c => c = ' ' ∨ c = '\t') piece spec) ∧
    parseFunctions "die:1\x1c" = .ok [("die", some 1)] ∧ ∃ piece ∈ "die:1\x1c".toList.splitOn ',',
      ¬Text.AllBlank piece ∧ ¬∃ spec, Spells (fun c => c = ' ' ∨ c = '\t') piece spec := by
  refine ⟨⟨?_, ['\n', 'd', 'i', 'e'], by decide, by decide, ?_⟩,
    ?_, ['d', 'i', 'e', ':', '1', '\x1c'], by decide, by decide, ?_⟩
  · have hspells : Spells (Text.isBlank · = true) (['\n'] ++ ['d', 'i', 'e'] ++ []) ("die", none) :=
      .bare (by simp [Text.isBlank]) isFunctionName_die (by simp)
    exact parseFunctions_eq_ok_iff.2 ⟨[("die", none)], .cons hspells .nil, rfl⟩
  · rintro ⟨spec, h⟩
    rcases h.pad_or_starts with hpad | hstarts
    · revert hpad
      decide
    · revert hstarts
      decide +kernel
  · have hspells : Spells (Text.isBlank · = true) ([] ++ (['d', 'i', 'e'] ++ [] ++ ':' :: ['1']) ++ ['\x1c']) ("die", some 1) :=
      .placed (by simp) isFunctionName_die (by simp) (by rfl) (by decide) (by simp [Text.isBlank])
    exact parseFunctions_eq_ok_iff.2 ⟨[("die", some 1)], .cons hspells .nil, rfl⟩
  · rintro ⟨spec, h⟩
    obtain ⟨index, after, n, hrest, hafter, hindex⟩ :=
      Spells.index_of_colon (by decide) (show ':' ∉ ['d', 'i', 'e'] by decide) h
    rcases List.eq_nil_or_concat after with rfl | ⟨after, c, rfl⟩
    · rw [List.append_nil] at hrest
      rw [← hrest] at hindex
      cases hindex
    · have hlast : c = '\x1c' := by
        have := congrArg List.getLast? hrest
        simpa using this.symm
      rcases hafter c (by simp) with h | h
      · cases h.symm.trans hlast
      · cases h.symm.trans hlast

end FormatAudit
