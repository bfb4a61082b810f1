import Mathlib
import FormatAudit.Finding.Form
import FormatAudit.Proofs.WrittenForms

/-!
# Printed findings

A finding printed as an S-expression can be read by the reader of settings files, and shows all that the form of a finding holds
(`printed_finding_reads_back`). A finding with a number of too many digits is not printed (`long_line_not_printed`).
-/

namespace FormatAudit.Finding

/-- The names in the forms of findings. -/
def formNames : List String :=
  ["diagnostic", "id", "severity", "file", "line", "column", "message", "cwe", "note"] ++ Severity.all.map Severity.name

/-- The words of the form of a finding are names. -/
theorem isName_of_mem_formNames {name : String} (h : name ∈ formNames) : SExpr.IsName name := by
  have hchars : formNames.all (fun name => name.toList.all SExpr.isAtomChar) = true := by decide
  have hstart : formNames.all (fun name => name.toList.head?.any SExpr.startsName) = true := by decide
  have hsymbol : ∀ name ∈ formNames, SExpr.ofAtom name = .symbol name := by
    simp only [formNames, Severity.all, List.map_cons, List.map_nil, List.cons_append, List.nil_append, List.forall_mem_cons,
      Severity.name]
    exact ⟨rfl, rfl, rfl, rfl, rfl, rfl, rfl, rfl, rfl, rfl, rfl, rfl, rfl, rfl, rfl, List.forall_mem_nil _⟩
  exact ⟨List.all_eq_true.1 hchars name h, List.all_eq_true.1 hstart name h, hsymbol name h⟩

/-- The name of a severity is one of them. -/
theorem severityName_mem_formNames (s : Severity) : s.name ∈ formNames := by
  cases s <;> decide

/-- An entry with such a word is plain if its values are. -/
theorem plain_entry {name : String} (h : name ∈ formNames) {values : List SExpr} (hvalues : ∀ x ∈ values, SExpr.Plain x) :
    SExpr.Plain (.list (.symbol name :: values)) :=
  .list (List.forall_mem_cons.2 ⟨.symbol (isName_of_mem_formNames h), hvalues⟩)

/-- The form of a finding is plain. -/
theorem plain_form (f : Finding) : SExpr.Plain f.form := by
  have hone : ∀ {name : String} {x : SExpr}, name ∈ formNames → SExpr.Plain x → SExpr.Plain (.list [.symbol name, x]) := by
    intro name x hname hx
    exact plain_entry hname (List.forall_mem_singleton.2 hx)
  refine plain_entry (by decide) (List.forall_mem_append.2 ⟨List.forall_mem_append.2 ⟨?_, ?_⟩, ?_⟩)
  · simp only [List.forall_mem_cons]
    exact ⟨hone (by decide) (.string _), hone (by decide) (.symbol (isName_of_mem_formNames (severityName_mem_formNames _))),
      hone (by decide) (.string _), hone (by decide) (.whole _), hone (by decide) (.whole _), hone (by decide) (.string _),
      List.forall_mem_nil _⟩
  · split
    · exact List.forall_mem_nil _
    · exact List.forall_mem_singleton.2 (hone (by decide) (.whole _))
  · intro x hx
    obtain ⟨n, -, rfl⟩ := List.mem_map.1 hx
    refine plain_entry (by decide) ?_
    simp only [List.forall_mem_cons]
    exact ⟨.string _, .whole _, .whole _, .string _, List.forall_mem_nil _⟩

/-- The numbers that a finding shows. -/
def numbers (f : Finding) : List Int :=
  [f.location.line, f.location.column, f.cwe] ++ f.notes.flatMap (fun n => [n.location.line, n.location.column])

/-- The numbers of the form are those of the finding, but for a missing weakness. -/
theorem forall_numbers_form_iff (f : Finding) {p : Int → Prop} (hzero : p 0) :
    (∀ n ∈ f.form.numbers, p n) ↔ ∀ n ∈ f.numbers, p n := by
  by_cases hcwe : f.cwe = 0
  · simp [form, numbers, SExpr.numbers, SExpr.numbersOfAll, SExpr.numbersOfAll_eq, hcwe, hzero, List.flatMap_map]
  · simp [form, numbers, SExpr.numbers, SExpr.numbersOfAll, SExpr.numbersOfAll_eq, hcwe, List.flatMap_map]

/-- A finding is printed, as the text of its form, exactly if its numbers are short enough. -/
theorem sexp_eq_ok_iff (f : Finding) {text : String} :
    f.sexp = .ok text ↔ (∀ n ∈ f.numbers, n.natAbs < 10 ^ Number.digitLimit) ∧ f.form.text = text := by
  have hzero : (0 : Int).natAbs < 10 ^ Number.digitLimit := Nat.pow_pos (by decide)
  rw [sexp, SExpr.write, textShowing_eq_ok_iff]
  simp only [Number.isWritable_iff]
  rw [forall_numbers_form_iff f (p := fun n => n.natAbs < 10 ^ Number.digitLimit) hzero]

/-- What is printed is read as the form of the finding. -/
theorem read_of_sexp {f : Finding} {text : String} (h : f.sexp = .ok text) : SExpr.read text = .ok f.form := by
  have hnumbers : ∀ n ∈ f.form.numbers, n.natAbs < 10 ^ Number.digitLimit := by
    intro n hn
    exact (Number.isWritable_iff n).1 ((textShowing_eq_ok_iff.1 h).1 n hn)
  obtain ⟨-, rfl⟩ := textShowing_eq_ok_iff.1 h
  have hself : f.form.readBack = f.form := f.plain_form.readBack_eq_self_iff.2 hnumbers
  have hread : SExpr.read f.form.text = .ok f.form.readBack := SExpr.read_text_list f.plain_form
  rw [hread, hself]

/-- A severity is read from its name. -/
theorem ofName_name (s : Severity) : Severity.ofName s.name = .ok s := by
  cases s <;> rfl

/-- Severities are told by their names. -/
theorem severityName_inj {s t : Severity} (h : s.name = t.name) : s = t := by
  have hs := ofName_name s
  rw [h, ofName_name] at hs
  exact (Except.ok.inj hs).symm

/-- The entry for a weakness. -/
def weaknessEntries (cwe : Int) : List SExpr :=
  if cwe = 0 then [] else [.list [.symbol "cwe", .whole cwe]]

/-- The entry for a note. -/
def noteEntry (note : Location × String) : SExpr :=
  .list [.symbol "note", .string note.1.file, .whole note.1.line, .whole note.1.column, .string note.2]

/-- Notes are told by their entries. -/
theorem noteEntry_injective : Function.Injective noteEntry := by
  rintro ⟨⟨file, line, column⟩, message⟩ ⟨⟨file', line', column'⟩, message'⟩ h
  simpa [noteEntry, and_assoc] using h

/-- The entry of a note is not that of a weakness. -/
theorem noteEntry_ne_weakness (note : Location × String) (cwe : Int) : noteEntry note ≠ .list [.symbol "cwe", .whole cwe] := by
  intro h
  simp [noteEntry] at h

/-- The entries at the end of a form tell the weakness and the notes. -/
theorem entries_inj {c d : Int} {ns ms : List (Location × String)}
    (h : weaknessEntries c ++ ns.map noteEntry = weaknessEntries d ++ ms.map noteEntry) : c = d ∧ ns = ms := by
  unfold weaknessEntries at h
  split at h
  · rename_i hc
    split at h
    · -- neither has a weakness: only the notes are left
      rename_i hd
      exact ⟨hc.trans hd.symm, List.map_injective_iff.2 noteEntry_injective h⟩
    · cases ns with
      | nil => cases h
      | cons n ns => exact absurd (List.cons.inj h).1 (noteEntry_ne_weakness n d)
  · split at h
    · cases ms with
      | nil => cases h
      | cons m ms => exact absurd (List.cons.inj h).1.symm (noteEntry_ne_weakness m c)
    · obtain ⟨hhead, htail⟩ := List.cons.inj h
      exact ⟨by simpa using hhead, List.map_injective_iff.2 noteEntry_injective htail⟩

/-- The form of a finding has its fixed entries first, then the weakness if there is one, and then the notes. -/
theorem form_eq (f : Finding) :
    f.form = .list (([.symbol "diagnostic", .list [.symbol "id", .string f.errorId],
        .list [.symbol "severity", .symbol f.severity.name], .list [.symbol "file", .string f.location.file],
        .list [.symbol "line", .whole f.location.line], .list [.symbol "column", .whole f.location.column],
        .list [.symbol "message", .string f.message]] : List SExpr) ++
      (weaknessEntries f.cwe ++ (f.notes.map (fun n => (n.location, n.message))).map noteEntry)) := by
  rw [form, List.append_assoc, List.map_map]
  rfl

/-- The form shows the identifier, the severity, the place, the message, the weakness and the notes, and nothing else. -/
theorem form_eq_iff (f g : Finding) :
    f.form = g.form ↔ f.errorId = g.errorId ∧ f.severity = g.severity ∧ f.location = g.location ∧ f.message = g.message ∧
      f.cwe = g.cwe ∧ f.notes.map (fun n => (n.location, n.message)) = g.notes.map (fun n => (n.location, n.message)) := by
  constructor
  · intro h
    rw [form_eq, form_eq, SExpr.list.injEq] at h
    obtain ⟨hhead, htail⟩ := List.append_inj h rfl
    obtain ⟨hcwe, hnotes⟩ := entries_inj htail
    simp only [List.cons.injEq, SExpr.list.injEq, SExpr.string.injEq, SExpr.symbol.injEq, SExpr.whole.injEq, and_true,
      true_and] at hhead
    obtain ⟨hid, hseverity, hfile, hline, hcolumn, hmessage⟩ := hhead
    have hlocation : f.location = g.location := by
      rw [show f.location = ⟨f.location.file, f.location.line, f.location.column⟩ from rfl, hfile, hline, hcolumn]
    exact ⟨hid, severityName_inj hseverity, hlocation, hmessage, hcwe, hnotes⟩
  · rintro ⟨hid, hseverity, hlocation, hmessage, hcwe, hnotes⟩
    rw [form_eq, form_eq, hid, hseverity, hlocation, hmessage, hcwe, hnotes]

/-- How findings are printed as S-expressions.

* A finding is printed exactly if no number that it shows has more digits than can be written.
* The reader makes of what is printed exactly the form that starts with `diagnostic` and has the identifier, the severity, the
  file, the line, the column and the message of the finding, whatever characters they have, then the weakness if there is one,
  then one entry for each note in order.
* Two findings are printed alike if and only if they agree in all of this. -/
theorem printed_finding_reads_back (f : Finding) :
    ((∃ text, f.sexp = .ok text) ↔ ∀ n ∈ f.numbers, n.natAbs < 10 ^ Number.digitLimit) ∧
    (∀ fault, f.sexp = .error fault → fault = .tooManyDigits) ∧
    ∀ text, f.sexp = .ok text →
      SExpr.read text = .ok (.list (
        ([.symbol "diagnostic",
          .list [.symbol "id", .string f.errorId],
          .list [.symbol "severity", .symbol f.severity.name],
          .list [.symbol "file", .string f.location.file],
          .list [.symbol "line", .whole f.location.line],
          .list [.symbol "column", .whole f.location.column],
          .list [.symbol "message", .string f.message]] : List SExpr) ++
        (if f.cwe = 0 then [] else [.list [.symbol "cwe", .whole f.cwe]] : List SExpr) ++
        (f.notes.map (fun n => .list [.symbol "note", .string n.location.file, .whole n.location.line,
          .whole n.location.column, .string n.message]) : List SExpr))) ∧
      ∀ g : Finding, g.sexp = .ok text ↔
        f.errorId = g.errorId ∧ f.severity = g.severity ∧ f.location = g.location ∧ f.message = g.message ∧ f.cwe = g.cwe ∧
          f.notes.map (fun n => (n.location, n.message)) = g.notes.map (fun n => (n.location, n.message)) := by
  refine ⟨?_, fun fault => fault_of_textShowing, fun text htext => ⟨read_of_sexp htext, fun g => ?_⟩⟩
  · simp only [sexp_eq_ok_iff, exists_and_left, exists_eq', and_true]
  · rw [← form_eq_iff]
    constructor
    · intro hg
      refine f.plain_form.text_inj g.plain_form ?_
      rw [(f.sexp_eq_ok_iff.1 htext).2, (g.sexp_eq_ok_iff.1 hg).2]
    · intro h
      rw [sexp, ← h]
      exact htext

/-- A finding with notes, whose texts hold a quote, a backslash and a line feed. -/
def notedFinding : Finding :=
  { errorId := formatErrorId, message := "a\"b\\c\n", severity := .warning, location := { file := "a.c", line := 3, column := 1 },
    cwe := uncontrolledFormat, notes := [{ location := { file := "b.h", line := 7 }, message := "defined here" }] }

/-- It is printed and read back with its weakness and its note. -/
theorem noted_finding_read : ∃ text, notedFinding.sexp = .ok text ∧
    SExpr.read text = .ok (.list [.symbol "diagnostic", .list [.symbol "id", .string "variableFormat"],
      .list [.symbol "severity", .symbol "warning"], .list [.symbol "file", .string "a.c"], .list [.symbol "line", .whole 3],
      .list [.symbol "column", .whole 1], .list [.symbol "message", .string "a\"b\\c\n"], .list [.symbol "cwe", .whole 134],
      .list [.symbol "note", .string "b.h", .whole 7, .whole 0, .string "defined here"]]) := by
  obtain ⟨hprinted, -, hread⟩ := printed_finding_reads_back notedFinding
  obtain ⟨text, htext⟩ := hprinted.2 (by
    have hsmall : ∀ n ∈ notedFinding.numbers, n.natAbs < 10 ^ 3 := by decide
    exact fun n hn => (hsmall n hn).trans_le (Nat.pow_le_pow_right (by decide) (by decide)))
  exact ⟨text, htext, (hread text htext).1⟩

/-- A line number with one digit too many is not printed. -/
theorem long_line_not_printed :
    ∃ f : Finding, f.location.line = 10 ^ Number.digitLimit ∧ f.sexp = .error .tooManyDigits := by
  let f : Finding :=
    { errorId := formatErrorId, message := "m", severity := .warning, location := { line := 10 ^ Number.digitLimit } }
  refine ⟨f, rfl, ?_⟩
  cases hf : f.sexp with
  | error fault => rw [fault_of_textShowing hf]
  | ok text =>
    have hline := (f.sexp_eq_ok_iff.1 hf).1 (10 ^ Number.digitLimit) (by simp [numbers, f])
    exact absurd hline (Number.not_natAbs_pow_lt Number.digitLimit)

end FormatAudit.Finding
