import FormatAudit.CommandLine.Program
import FormatAudit.Proofs.Messages
import FormatAudit.Proofs.PrintedFindings
import FormatAudit.Proofs.Runs

/-!
# Findings that can be written

No output format takes a finding with a number of too many digits. The findings of the checker of formats have none: they stand
where a format stands, and their notes where a culprit stands or a variable is declared (`forall_places_finding`). All of these are
places of tokens, and a line or a column that was read from a token can be written (`places_writable`). So a run with this checker
writes all that it reports (`Dump.writable_run`, `writeFindings_of_writable`).
-/

namespace FormatAudit

/-- The numbers of a location can be written. -/
def Location.Writable (l : Location) : Prop :=
  ∀ n ∈ l.numbers, Number.isWritable n = true

/-- A number that was read can be written. -/
theorem RawNumber.isWritable_of_value {n : RawNumber} {m : Int} (h : n.value = .ok m) : Number.isWritable m = true := by
  unfold RawNumber.value at h
  split at h
  · cases h
    rw [Number.isWritable_iff]
    exact Nat.pow_pos (by decide)
  · cases hread : Number.read n.text with
    | error cause =>
      rw [hread] at h
      cases h
    | ok k =>
      rw [hread] at h
      cases h
      exact Number.isWritable_of_readChars hread

/-- The locations of tokens can be written. -/
theorem Configuration.places_writable (c : Configuration) : c.Places Location.Writable := by
  intro t l hl
  obtain ⟨line, hline, hl⟩ := except_bind_eq_ok.1 hl
  obtain ⟨column, hcolumn, hl⟩ := except_bind_eq_ok.1 hl
  cases hl
  exact List.forall_mem_cons.2 ⟨RawNumber.isWritable_of_value hline,
    List.forall_mem_singleton.2 (RawNumber.isWritable_of_value hcolumn)⟩

namespace Finding

/-- The locations that a finding shows: its own and those of its notes. -/
def places (f : Finding) : List Location :=
  f.location :: f.notes.map Note.location

/-- The numbers that a finding shows can be written. -/
def Writable (f : Finding) : Prop :=
  ∀ n ∈ f.numbers, Number.isWritable n = true

/-- A finding can be written if its weakness and its places can. -/
theorem writable_iff {f : Finding} : f.Writable ↔ Number.isWritable f.cwe = true ∧ ∀ l ∈ f.places, l.Writable := by
  simp only [Writable, numbers, places, Location.Writable, Location.numbers, List.forall_mem_append, List.forall_mem_cons,
    List.forall_mem_flatMap, List.forall_mem_map, List.not_mem_nil, false_implies, implies_true, and_true]
  tauto

theorem isWritable_zero : Number.isWritable 0 = true := by decide

/-- A failure is reported without a location and without a weakness. -/
theorem writable_failureFinding (checker : String) (fault : Fault) : (failureFinding checker fault).Writable := by
  rw [writable_iff]
  refine ⟨isWritable_zero, List.forall_mem_singleton.2 ?_⟩
  exact List.forall_mem_cons.2 ⟨isWritable_zero, List.forall_mem_singleton.2 isWritable_zero⟩

/-- A finding has a line of JSON exactly if the numbers that JSON shows are short enough. -/
theorem json_eq_ok_iff {f : Finding} {text : String} :
    f.json = .ok text ↔
      (∀ n ∈ [f.location.line, f.location.column, f.cwe], n.natAbs < 10 ^ Number.digitLimit) ∧ f.jsonText = text := by
  have hnumbers : (∀ n ∈ f.fields.flatMap (fun p => p.2.numbers), Number.isWritable n = true) ↔
      ∀ n ∈ [f.location.line, f.location.column, f.cwe], Number.isWritable n = true := by
    by_cases hcwe : f.cwe = 0
    · simp [fields, FieldValue.numbers, hcwe, isWritable_zero]
    · simp [fields, FieldValue.numbers, hcwe]
  rw [json, textShowing_eq_ok_iff, hnumbers]
  simp only [Number.isWritable_iff]

end Finding

/-! ## The places of a finding -/

namespace FindingStyle

variable {style : FindingStyle} {argument function : Expression} {name : String} {f : Finding}

/-- The notes on culprits stand where the culprits do. -/
theorem location_culpritNotes {es : List Expression} {notes : List Note} (h : style.culpritNotes es = .ok notes) :
    notes.map Note.location = es.map Expression.location := by
  induction es generalizing notes with
  | nil =>
    cases h
    rfl
  | cons e es ih =>
    obtain ⟨_, -, h⟩ := except_bind_eq_ok.1 h
    obtain ⟨more, hmore, h⟩ := except_bind_eq_ok.1 h
    cases h
    rw [List.map_cons, List.map_cons, ih hmore]

/-- The finding for a variable shows where the variable stands and where it is declared. -/
theorem places_variableFinding {s : Symbol} (h : style.variableFinding argument name s = .ok f) :
    f.cwe = uncontrolledFormat ∧ f.places = argument.location :: s.declaredAt.toList := by
  obtain ⟨_, -, h⟩ := except_bind_eq_ok.1 h
  cases h
  refine ⟨rfl, ?_⟩
  cases hdeclared : s.declaredAt with
  | none => simp [Finding.places, findingAt]
  | some l => simp [Finding.places, findingAt]

/-- The finding for an expression that is judged shows where it stands and where its culprits do. -/
theorem places_expressionFinding (h : (style.expressionFinding argument name).result = .ok (some f)) :
    f.cwe = uncontrolledFormat ∧ f.places = argument.location :: (argument.judge {}).2.bySource.map Expression.location := by
  obtain ⟨⟨constant, culprits⟩, hjudge, h⟩ := Logged.bind_result_eq_ok.1 h
  obtain ⟨_, -, hpair⟩ := Logged.bind_result_eq_ok.1 hjudge
  rw [Except.ok.inj hpair]
  dsimp only at h ⊢
  split at h
  · cases h
  · obtain ⟨_, -, h⟩ := Logged.bind_result_eq_ok.1 h
    obtain ⟨notes, hnotes, h⟩ := Logged.bind_result_eq_ok.1 h
    cases h
    exact ⟨rfl, congrArg (argument.location :: ·) (location_culpritNotes hnotes)⟩

section Made

variable {L : Location → Prop} (hargument : argument.Everywhere (Expression.Made L))

include hargument

/-- The culprits of an expression are nodes that are judged with it, so they stand where these do. -/
theorem forall_places_expressionFinding (h : (style.expressionFinding argument name).result = .ok (some f)) :
    f.cwe = uncontrolledFormat ∧ ∀ l ∈ f.places, L l := by
  have hlocation : ∀ n, argument.Judged n → L n.location := fun n hn => (hargument.of_judged hn).2 _ List.mem_cons_self
  have hcomposed := Expression.composed_of_formed (hargument.imp fun _ h => h.1)
  obtain ⟨hcwe, hplaces⟩ := places_expressionFinding h
  refine ⟨hcwe, ?_⟩
  rw [hplaces]
  refine List.forall_mem_cons.2 ⟨hlocation argument (.self argument), List.forall_mem_map.2 fun n hn => ?_⟩
  -- nothing is blamed before the judging starts
  rcases (Expression.blames_judge hcomposed {}).differsBy.1 n ((Culprits.arranged_bySource _).perm.mem_iff.1 hn) with hn | hn
  · cases hn
  · exact hlocation n (Expression.mem_judgedNodes_iff.1 hn)

/-- A finding shows where nodes that are judged with the format stand, or where a variable is declared. -/
theorem forall_places_finding {forwarded : Bool} (h : (style.finding argument function forwarded).result = .ok (some f)) :
    f.cwe = uncontrolledFormat ∧ ∀ l ∈ f.places, L l := by
  unfold finding at h
  split at h
  · cases h
  obtain ⟨name, -, h⟩ := Logged.bind_result_eq_ok.1 h
  split at h
  · -- a named constant gives no finding, and a variable one that shows its declaration
    rename_i s hkind hsymbol
    split at h
    · cases h
    · obtain ⟨found, hfound, h⟩ := Logged.bind_result_eq_ok.1 h
      cases h
      obtain ⟨hcwe, hplaces⟩ := places_variableFinding hfound
      refine ⟨hcwe, ?_⟩
      rw [hplaces]
      have hown := (hargument.of_judged (.self argument)).2
      rwa [Expression.places, hsymbol] at hown
    · exact forall_places_expressionFinding hargument h
  · exact forall_places_expressionFinding hargument h

end Made

end FindingStyle

/-! ## The findings of a run -/

/-- A finding that was made while sites were judged is the finding of one of them. -/
theorem Auditor.exists_site_of_mem {a : Auditor} {sites : List Site} {fs : List Finding}
    (h : Progress.Reaches a.judgeSite [] sites fs) :
    ∀ f ∈ fs, ∃ site ∈ sites, (a.style.finding site.argument site.callee site.forwarded).result = .ok (some f) := by
  refine h.induction (P := fun sites fs => ∀ f ∈ fs, ∃ site ∈ sites,
    (a.style.finding site.argument site.callee site.forwarded).result = .ok (some f)) ?_ ?_
  · intro f hf
    cases hf
  · intro sites fs site fs' _ ih hstep f hf
    obtain ⟨found, hfound, hfs⟩ := Logged.bind_result_eq_ok.1 hstep
    cases hfs
    rcases List.mem_append.1 hf with hf | hf
    · obtain ⟨site', hsite', hf⟩ := ih f hf
      exact ⟨site', List.mem_append_left _ hsite', hf⟩
    · obtain rfl := Option.mem_toList.1 hf
      exact ⟨site, by simp, hfound⟩

/-- What is due from the checker of formats can be written. -/
theorem writable_due (settings : Settings) (rules : RuleSet) (recorded : List RecordedSuppression) (c : Configuration) :
    ∀ f ∈ (formatChecker settings).due rules recorded c, f.Writable := by
  intro f hf
  unfold Checker.due at hf
  split at hf
  · rename_i fs hfs
    obtain ⟨-, w, hw, hjudged⟩ := examine_eq_ok_iff.1 hfs
    obtain ⟨site, hsite, hfinding⟩ := Auditor.exists_site_of_mem hjudged f (List.mem_of_mem_filter hf)
    obtain ⟨i, hi⟩ := List.mem_iff_getElem?.1 hsite
    -- the argument of a site is the expression of a token of the call
    obtain ⟨_, _, -, -, -, ⟨-, -, _, _, _, -, -, -, -, hargument⟩, -⟩ := Auditor.site_recorded hw i site hi
    obtain ⟨hcwe, hplaces⟩ :=
      FindingStyle.forall_places_finding (Source.made_expression c.places_writable hargument) hfinding
    rw [Finding.writable_iff, hcwe]
    exact ⟨by decide, hplaces⟩
  · obtain rfl := List.mem_singleton.1 hf
    exact Finding.writable_failureFinding _ _

/-- After findings are added, every finding was there before or is one of them. -/
theorem Report.mem_of_mem_addAll {r : Report} {fs : List Finding} {f : Finding} (h : f ∈ (r.addAll fs).findings) :
    f ∈ r.findings ∨ f ∈ fs := by
  induction fs generalizing r with
  | nil => exact Or.inl h
  | cons g fs ih =>
    rcases ih (r := r.add g) h with hf | hf
    · rw [findings_add] at hf
      split at hf
      · exact Or.inl hf
      · rcases List.mem_append.1 hf with hf | hf
        · exact Or.inl hf
        · exact Or.inr (List.mem_cons.2 (Or.inl (List.mem_singleton.1 hf)))
    · exact Or.inr (List.mem_cons_of_mem _ hf)

/-- All that a run with the checker of formats reports can be written. -/
theorem Dump.writable_run (d : Dump) (settings : Settings) (rules : RuleSet) :
    ∀ f ∈ (d.run settings [] rules).report.findings, f.Writable := by
  intro f hf
  rw [(d.run_spec settings [] rules).1] at hf
  rcases Report.mem_of_mem_addAll hf with hf | hf
  · cases hf
  · simp only [Dump.due, Dump.dueAt, List.mem_flatMap] at hf
    obtain ⟨p, -, checker, hchecker, hf⟩ := hf
    obtain rfl := List.mem_singleton.1 hchecker
    exact writable_due settings rules _ p.1 f hf

/-! ## Writing findings -/

namespace CommandLine

variable {format : OutputFormat} {f : Finding} {fs : List Finding}

/-- A finding that is written as JSON has a line of its own. -/
theorem findingText_json {text : String} (h : f.json = .ok text) : findingText .json f = .ok (text ++ "\n") := by
  rw [findingText, h]
  rfl

/-- A finding that can be written has a text in every format, and the text is not empty. -/
theorem findingText_of_writable (hf : f.Writable) (format : OutputFormat) :
    ∃ text, findingText format f = .ok text ∧ text ≠ "" := by
  have hline : ∀ text : String, text ++ "\n" ≠ "" := by
    intro text hempty
    exact absurd (String.append_eq_empty_iff.1 hempty).2 (by decide)
  have hshort : ∀ n ∈ f.numbers, n.natAbs < 10 ^ Number.digitLimit := fun n hn => (Number.isWritable_iff n).1 (hf n hn)
  cases format with
  | json =>
    have htext : f.json = .ok f.jsonText :=
      Finding.json_eq_ok_iff.2 ⟨fun n hn => hshort n (List.mem_append_left _ hn), rfl⟩
    exact ⟨_, findingText_json htext, hline _⟩
  | sexp =>
    have htext : f.sexp = .ok f.form.text := f.sexp_eq_ok_iff.2 ⟨hshort, rfl⟩
    exact ⟨_, by rw [findingText, htext]; rfl, hline _⟩
  | gcc =>
    have hnumbers : ∀ n ∈ f.location.numbers ++ f.notes.flatMap (·.location.numbers), Number.isWritable n = true := by
      intro n hn
      apply hf n
      simp only [Finding.numbers, Location.numbers, List.mem_append, List.mem_cons, List.not_mem_nil, or_false,
        List.mem_flatMap] at hn ⊢
      exact hn.imp_left (Or.imp_right Or.inl)
    have htext : f.compilerText true = .ok _ := textShowing_eq_ok_iff.2 ⟨hnumbers, rfl⟩
    exact ⟨_, by rw [findingText, htext]; rfl, hline _⟩

/-- Findings that have texts are written one after the other. -/
theorem writeFindings_of_texts {texts : List String}
    (h : List.Forall₂ (fun f text => findingText format f = .ok text) fs texts) :
    (writeFindings format fs).fault = none ∧ (writeFindings format fs).state = String.join texts := by
  suffices key : ∀ written, Progress.Reaches (fun written f => do
      let text ← findingText format f
      pure (written ++ text) : String → Finding → Logged Fault String) written fs (written ++ String.join texts) by
    have hall := key ""
    rw [String.empty_append] at hall
    exact hall
  induction h with
  | nil =>
    intro written
    exact Progress.reaches_nil.2 (by simp [String.join_nil])
  | @cons f text fs texts hf _ ih =>
    intro written
    refine Progress.reaches_cons.2 ⟨written ++ text, ?_, ?_⟩
    · exact Logged.bind_result_eq_ok.2 ⟨text, hf, rfl⟩
    · rw [String.join_cons, ← String.append_assoc]
      exact ih (written ++ text)

/-- Findings that can be written are all written, and nothing is written exactly if there are none. -/
theorem writeFindings_of_writable (h : ∀ f ∈ fs, f.Writable) (format : OutputFormat) :
    (writeFindings format fs).fault = none ∧ ((writeFindings format fs).state = "" ↔ fs = []) := by
  have htexts : ∃ texts, List.Forall₂ (fun f text => findingText format f = .ok text ∧ text ≠ "") fs texts := by
    induction fs with
    | nil => exact ⟨[], .nil⟩
    | cons f fs ih =>
      obtain ⟨hf, hfs⟩ := List.forall_mem_cons.1 h
      obtain ⟨text, htext⟩ := findingText_of_writable hf format
      obtain ⟨texts, htexts⟩ := ih hfs
      exact ⟨text :: texts, .cons htext htexts⟩
  obtain ⟨texts, htexts⟩ := htexts
  obtain ⟨hfault, hstate⟩ := writeFindings_of_texts (htexts.imp fun _ _ h => h.1)
  refine ⟨hfault, ?_⟩
  rw [hstate]
  cases htexts with
  | nil => simp [String.join_nil]
  | cons hf _ => simp [String.join_cons, String.append_eq_empty_iff, hf.2]

end CommandLine

end FormatAudit
