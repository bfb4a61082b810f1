import FormatAudit.Proofs.WritableFindings

/-!
# Dumps on one command line

Every dump is checked with rules and a report of its own, so what is written for it does not depend on the dumps before it
(`checkDumps_of_checkable`). All findings of a dump are written. The exit status counts them, and a finding is never an empty text,
so the status can be read off the output. The first dump that cannot be checked ends the run, and its cause decides the status
(`status_of_report`).

A dump can be checked (`Checkable`) if it is read and if every option that adds suppressions has a value.
-/

namespace FormatAudit.CommandLine

/-- The run on one dump alone, with the same options otherwise. -/
def alone (h : Host) (o : Options) (path : String) : Outcome :=
  runOptions h { o with dumps := [path] }

/-- A dump can be read and checked. -/
def Checkable (h : Host) (o : Options) (path : String) : Prop :=
  (∃ d, (readDump h path).result = .ok d) ∧ none ∉ o.suppress

/-- The user interrupts the program while a dump is read. -/
def Interrupted (h : Host) (path : String) : Prop :=
  (readDump h path).result = .error .interrupted

/-! ## One dump -/

/-- Only an interrupt has a status of its own. -/
theorem status_of_report (e : DumpError) :
    (e = .interrupted → e.report.2 = 130) ∧ (e ≠ .interrupted → e.report.2 = 2) := by
  cases e with
  | interrupted => exact ⟨fun _ => rfl, fun h => absurd rfl h⟩
  | notInstalled | badPath | nameTooLong | missing | unparsable | noSuppression | fault =>
    exact ⟨nofun, fun _ => rfl⟩

section Dumps

variable {h : Host} {o : Options} {path : String}

/-- The rules are made if every entry of the command line is a text. -/
theorem rulesOf_of_suppress (hsuppress : none ∉ o.suppress) (settings : Settings) :
    rulesOf settings o = .ok (RuleSet.ofEntries settings.suppress) := by
  rw [rulesOf, if_neg (by simpa using hsuppress)]

/-- The findings of a dump that is read. -/
theorem checkDump_of_readDump {d : Dump} (hread : (readDump h path).result = .ok d) (hsuppress : none ∉ o.suppress)
    (settings : Settings) :
    (checkDump h settings o path).result =
      .ok (d.run settings [] (RuleSet.ofEntries settings.suppress)).report.findings := by
  simp only [checkDump, Logged.result_bind, hread, Logged.result_liftM, rulesOf_of_suppress hsuppress, Logged.result_noteAll,
    Logged.result_note, Logged.result_pure, except_ok_bind]

/-- A dump that can be checked has findings, and all of them can be written. -/
theorem checkDump_of_checkable (hcheckable : Checkable h o path) (settings : Settings) :
    ∃ fs, (checkDump h settings o path).result = .ok fs ∧ ∀ f ∈ fs, f.Writable := by
  obtain ⟨⟨d, hread⟩, hsuppress⟩ := hcheckable
  exact ⟨_, checkDump_of_readDump hread hsuppress settings, d.writable_run settings _⟩

/-- A dump that cannot be checked gives an error, and only an interrupted reading gives the error that says so. -/
theorem checkDump_of_not_checkable (hnot : ¬Checkable h o path) (settings : Settings) :
    ∃ e, (checkDump h settings o path).result = .error e ∧ (e = .interrupted ↔ Interrupted h path) := by
  rw [checkDump, Logged.result_bind, Interrupted]
  cases hread : (readDump h path).result with
  | error e => exact ⟨e, rfl, by rw [Except.error.injEq]⟩
  | ok d =>
    have hsuppress : none ∈ o.suppress := by
      by_contra hsuppress
      exact hnot ⟨⟨d, hread⟩, hsuppress⟩
    refine ⟨.noSuppression, ?_, by simp⟩
    rw [except_ok_bind, rulesOf, if_pos (by simpa using hsuppress)]
    rfl

/-! ## One dump after the other -/

/-- What is written for a dump: nothing if it cannot be checked. -/
def dumpText (h : Host) (settings : Settings) (o : Options) (path : String) : String :=
  match (checkDump h settings o path).result with
  | .ok findings => (writeFindings (formatOf o) findings).state
  | .error _ => ""

/-- The number of findings that are counted agrees with the output. -/
def Output.Truthful (out : Output) : Prop :=
  out.reported = 0 ↔ out.stdout = ""

/-- Dumps that can be checked add their texts to the output, whatever was written before and whatever comes after. -/
theorem checkDumps_of_checkable (settings : Settings) (rest : List String) {paths : List String}
    (hall : ∀ p ∈ paths, Checkable h o p) {out : Output} (hout : out.Truthful) :
    ∃ out', checkDumps h settings o (paths ++ rest) out = checkDumps h settings o rest out' ∧ out'.Truthful ∧
      out'.stdout = out.stdout ++ String.join (paths.map (dumpText h settings o)) := by
  induction paths generalizing out with
  | nil => exact ⟨out, rfl, hout, by simp [String.join_nil]⟩
  | cons p paths ih =>
    obtain ⟨hp, hall⟩ := List.forall_mem_cons.1 hall
    obtain ⟨fs, hresult, hwritable⟩ := checkDump_of_checkable hp settings
    obtain ⟨hfault, hempty⟩ := writeFindings_of_writable hwritable (formatOf o)
    have htext : dumpText h settings o p = (writeFindings (formatOf o) fs).state := by rw [dumpText, hresult]
    let next : Output :=
      { stdout := out.stdout ++ (writeFindings (formatOf o) fs).state, log := out.log ++ (checkDump h settings o p).log,
        reported := out.reported + fs.length }
    have hnext : next.Truthful := by
      show out.reported + fs.length = 0 ↔ out.stdout ++ (writeFindings (formatOf o) fs).state = ""
      rw [Nat.add_eq_zero_iff, String.append_eq_empty_iff, hempty, List.length_eq_zero_iff]
      exact and_congr_left' hout
    obtain ⟨out', hrun, htruthful, hstdout⟩ := ih hall hnext
    refine ⟨out', ?_, htruthful, ?_⟩
    · rw [List.cons_append, checkDumps, ← hrun]
      simp only [hresult, hfault, next]
    · rw [hstdout, List.map_cons, String.join_cons, htext, String.append_assoc]

variable {settings : Settings} (hsettings : (settingsOf h o).result = .ok settings)

include hsettings

/-- A run in which all dumps can be checked. -/
theorem runOptions_of_checkable (hall : ∀ p ∈ o.dumps, Checkable h o p) :
    (runOptions h o).stdout = String.join (o.dumps.map (dumpText h settings o)) ∧
      (runOptions h o).status = if o.addonMode then 0 else if (runOptions h o).stdout = "" then 0 else 1 := by
  have hstart : Output.Truthful { log := (settingsOf h o).log } := by simp [Output.Truthful]
  obtain ⟨out, hrun, htruthful, hstdout⟩ := checkDumps_of_checkable settings [] hall hstart
  rw [List.append_nil, checkDumps] at hrun
  have houtcome : runOptions h o =
      { status := finalStatus o out.reported, stdout := out.stdout, stderr := logText o.verbosity out.log } := by
    simp only [runOptions, hsettings, hrun]
  rw [houtcome]
  refine ⟨by simpa using hstdout, ?_⟩
  show finalStatus o out.reported = _
  unfold finalStatus
  simp only [htruthful.eq]

theorem alone_stdout (hpath : Checkable h o path) : (alone h o path).stdout = dumpText h settings o path := by
  have hall : ∀ p ∈ [path], Checkable h { o with dumps := [path] } p := List.forall_mem_singleton.2 hpath
  have hrun := (runOptions_of_checkable (o := { o with dumps := [path] }) hsettings hall).1
  rw [alone, hrun, List.map_singleton, String.join_cons, String.join_nil, String.append_empty]
  rfl

/-- A run that is ended by a dump that cannot be checked. -/
theorem runOptions_of_not_checkable {before after : List String} (hdumps : o.dumps = before ++ path :: after)
    (hall : ∀ p ∈ before, Checkable h o p) (hnot : ¬Checkable h o path) :
    (runOptions h o).stdout = String.join (before.map (dumpText h settings o)) ∧
      (Interrupted h path → (runOptions h o).status = 130) ∧ (¬Interrupted h path → (runOptions h o).status = 2) := by
  have hstart : Output.Truthful { log := (settingsOf h o).log } := by simp [Output.Truthful]
  obtain ⟨out, hrun, -, hstdout⟩ := checkDumps_of_checkable settings (path :: after) hall hstart
  obtain ⟨e, hresult, hinterrupted⟩ := checkDump_of_not_checkable hnot settings
  have houtcome : (runOptions h o).stdout = out.stdout ∧ (runOptions h o).status = e.report.2 := by
    simp only [runOptions, hsettings, hdumps, hrun, checkDumps, hresult, and_self]
  rw [houtcome.1, houtcome.2, ← hinterrupted]
  exact ⟨by simpa using hstdout, (status_of_report e).1, (status_of_report e).2⟩

end Dumps

/-- The dumps of a command line do not affect each other, and the exit status says what happened. Settings that cannot be loaded
end the run with status 2 before anything is written. Otherwise, if every dump can be checked, the output consists of what is
written for each dump alone; in addon mode the status is 0, and else it says whether the output is empty. The first dump that
cannot be checked ends the run after the output for the dumps before it, with status 130 if the user interrupts its reading and
with status 2 if not, in addon mode too. -/
theorem dumps_checked_independently (h : Host) (o : Options) :
    (∀ e, (settingsOf h o).result = .error e → (runOptions h o).stdout = "" ∧ (runOptions h o).status = 2) ∧
    ∀ settings, (settingsOf h o).result = .ok settings →
      ((∀ p ∈ o.dumps, Checkable h o p) →
        (runOptions h o).stdout = String.join (o.dumps.map (fun p => (alone h o p).stdout)) ∧
        (runOptions h o).status = if o.addonMode then 0 else if (runOptions h o).stdout = "" then 0 else 1) ∧
      ∀ before path after, o.dumps = before ++ path :: after → (∀ p ∈ before, Checkable h o p) → ¬Checkable h o path →
        (runOptions h o).stdout = (runOptions h { o with dumps := before }).stdout ∧
        (Interrupted h path → (runOptions h o).status = 130) ∧ (¬Interrupted h path → (runOptions h o).status = 2) := by
  constructor
  · intro e herror
    simp only [runOptions, herror, and_self]
  · intro settings hsettings
    constructor
    · intro hall
      have hdumps : o.dumps.map (fun p => (alone h o p).stdout) = o.dumps.map (dumpText h settings o) :=
        List.map_congr_left (fun p hp => alone_stdout hsettings (hall p hp))
      rw [hdumps]
      exact runOptions_of_checkable hsettings hall
    · intro before path after hdumps hall hnot
      have hbefore := (runOptions_of_checkable (o := { o with dumps := before }) hsettings hall).1
      rw [hbefore]
      exact runOptions_of_not_checkable hsettings hdumps hall hnot

namespace OneFile

/-- A host that knows one file. -/
def host (entry : FileEntry) : Host :=
  { files := [("a", entry)] }

theorem readDump_dump (d : Dump) : (readDump (host (.dump d)) "a").result = .ok d := by cbv

theorem readDump_other (d : Dump) : (readDump (host (.dump d)) "b").result = .error (.missing "b") := by cbv

theorem readDump_interrupted : (readDump (host .interrupted) "a").result = .error .interrupted := by cbv

/-- Three calls to `printf`, two of which pass the same variable. -/
def calls : Dump :=
  { configurations := [PrintTwice.config] }

/-- The dump of the calls twice, and then one that is missing. -/
def options : Options :=
  { dumps := ["a", "a", "b"] }

/-- The status if the file is the only dump on the command line and cannot be checked. -/
theorem status_of_not_checkable {entry : FileEntry} {o : Options} {settings : Settings}
    (hsettings : (settingsOf (host entry) o).result = .ok settings) (hdumps : o.dumps = [] ++ "a" :: [])
    (hnot : ¬Checkable (host entry) o "a") :
    (Interrupted (host entry) "a" → (runOptions (host entry) o).status = 130) ∧
      (¬Interrupted (host entry) "a" → (runOptions (host entry) o).status = 2) :=
  (runOptions_of_not_checkable hsettings hdumps nofun hnot).2

theorem not_interrupted (d : Dump) : ¬Interrupted (host (.dump d)) "a" := by
  rw [Interrupted, readDump_dump]
  nofun

end OneFile

open OneFile

/-- The same dump is checked twice, and the second time as if it were the first. The missing one ends the run: what is written for
the two stays, and the status is 2. -/
theorem missing_dump_after_two :
    (settingsOf (host (.dump calls)) options).result = .ok {} ∧
      (∀ p ∈ ["a", "a"], Checkable (host (.dump calls)) options p) ∧ ¬Checkable (host (.dump calls)) options "b" ∧
      (runOptions (host (.dump calls)) options).stdout = (runOptions (host (.dump calls)) { dumps := ["a", "a"] }).stdout ∧
      (runOptions (host (.dump calls)) options).status = 2 := by
  have hsettings : (settingsOf (host (.dump calls)) options).result = .ok {} := rfl
  have hcalls : Checkable (host (.dump calls)) options "a" := ⟨⟨calls, readDump_dump calls⟩, by decide⟩
  have hall : ∀ p ∈ ["a", "a"], Checkable (host (.dump calls)) options p := by simpa using hcalls
  have hnot : ¬Checkable (host (.dump calls)) options "b" := by
    rintro ⟨⟨d, hread⟩, -⟩
    rw [readDump_other] at hread
    cases hread
  have hinterrupted : ¬Interrupted (host (.dump calls)) "b" := by
    rw [Interrupted, readDump_other]
    nofun
  obtain ⟨hstdout, -, hstatus⟩ := ((dumps_checked_independently (host (.dump calls)) options).2 {} hsettings).2
    ["a", "a"] "b" [] rfl hall hnot
  exact ⟨hsettings, hall, hnot, hstdout, hstatus hinterrupted⟩

/-- That a dump is not loaded does not always give status 2: if the user interrupts its reading, the status is 130. And valid
settings and a loaded dump are not enough for a status that speaks of findings: it is 2 if an option that adds suppressions lacks
its value. -/
theorem loading_does_not_decide_status :
    ((readDump (host .interrupted) "a").result = .error .interrupted ∧
        (runOptions (host .interrupted) { dumps := ["a"] }).status = 130) ∧
      (readDump (host (.dump {})) "a").result = .ok {} ∧
      (runOptions (host (.dump {})) { dumps := ["a"], suppress := [none] }).status = 2 := by
  refine ⟨⟨readDump_interrupted, ?_⟩, readDump_dump {}, ?_⟩
  · have hnot : ¬Checkable (host .interrupted) { dumps := ["a"] } "a" := by
      rintro ⟨⟨d, hread⟩, -⟩
      rw [readDump_interrupted] at hread
      cases hread
    exact (status_of_not_checkable rfl rfl hnot).1 readDump_interrupted
  · have hnot : ¬Checkable (host (.dump {})) { dumps := ["a"], suppress := [none] } "a" := by
      rintro ⟨-, hsuppress⟩
      exact hsuppress List.mem_cons_self
    exact (status_of_not_checkable rfl rfl hnot).2 (not_interrupted {})

end FormatAudit.CommandLine
