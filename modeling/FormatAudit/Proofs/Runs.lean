import FormatAudit.Proofs.FormatTable
import FormatAudit.Proofs.Reporting
import Mathlib.Algebra.BigOperators.Group.List.Basic

/-!
# What a run over a dump reports

A run takes the configurations of a dump one after the other and runs every checker over each. What is due from a checker for a
configuration is stated apart from the run (`Checker.due`): its findings less those that are held back, or one finding about its
failure. What is held back at a configuration is decided by the rules at the start, by the suppressions recorded for the dump,
and by those recorded with this configuration and the ones before it (`Dump.recordedUpTo`).

The report of a run has the first finding of each key of all that is due, and each of its counts is the sum of what was counted.
-/

namespace FormatAudit

/-! ## Recorded suppressions -/

/-- Whether a recorded suppression keeps a finding from being reported. -/
def RecordedSuppression.suppresses (s : RecordedSuppression) (f : Finding) : Bool :=
  s.rule?.any (fun rule => rule.suppresses f)

namespace RuleSet

/-- A finding is suppressed if one of the rules suppresses it. -/
theorem suppresses_iff {r : RuleSet} {f : Finding} : r.suppresses f = true ↔ ∃ s ∈ r.rules, s.suppresses f = true := by
  rw [suppresses, List.any_eq_true]

/-- Rules to which recorded suppressions were added hold back what the rules or the suppressions do. -/
theorem suppresses_addRecorded (r : RuleSet) (ss : List RecordedSuppression) (f : Finding) :
    (r.addRecorded ss).suppresses f = (r.suppresses f || ss.any (fun s => s.suppresses f)) := by
  rw [Bool.eq_iff_iff, Bool.or_eq_true, suppresses_iff, suppresses_iff, List.any_eq_true]
  simp only [mem_addRecorded, RecordedSuppression.suppresses, Option.any_eq_true]
  constructor
  · rintro ⟨x, hx | ⟨s, hs, hx⟩, hf⟩
    · exact Or.inl ⟨x, hx, hf⟩
    · exact Or.inr ⟨s, hs, x, hx, hf⟩
  · rintro (⟨x, hx, hf⟩ | ⟨s, hs, x, hx, hf⟩)
    · exact ⟨x, Or.inl hx, hf⟩
    · exact ⟨x, Or.inr ⟨s, hs, hx⟩, hf⟩

end RuleSet

/-! ## Merging reports -/

namespace Report

variable {r r' : Report}

/-- A finding is added at the end, unless it is there. -/
theorem findings_add (r : Report) (f : Finding) :
    (r.add f).findings = if r.has f then r.findings else r.findings ++ [f] := by
  unfold add
  split
  · rfl
  · rfl

/-- What findings are added depends on the findings that are there, not on the rest of the report. -/
theorem findings_addAll_congr (h : r.findings = r'.findings) (fs : List Finding) :
    (r.addAll fs).findings = (r'.addAll fs).findings := by
  induction fs generalizing r r' with
  | nil => exact h
  | cons f fs ih =>
    have hadd : (r.add f).findings = (r'.add f).findings := by rw [findings_add, findings_add, has, has, h]
    exact ih hadd

/-- Two lists of findings are added one after the other. -/
theorem addAll_append (r : Report) (fs gs : List Finding) : r.addAll (fs ++ gs) = (r.addAll fs).addAll gs :=
  List.foldl_append

/-- Findings that were added have a finding of their key in the report, and so have those that were there. -/
theorem has_addAll (r : Report) (fs : List Finding) (g : Finding) :
    (r.addAll fs).has g = true ↔ r.has g = true ∨ ∃ f ∈ fs, f.key = g.key := by
  induction fs generalizing r with
  | nil => simp [addAll]
  | cons f fs ih =>
    have hadd : (r.add f).has g = true ↔ r.has g = true ∨ f.key = g.key := by
      unfold add
      split
      · rename_i hf
        constructor
        · exact Or.inl
        · rintro (hg | hkey)
          · exact hg
          · rw [has, ← hkey]
            exact hf
      · simp [has]
    have hstep : (r.addAll (f :: fs)).has g = ((r.add f).addAll fs).has g := rfl
    rw [hstep, ih, hadd, List.exists_mem_cons_iff, or_assoc]

/-- A report that started without findings has a finding of a key exactly if one was added. -/
theorem exists_key_addAll {fs : List Finding} {k : String × Location × String} :
    (∃ f ∈ (({} : Report).addAll fs).findings, f.key = k) ↔ ∃ f ∈ fs, f.key = k := by
  have hkey : ∀ g : Finding, (∃ f ∈ (({} : Report).addAll fs).findings, f.key = g.key) ↔ ∃ f ∈ fs, f.key = g.key := by
    intro g
    simpa [has] using has_addAll {} fs g
  constructor
  · rintro ⟨f, hf, rfl⟩
    exact (hkey f).1 ⟨f, hf, rfl⟩
  · rintro ⟨f, hf, rfl⟩
    exact (hkey f).2 ⟨f, hf, rfl⟩

/-- Adding the findings of a report that was made by adding: the findings it started from, and then the others. -/
theorem addAll_findings_addAll (r q : Report) (fs : List Finding) :
    r.addAll (q.addAll fs).findings = (r.addAll q.findings).addAll fs := by
  induction fs generalizing q with
  | nil => rfl
  | cons f fs ih =>
    have hstep : r.addAll (q.add f).findings = (r.addAll q.findings).add f := by
      by_cases hf : q.has f = true
      · -- a finding of this key came with `q`, so that it is in both reports already
        have hthere : (r.addAll q.findings).has f = true := by
          rw [has, List.any_eq_true] at hf
          obtain ⟨g, hg, hkey⟩ := hf
          exact (has_addAll r q.findings f).2 (Or.inr ⟨g, hg, eq_of_beq hkey⟩)
        rw [add, if_pos hf, add, if_pos hthere]
      · rw [add, if_neg hf]
        exact addAll_append r q.findings [f]
    exact (ih (q.add f)).trans (congrArg (fun s => s.addAll fs) hstep)

/-- No two findings of a report that started without findings share a key. -/
theorem nodup_keys_addAll (h : (r.findings.map Finding.key).Nodup) (fs : List Finding) :
    ((r.addAll fs).findings.map Finding.key).Nodup := by
  induction fs generalizing r with
  | nil => exact h
  | cons f fs ih =>
    have hadd : ((r.add f).findings.map Finding.key).Nodup := by
      rw [findings_add]
      split
      · exact h
      · rename_i hf
        rw [List.map_append, List.nodup_append]
        refine ⟨h, List.nodup_singleton _, ?_⟩
        intro k hk k' hk' hkey
        obtain ⟨g, hg, rfl⟩ := List.mem_map.1 hk
        obtain rfl := List.mem_singleton.1 hk'
        exact hf (List.any_eq_true.2 ⟨g, hg, beq_iff_eq.2 hkey⟩)
    exact ih hadd

/-- What entries count under a name. -/
def counted (entries : Table String Int) (key : String) : Int :=
  ((entries.filter (fun e => e.1 == key)).map (·.2)).sum

/-- The count under a key is the sum of the entries with that key. -/
theorem counted_cons (e : String × Int) (entries : Table String Int) (key : String) :
    counted (e :: entries) key = (if e.1 = key then e.2 else 0) + counted entries key := by
  by_cases h : e.1 = key
  · simp [counted, h]
  · simp [counted, h]

/-- A counter goes up by what is added to it, and the others stay. -/
theorem stat_bump (r : Report) (k : String) (n : Int) (key : String) :
    (r.bump k n).stat key = r.stat key + if k = key then n else 0 := by
  unfold bump stat
  dsimp only
  rw [Table.get?_put]
  by_cases h : key = k
  · simp [h]
  · simp [h, Ne.symm h]

/-- Each counter goes up by what the entries count for it. -/
theorem stat_bumpAll (r : Report) (entries : Table String Int) (key : String) :
    (r.bumpAll entries).stat key = r.stat key + counted entries key := by
  induction entries generalizing r with
  | nil => simp [bumpAll, counted]
  | cons e entries ih =>
    have hstep : (r.bumpAll (e :: entries)).stat key = ((r.bump e.1 e.2).bumpAll entries).stat key := rfl
    rw [hstep, ih, stat_bump, counted_cons, Int.add_assoc]

/-- Adding to a count puts the sum in the place of the old value, so that the entries count that much more. -/
theorem counted_bump (r : Report) (k : String) (n : Int) (key : String) :
    counted (r.bump k n).stats key = counted r.stats key + if k = key then n else 0 := by
  suffices put : ∀ t : Table String Int,
      counted (Table.put k ((Table.get? t k).getD 0 + n) t) key = counted t key + if k = key then n else 0 from
    put r.stats
  intro t
  induction t with
  | nil =>
    rw [Table.put, counted_cons]
    simp [Table.get?, counted]
  | cons e t ih =>
    obtain ⟨k', a⟩ := e
    rw [Table.put]
    by_cases h : k' = k
    · subst h
      simp only [Table.get?, List.lookup_cons, beq_self_eq_true, ↓reduceIte, Option.getD_some, counted_cons]
      split
      · omega
      · omega
    · have hget : Table.get? ((k', a) :: t) k = Table.get? t k := by
        rw [Table.get?, List.lookup_cons, beq_eq_false_iff_ne.2 (Ne.symm h)]
        rfl
      rw [if_neg (by simpa using h), hget, counted_cons, counted_cons, ih, Int.add_assoc]

/-- The counts of a report after entries are added are the sums. -/
theorem counted_bumpAll (r : Report) (entries : Table String Int) (key : String) :
    counted (r.bumpAll entries).stats key = counted r.stats key + counted entries key := by
  induction entries generalizing r with
  | nil => simp [bumpAll, counted]
  | cons e entries ih =>
    have hstep : counted (r.bumpAll (e :: entries)).stats key = counted ((r.bump e.1 e.2).bumpAll entries).stats key := rfl
    rw [hstep, ih, counted_bump, counted_cons, Int.add_assoc]

/-- Adding findings leaves the counters. -/
theorem stats_addAll (r : Report) (fs : List Finding) : (r.addAll fs).stats = r.stats := by
  induction fs generalizing r with
  | nil => rfl
  | cons f fs ih =>
    have hadd : (r.add f).stats = r.stats := by
      unfold add
      split
      · rfl
      · rfl
    exact (ih (r.add f)).trans hadd

/-- Merging reports adds the findings of the second one. -/
theorem findings_merge (r other : Report) : (r.merge other).findings = (r.addAll other.findings).findings := by
  unfold merge
  exact bumpAll_findings _ _

/-- Merging reports adds the counters. -/
theorem stat_merge (r other : Report) (key : String) : (r.merge other).stat key = r.stat key + counted other.stats key := by
  have hstat : (r.merge other).stat key = ((r.addAll other.findings).bumpAll other.stats).stat key := rfl
  rw [hstat, stat_bumpAll]
  unfold stat
  rw [stats_addAll]

end Report

/-! ## What is due -/

/-- Whether rules or recorded suppressions hold a finding back. -/
def heldBack (rules : RuleSet) (recorded : List RecordedSuppression) (f : Finding) : Bool :=
  rules.suppresses f || recorded.any (fun s => s.suppresses f)

namespace Checker

/-- What is due from a checker for a configuration: its findings that are not held back, or, if it fails, one finding about that
and nothing else. -/
def due (checker : Checker) (rules : RuleSet) (recorded : List RecordedSuppression) (c : Configuration) : List Finding :=
  match (checker.examine c).result with
  | .ok findings => findings.filter (fun f => !heldBack rules recorded f)
  | .error fault => [failureFinding checker.name fault]

/-- What a checker counts in a configuration under a name of the report, whether it fails after that or not. -/
def counted (checker : Checker) (c : Configuration) (key : String) : Int :=
  Report.counted ((checker.examine c).stats.map (fun s => (checker.name ++ "_" ++ s.1, s.2))) key

end Checker

namespace Dump

/-- The suppressions recorded for a dump and with its configurations up to the one at a place. -/
def recordedUpTo (d : Dump) (i : Nat) : List RecordedSuppression :=
  d.suppressions ++ (d.configurations.take (i + 1)).flatMap (·.suppressions)

/-- What is due from checkers for the configuration at a place. -/
def dueAt (d : Dump) (checkers : List Checker) (rules : RuleSet) (c : Configuration) (i : Nat) : List Finding :=
  checkers.flatMap (fun checker => checker.due rules (d.recordedUpTo i) c)

/-- What is due for a dump: configuration after configuration, and checker after checker for each. -/
def due (d : Dump) (checkers : List Checker) (rules : RuleSet) : List Finding :=
  d.configurations.zipIdx.flatMap (fun p => d.dueAt checkers rules p.1 p.2)

/-- What checkers count in all configurations under a name of the report. -/
def counted (d : Dump) (checkers : List Checker) (key : String) : Int :=
  (d.configurations.map (fun c => (checkers.map (fun checker => checker.counted c key)).sum)).sum

/-- What is recorded up to a configuration is what the dump, the configurations before and it record. -/
theorem recordedUpTo_eq {d : Dump} {before after : List Configuration} {c : Configuration}
    (h : d.configurations = before ++ c :: after) :
    d.recordedUpTo before.length = d.suppressions ++ (before ++ [c]).flatMap (·.suppressions) := by
  have htake : d.configurations.take (before.length + 1) = before ++ [c] := by
    rw [h, List.append_cons]
    exact List.take_left' (by simp)
  rw [recordedUpTo, htake]

end Dump

/-! ## One configuration -/

section Step

variable {rules₀ rules : RuleSet} {recorded : List RecordedSuppression} {c : Configuration}

/-- What a checker reports with the rules so far is what is due. -/
theorem reported_eq_due (hrules : ∀ f, rules.suppresses f = heldBack rules₀ recorded f) (checker : Checker) :
    (checker.examine c).reported checker.name rules = checker.due rules₀ recorded c := by
  unfold Examination.reported Checker.due RuleSet.keep
  cases (checker.examine c).result with
  | ok findings => simp only [hrules]
  | error fault => rfl

/-- Checkers add what is due from them, and what they count. -/
theorem runCheckers_spec (hrules : ∀ f, rules.suppresses f = heldBack rules₀ recorded f) (checkers : List Checker) (r : Report) :
    (runCheckers rules c checkers r).1.findings =
        (r.addAll (checkers.flatMap (fun checker => checker.due rules₀ recorded c))).findings ∧
      ∀ key, Report.counted (runCheckers rules c checkers r).1.stats key =
        Report.counted r.stats key + (checkers.map (fun checker => checker.counted c key)).sum := by
  induction checkers generalizing r with
  | nil => simp [runCheckers, Report.addAll]
  | cons checker checkers ih =>
    obtain ⟨hfindings, hcounted⟩ := ih (checker.runInto rules c r).1
    have hfindings₁ : (checker.runInto rules c r).1.findings = (r.addAll (checker.due rules₀ recorded c)).findings := by
      rw [← reported_eq_due hrules]
      refine (Report.bumpAll_findings _ _).trans (Report.findings_addAll_congr ?_ _)
      rfl
    have hcounted₁ : ∀ key, Report.counted (checker.runInto rules c r).1.stats key =
        Report.counted r.stats key + checker.counted c key := by
      intro key
      unfold Checker.runInto
      dsimp only
      rw [Report.counted_bumpAll, Report.stats_addAll]
      rfl
    constructor
    · rw [List.flatMap_cons, Report.addAll_append]
      exact hfindings.trans (Report.findings_addAll_congr hfindings₁ _)
    · intro key
      rw [List.map_cons, List.sum_cons, ← Int.add_assoc, ← hcounted₁ key]
      exact hcounted key

/-- A configuration adds its suppressions to the rules, and has in its report what is due for it. -/
theorem runConfiguration_spec (hrules : ∀ f, rules.suppresses f = heldBack rules₀ recorded f) (checkers : List Checker) :
    (∀ f, (runConfiguration checkers rules c).rules.suppresses f = heldBack rules₀ (recorded ++ c.suppressions) f) ∧
      (runConfiguration checkers rules c).report.findings =
        (({} : Report).addAll (checkers.flatMap (fun checker => checker.due rules₀ (recorded ++ c.suppressions) c))).findings ∧
      ∀ key, Report.counted (runConfiguration checkers rules c).report.stats key =
        (checkers.map (fun checker => checker.counted c key)).sum := by
  have hrules' : ∀ f, (rules.addRecorded c.suppressions).suppresses f = heldBack rules₀ (recorded ++ c.suppressions) f := by
    intro f
    rw [RuleSet.suppresses_addRecorded, hrules, heldBack, heldBack, List.any_append, Bool.or_assoc]
  obtain ⟨hfindings, hcounted⟩ := runCheckers_spec (c := c) hrules' checkers { configurations := [c.name] }
  refine ⟨hrules', hfindings.trans (Report.findings_addAll_congr ?_ _), fun key => ?_⟩
  · rfl
  · exact (hcounted key).trans (Int.zero_add _)

end Step

/-! ## All configurations -/

/-- The configurations that are left add what is due for them. The ones before them are `before`; their suppressions have joined
the rules. -/
theorem foldl_extend_spec {d : Dump} {rules : RuleSet} {after : List Configuration} (checkers : List Checker)
    (before : List Configuration) (hsplit : d.configurations = before ++ after) (o : RunOutcome)
    (hrules : ∀ f, o.rules.suppresses f = heldBack rules (d.suppressions ++ before.flatMap (·.suppressions)) f) :
    (after.foldl (RunOutcome.extend checkers) o).report.findings = (o.report.addAll
        ((after.zipIdx before.length).flatMap (fun p => d.dueAt checkers rules p.1 p.2))).findings ∧
      ∀ key, (after.foldl (RunOutcome.extend checkers) o).report.stat key =
        o.report.stat key + (after.map (fun c => (checkers.map (fun checker => checker.counted c key)).sum)).sum := by
  induction after generalizing before o with
  | nil => exact ⟨rfl, by simp⟩
  | cons c after ih =>
    have hupTo : d.suppressions ++ (before ++ [c]).flatMap (·.suppressions) =
        (d.suppressions ++ before.flatMap (·.suppressions)) ++ c.suppressions := by simp
    obtain ⟨hrules₁, hfindings₁, hcounted₁⟩ := runConfiguration_spec (c := c) hrules checkers
    rw [← hupTo] at hrules₁ hfindings₁
    obtain ⟨hfindings, hstat⟩ := ih (before ++ [c]) (by simp [hsplit]) (o.extend checkers c) hrules₁
    constructor
    · -- the report of the one configuration drops duplicates of its own before it is merged
      have hmerged : (o.extend checkers c).report.findings =
          (o.report.addAll (d.dueAt checkers rules c before.length)).findings := by
        rw [RunOutcome.extend, Report.findings_merge, hfindings₁, Report.addAll_findings_addAll, Dump.dueAt,
          Dump.recordedUpTo_eq hsplit]
        rfl
      rw [List.foldl_cons, List.zipIdx_cons, List.flatMap_cons, Report.addAll_append, hfindings, List.length_append]
      exact Report.findings_addAll_congr hmerged _
    · intro key
      rw [List.foldl_cons, hstat key, RunOutcome.extend, Report.stat_merge, hcounted₁ key, List.map_cons, List.sum_cons,
        Int.add_assoc]

/-- A run reports what is due from its checkers and what they counted. -/
theorem Dump.run_spec (d : Dump) (settings : Settings) (given : List Checker) (rules : RuleSet) :
    (d.run settings given rules).report.findings =
        (({} : Report).addAll (d.due (checkersOf settings given) rules)).findings ∧
      ∀ key, (d.run settings given rules).report.stat key = d.counted (checkersOf settings given) key := by
  have hstart : ∀ f, (rules.addRecorded d.suppressions).suppresses f =
      heldBack rules (d.suppressions ++ [].flatMap Configuration.suppressions) f := by
    intro f
    rw [RuleSet.suppresses_addRecorded, heldBack, List.flatMap_nil, List.append_nil]
  obtain ⟨hfindings, hstat⟩ := foldl_extend_spec (checkersOf settings given) [] rfl
    { rules := rules.addRecorded d.suppressions } hstart
  refine ⟨hfindings, fun key => ?_⟩
  exact (hstat key).trans (Int.zero_add _)

namespace TwoConfigurations

/-- A finding at a line of `a.c`. -/
def finding (line : Int) : Finding :=
  { errorId := "variableFormat", message := "m", severity := .warning, location := { file := "a.c", line } }

/-- A checker that finds something at lines 1, 3 and 4 of every configuration. -/
def steady : Checker :=
  { name := "steady", examine := fun _ => { stats := [("sites", 3)], result := .ok [finding 1, finding 3, finding 4] } }

/-- A checker that fails on the second configuration, after it has counted. -/
def shaky : Checker :=
  { name := "shaky"
    examine := fun c => { stats := [("sites", 1)]
                          result := if c.name = "B" then .error (.reported "boom") else .ok [finding 2, finding 4] } }

/-- Line 1 is suppressed for the whole dump, line 3 with the second configuration. -/
def dump : Dump :=
  { configurations := [{ name := "A" },
      { name := "B", suppressions := [{ errorId := "*", file := "a.c", line := .written "3" }] }]
    suppressions := [{ errorId := "variableFormat", file := "a.c", line := .whole 1 }] }

end TwoConfigurations

end FormatAudit
