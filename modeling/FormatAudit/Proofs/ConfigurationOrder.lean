import FormatAudit.Proofs.Runs
import Mathlib.Data.Set.Basic

/-!
# The order of configurations

The rules are shared by all configurations of a dump, and each configuration adds its own when it is reached. So a suppression
recorded with one configuration holds for the configurations after it and not for those before it, and the order can decide what
is reported (`late_suppression_comes_too_late`).

Whether it does is told by pairs of configurations: one that reports a finding by itself, and one whose own suppressions cover
that finding (`Dump.Interferes`). Without such a pair every order reports the same keys. With one, an order that starts with the
first of the two reports the key, and an order that starts with the second does not.
-/

namespace FormatAudit

/-- A suppression looks at the key of a finding only. -/
theorem heldBack_congr {f g : Finding} (h : f.key = g.key) (rules : RuleSet) (recorded : List RecordedSuppression) :
    heldBack rules recorded f = heldBack rules recorded g := by
  obtain ⟨herror, hrest⟩ := Prod.mk.inj h
  obtain ⟨hlocation, -⟩ := Prod.mk.inj hrest
  have hrule : ∀ s : SuppressionRule, s.suppresses f = s.suppresses g := by
    intro s
    rw [SuppressionRule.suppresses, SuppressionRule.suppresses, herror, hlocation]
  have hrecorded : ∀ s : RecordedSuppression, s.suppresses f = s.suppresses g := by
    intro s
    simp only [RecordedSuppression.suppresses, hrule]
  simp only [heldBack, RuleSet.suppresses, hrule, hrecorded]

/-- More suppressions hold a finding back if they did before or one of the new ones does. -/
theorem heldBack_append_eq_false {rules : RuleSet} {recorded more : List RecordedSuppression} {f : Finding} :
    heldBack rules (recorded ++ more) f = false ↔ heldBack rules recorded f = false ∧ ∀ s ∈ more, s.suppresses f = false := by
  simp only [heldBack, List.any_append, Bool.or_eq_false_iff, List.any_eq_false, Bool.not_eq_true, and_assoc]

/-- Some checker finds something in a configuration. -/
def Found (checkers : List Checker) (c : Configuration) (f : Finding) : Prop :=
  ∃ checker ∈ checkers, ∃ fs, (checker.examine c).result = .ok fs ∧ f ∈ fs

/-- Some checker fails on a configuration, and the finding about that has the given key. -/
def FailsAs (checkers : List Checker) (c : Configuration) (k : String × Location × String) : Prop :=
  ∃ checker ∈ checkers, ∃ fault, (checker.examine c).result = .error fault ∧ (failureFinding checker.name fault).key = k

/-- A key is due from some checker if one fails with it, or finds it and it is not held back. -/
theorem exists_due_iff {checkers : List Checker} {rules : RuleSet} {recorded : List RecordedSuppression} {c : Configuration}
    {k : String × Location × String} :
    (∃ checker ∈ checkers, ∃ f ∈ checker.due rules recorded c, f.key = k) ↔
      FailsAs checkers c k ∨ ∃ f, Found checkers c f ∧ heldBack rules recorded f = false ∧ f.key = k := by
  constructor
  · rintro ⟨checker, hchecker, f, hf, hkey⟩
    unfold Checker.due at hf
    split at hf
    · rename_i fs hfs
      obtain ⟨hmem, hheld⟩ := List.mem_filter.1 hf
      exact Or.inr ⟨f, ⟨checker, hchecker, fs, hfs, hmem⟩, by simpa using hheld, hkey⟩
    · rename_i fault hfault
      obtain rfl := List.mem_singleton.1 hf
      exact Or.inl ⟨checker, hchecker, fault, hfault, hkey⟩
  · rintro (⟨checker, hchecker, fault, hfault, hkey⟩ | ⟨f, ⟨checker, hchecker, fs, hfs, hmem⟩, hheld, hkey⟩)
    · refine ⟨checker, hchecker, failureFinding checker.name fault, ?_, hkey⟩
      simp [Checker.due, hfault]
    · refine ⟨checker, hchecker, f, ?_, hkey⟩
      simp [Checker.due, hfs, hmem, hheld]

namespace Dump

variable {d : Dump} {checkers : List Checker} {rules : RuleSet}

/-- The keys that a run over a dump reports. -/
def reportedKeys (d : Dump) (settings : Settings) (given : List Checker) (rules : RuleSet) :
    Set (String × Location × String) :=
  { k | ∃ f ∈ (d.run settings given rules).report.findings, f.key = k }

/-- A configuration reports a finding by itself: it is found there, and neither the rules nor the suppressions of the dump and of
this configuration hold it back. -/
def ReportsAlone (d : Dump) (checkers : List Checker) (rules : RuleSet) (c : Configuration) (f : Finding) : Prop :=
  Found checkers c f ∧ heldBack rules (d.suppressions ++ c.suppressions) f = false

/-- One configuration reports a finding by itself and the suppressions of another one cover it. Keys that a failing checker
reports are left out: they are reported in any case. -/
def Interferes (d : Dump) (checkers : List Checker) (rules : RuleSet) : Prop :=
  ∃ c ∈ d.configurations, ∃ f, d.ReportsAlone checkers rules c f ∧
    (∀ c' ∈ d.configurations, ¬FailsAs checkers c' f.key) ∧
    ∃ c' ∈ d.configurations, ∃ s ∈ c'.suppressions, s.suppresses f = true

/-! ## Keys that are reported -/

/-- What is due, told by the place of the configuration in the list. -/
theorem mem_due_iff {f : Finding} : f ∈ d.due checkers rules ↔
    ∃ before c after, d.configurations = before ++ c :: after ∧
      ∃ checker ∈ checkers, f ∈ checker.due rules (d.suppressions ++ (before ++ [c]).flatMap (·.suppressions)) c := by
  simp only [due, dueAt, List.mem_flatMap]
  constructor
  · rintro ⟨⟨c, i⟩, hmem, hf⟩
    have hget := List.mem_zipIdx_iff_getElem?.1 hmem
    obtain ⟨hlt, hc⟩ := List.getElem?_eq_some_iff.1 hget
    have hparts : d.configurations = d.configurations.take i ++ c :: d.configurations.drop (i + 1) := by
      have hdrop := List.drop_eq_getElem_cons hlt
      rw [hc] at hdrop
      rw [← hdrop, List.take_append_drop]
    have hlength : (d.configurations.take i).length = i := List.length_take_of_le hlt.le
    refine ⟨_, c, _, hparts, ?_⟩
    rw [← recordedUpTo_eq hparts, hlength]
    exact hf
  · rintro ⟨before, c, after, hparts, hf⟩
    refine ⟨(c, before.length), List.mem_zipIdx_iff_getElem?.2 ?_, ?_⟩
    · simp [hparts]
    · rw [recordedUpTo_eq hparts]
      exact hf

/-- The keys that are reported are the keys of what is due. -/
theorem reportedKeys_eq_due (d : Dump) (settings : Settings) (given : List Checker) (rules : RuleSet) :
    d.reportedKeys settings given rules = { k | ∃ f ∈ d.due (checkersOf settings given) rules, f.key = k } := by
  refine Set.ext fun k => ?_
  simp only [reportedKeys, Set.mem_ofPred_eq, (d.run_spec settings given rules).1]
  exact Report.exists_key_addAll

/-- A key is due if a checker fails with it on some configuration, or finds it in one where nothing recorded so far holds it
back. -/
theorem exists_mem_due_iff {k : String × Location × String} : (∃ f ∈ d.due checkers rules, f.key = k) ↔
    (∃ c ∈ d.configurations, FailsAs checkers c k) ∨
      ∃ before c after, d.configurations = before ++ c :: after ∧ ∃ f, Found checkers c f ∧
        heldBack rules (d.suppressions ++ (before ++ [c]).flatMap (·.suppressions)) f = false ∧ f.key = k := by
  constructor
  · rintro ⟨f, hf, hkey⟩
    obtain ⟨before, c, after, hparts, checker, hchecker, hf⟩ := mem_due_iff.1 hf
    rcases exists_due_iff.1 ⟨checker, hchecker, f, hf, hkey⟩ with hfails | hfound
    · exact Or.inl ⟨c, by simp [hparts], hfails⟩
    · exact Or.inr ⟨before, c, after, hparts, hfound⟩
  · intro h
    have hdue : ∃ before c after, d.configurations = before ++ c :: after ∧ ∃ checker ∈ checkers,
        ∃ f ∈ checker.due rules (d.suppressions ++ (before ++ [c]).flatMap (·.suppressions)) c, f.key = k := by
      rcases h with ⟨c, hc, hfails⟩ | ⟨before, c, after, hparts, hfound⟩
      · obtain ⟨before, after, hparts⟩ := List.append_of_mem hc
        exact ⟨before, c, after, hparts, exists_due_iff.2 (Or.inl hfails)⟩
      · exact ⟨before, c, after, hparts, exists_due_iff.2 (Or.inr hfound)⟩
    obtain ⟨before, c, after, hparts, checker, hchecker, f, hf, hkey⟩ := hdue
    exact ⟨f, mem_due_iff.2 ⟨before, c, after, hparts, checker, hchecker, hf⟩, hkey⟩

/-! ## Orders -/

/-- Without interference a key is due in any order exactly if a configuration fails with it or reports it by itself. -/
theorem exists_mem_due_iff_of_not_interferes {cs : List Configuration} (hperm : cs.Perm d.configurations)
    (hno : ¬d.Interferes checkers rules) {k : String × Location × String} :
    (∃ f ∈ ({ d with configurations := cs } : Dump).due checkers rules, f.key = k) ↔
      ∃ c ∈ d.configurations, FailsAs checkers c k ∨ ∃ f, d.ReportsAlone checkers rules c f ∧ f.key = k := by
  rw [exists_mem_due_iff]
  constructor
  · rintro (⟨c, hc, hfails⟩ | ⟨before, c, after, hparts, f, hfound, hheld, hkey⟩)
    · exact ⟨c, hperm.mem_iff.1 hc, Or.inl hfails⟩
    · have hc : c ∈ cs := by simp [show cs = before ++ c :: after from hparts]
      obtain ⟨hown, hrecorded⟩ := heldBack_append_eq_false.1 hheld
      have halone : heldBack rules (d.suppressions ++ c.suppressions) f = false :=
        heldBack_append_eq_false.2 ⟨hown, fun s hs => hrecorded s (by simp [hs])⟩
      exact ⟨c, hperm.mem_iff.1 hc, Or.inr ⟨f, ⟨hfound, halone⟩, hkey⟩⟩
  · rintro ⟨c, hc, hfails | ⟨f, ⟨hfound, halone⟩, rfl⟩⟩
    · exact Or.inl ⟨c, hperm.mem_iff.2 hc, hfails⟩
    · by_cases hfails : ∃ c' ∈ d.configurations, FailsAs checkers c' f.key
      · obtain ⟨c', hc', hfails⟩ := hfails
        exact Or.inl ⟨c', hperm.mem_iff.2 hc', hfails⟩
      · -- no configuration covers the finding, so those that come before `c` do not
        have huncovered : ∀ c' ∈ cs, ∀ s ∈ c'.suppressions, s.suppresses f = false := by
          intro c' hc' s hs
          by_contra hcovers
          refine hno ⟨c, hc, f, ⟨hfound, halone⟩, fun c'' hc'' h => hfails ⟨c'', hc'', h⟩, c', hperm.mem_iff.1 hc', s, hs, ?_⟩
          simpa using hcovers
        obtain ⟨before, after, hparts⟩ := List.append_of_mem (hperm.mem_iff.2 hc)
        refine Or.inr ⟨before, c, after, hparts, f, hfound, heldBack_append_eq_false.2 ⟨?_, ?_⟩, rfl⟩
        · exact (heldBack_append_eq_false.1 halone).1
        · intro s hs
          obtain ⟨c', hc', hs⟩ := List.mem_flatMap.1 hs
          have hmem : c' ∈ cs := by
            rw [hparts, List.append_cons]
            exact List.mem_append_left _ hc'
          exact huncovered c' hmem s hs

/-- A configuration that comes first reports what it reports by itself. -/
theorem key_due_of_first {c : Configuration} {cs : List Configuration} {f : Finding} (h : d.ReportsAlone checkers rules c f) :
    ∃ g ∈ ({ d with configurations := c :: cs } : Dump).due checkers rules, g.key = f.key := by
  obtain ⟨hfound, hheld⟩ := h
  refine exists_mem_due_iff.2 (Or.inr ⟨[], c, cs, rfl, f, hfound, ?_, rfl⟩)
  simpa using hheld

/-- What is covered by the configuration that comes first is not reported, unless a checker fails with its key. -/
theorem key_not_due_of_first {c : Configuration} {cs : List Configuration} {f : Finding} {s : RecordedSuppression}
    (hs : s ∈ c.suppressions) (hcovers : s.suppresses f = true) (hfails : ∀ c' ∈ c :: cs, ¬FailsAs checkers c' f.key) :
    ¬∃ g ∈ ({ d with configurations := c :: cs } : Dump).due checkers rules, g.key = f.key := by
  intro hdue
  rcases exists_mem_due_iff.1 hdue with ⟨c', hc', hfail⟩ | ⟨before, c', after, hparts, g, -, hheld, hkey⟩
  · exact hfails c' hc' hfail
  · have hfirst : c ∈ before ++ [c'] := by
      cases before with
      | nil => simp [(List.cons.inj hparts).1]
      | cons b before => simp [(List.cons.inj hparts).1]
    rw [heldBack_congr hkey] at hheld
    have hno := (heldBack_append_eq_false.1 hheld).2 s (List.mem_flatMap.2 ⟨c, hfirst, hs⟩)
    rw [hcovers] at hno
    cases hno

/-- Every order of the configurations of a dump gives the same keys exactly if no configuration's own suppressions cover a finding
that another one reports by itself. -/
theorem order_irrelevant_iff (d : Dump) (settings : Settings) (given : List Checker) (rules : RuleSet) :
    (∀ cs : List Configuration, cs.Perm d.configurations →
        ({ d with configurations := cs } : Dump).reportedKeys settings given rules = d.reportedKeys settings given rules) ↔
      ¬d.Interferes (checkersOf settings given) rules := by
  simp only [reportedKeys_eq_due]
  constructor
  · rintro hsame ⟨c, hc, f, halone, hfails, c', hc', s, hs, hcovers⟩
    obtain ⟨before, after, hparts⟩ := List.append_of_mem hc
    obtain ⟨before', after', hparts'⟩ := List.append_of_mem hc'
    have hperm : (c :: (before ++ after)).Perm d.configurations := hparts ▸ List.perm_middle.symm
    have hperm' : (c' :: (before' ++ after')).Perm d.configurations := hparts' ▸ List.perm_middle.symm
    have hkeys := (hsame _ hperm).trans (hsame _ hperm').symm
    have hdue := (Set.ext_iff.1 hkeys f.key).1 (key_due_of_first halone)
    exact key_not_due_of_first hs hcovers (fun c'' hc'' => hfails c'' (hperm'.mem_iff.1 hc'')) hdue
  · intro hno cs hperm
    refine Set.ext fun k => ?_
    rw [Set.mem_ofPred_eq, Set.mem_ofPred_eq, exists_mem_due_iff_of_not_interferes hperm hno]
    exact (exists_mem_due_iff_of_not_interferes (List.Perm.refl _) hno).symm

end Dump

namespace SharedSuppression

/-- A suppression of line 3 of `a.c`. -/
def suppression : RecordedSuppression :=
  { errorId := "*", file := "a.c", line := .written "3" }

/-- Two configurations that record the same suppression. -/
def dump : Dump :=
  { configurations := [{ name := "A", suppressions := [suppression] }, { name := "B", suppressions := [suppression] }] }

theorem not_interferes : ¬dump.Interferes [TwoConfigurations.steady, TwoConfigurations.shaky] {} := by
  have hown : ∀ c ∈ dump.configurations, c.suppressions = [suppression] := by decide
  rintro ⟨c, hc, f, ⟨-, hheld⟩, -, c', hc', s, hs, hcovers⟩
  rw [hown c' hc'] at hs
  have hno := (heldBack_append_eq_false.1 hheld).2 s (by rw [hown c hc]; exact hs)
  rw [hcovers] at hno
  cases hno

end SharedSuppression

/-- Configurations that record the same suppression may come in any order, also if a checker finds what it covers and another one
fails. -/
theorem shared_suppression_in_any_order :
    ({ SharedSuppression.dump with configurations := SharedSuppression.dump.configurations.reverse } : Dump).reportedKeys
        {} [TwoConfigurations.steady, TwoConfigurations.shaky] {} =
      SharedSuppression.dump.reportedKeys {} [TwoConfigurations.steady, TwoConfigurations.shaky] {} :=
  (Dump.order_irrelevant_iff SharedSuppression.dump {} [TwoConfigurations.steady, TwoConfigurations.shaky] {}).2
    SharedSuppression.not_interferes _ (List.reverse_perm _)

namespace LateSuppression

/-- A configuration without tokens that suppresses findings about formats everywhere. -/
def silencer : Configuration :=
  { name := "silencer", suppressions := [{ errorId := formatErrorId }] }

/-- A dump in which the suppression comes last. -/
def dump : Dump :=
  { configurations := [PrintTwice.config, silencer] }

/-- The same dump with the suppression first. -/
def swapped : Dump :=
  { configurations := [silencer, PrintTwice.config] }

theorem reportsAlone : dump.ReportsAlone [formatChecker {}] {} PrintTwice.config PrintTwice.finding :=
  ⟨⟨formatChecker {}, List.mem_singleton.2 rfl, _, PrintTwice.examine_ok, List.mem_cons_self⟩, by decide⟩

theorem not_failsAs : ∀ c ∈ swapped.configurations, ¬FailsAs [formatChecker {}] c PrintTwice.finding.key := by
  rintro c hc ⟨checker, hchecker, fault, hfault, -⟩
  obtain rfl := List.mem_singleton.1 hchecker
  have hsilencer : ((formatChecker {}).examine silencer).result = .ok [] := by rfl
  rcases List.mem_cons.1 hc with rfl | hc
  · rw [hsilencer] at hfault
    cases hfault
  · obtain rfl := List.mem_singleton.1 hc
    rw [PrintTwice.examine_ok] at hfault
    cases hfault

end LateSuppression

open LateSuppression in
/-- The finding for `printf(v)` is reported if the configuration that suppresses it comes after it, and not if it comes before. -/
theorem late_suppression_comes_too_late :
    swapped.configurations.Perm dump.configurations ∧
      swapped.reportedKeys {} [] {} ≠ dump.reportedKeys {} [] {} := by
  refine ⟨List.Perm.swap PrintTwice.config silencer [], fun hsame => ?_⟩
  rw [Dump.reportedKeys_eq_due, Dump.reportedKeys_eq_due] at hsame
  have hdue : ∃ g ∈ dump.due [formatChecker {}] {}, g.key = PrintTwice.finding.key :=
    Dump.key_due_of_first (d := dump) reportsAlone
  have hnot : ¬∃ g ∈ swapped.due [formatChecker {}] {}, g.key = PrintTwice.finding.key :=
    Dump.key_not_due_of_first (d := swapped) List.mem_cons_self (by decide) not_failsAs
  exact hnot ((Set.ext_iff.1 hsame PrintTwice.finding.key).2 hdue)

end FormatAudit
