import FormatAudit.Suppression
import Mathlib

/-!
# Suppressing a file by its name

An entry of the settings that names a file without wildcards matches as a pattern nothing but itself, so it holds back the
findings in the files whose path ends in it. A path may end in the entry at the border of a component (`EndsInComponents`), as
`src/a.c` ends in `a.c`, or inside of one (`SplitsComponent`), as `extra.c` does. The comparison of characters does not tell the
two apart: the entry covers both, and only an entry that starts with a separator never covers a file of the second kind.
-/

namespace FormatAudit

namespace Text.Glob

/-- The characters that stand for others in a pattern. -/
def wildcards : List Char :=
  ['*', '?', '[']

variable {cs : List Char}

/-- A pattern without wildcards asks for its own characters. -/
theorem parseFrom_of_plain (h : ∀ c ∈ wildcards, c ∉ cs) : parseFrom 0 cs = cs.map .char := by
  induction cs with
  | nil => rfl
  | cons c cs ih =>
    have hc : c ∉ wildcards := fun hc => h c hc List.mem_cons_self
    have hcs : ∀ d ∈ wildcards, d ∉ cs := fun d hd hmem => h d hd (List.mem_cons_of_mem _ hmem)
    simp only [wildcards, List.mem_cons, List.not_mem_nil, or_false, not_or] at hc
    obtain ⟨hstar, hmark, hbracket⟩ := hc
    rw [parseFrom, if_neg hstar, if_neg hmark, if_neg hbracket, ih hcs, List.map_cons]

/-- A pattern of plain characters matches just those characters. -/
theorem matchItems_char (cs text : List Char) : matchItems (cs.map .char) text = true ↔ text = cs := by
  induction cs generalizing text with
  | nil => simp [matchItems_nil]
  | cons c cs ih =>
    have hitem : Item.char c ≠ .run := by simp
    cases text with
    | nil => simp [matchItems_item_nil hitem]
    | cons d text => simp [matchItems_item_cons hitem, ih, Item.accepts]

end Text.Glob

/-- A pattern without wildcards matches just itself. -/
theorem Text.globMatches_of_plain {text pattern : String} (h : ∀ c ∈ Glob.wildcards, c ∉ pattern.toList) :
    globMatches text pattern = true ↔ text = pattern := by
  rw [globMatches, Glob.parseFrom_of_plain h, Glob.matchItems_char, String.toList_inj]

/-- A text ends with another one if something stands before that. -/
theorem endsWith_iff {text ending : String} : endsWith text ending = true ↔ ∃ front, text = front ++ ending := by
  rw [endsWith, List.isSuffixOf_iff_suffix]
  constructor
  · rintro ⟨front, hfront⟩
    exact ⟨String.ofList front, by rw [← String.toList_inj]; simp [hfront]⟩
  · rintro ⟨front, rfl⟩
    exact ⟨front.toList, by simp⟩

/-- A path is the given one, or ends in it at the border of a component: a separator stands at the start of the ending or right
before it. -/
def EndsInComponents (path ending : String) : Prop :=
  path = ending ∨ ∃ front, path = front ++ ending ∧ (ending.toList.head? = some '/' ∨ front.toList.getLast? = some '/')

/-- A path ends in a text that starts inside of a component. -/
def SplitsComponent (path ending : String) : Prop :=
  ∃ front c, c ≠ '/' ∧ path = front ++ String.singleton c ++ ending ∧ ending.toList.head? ≠ some '/'

section Endings

variable {path ending front : String}

/-- What stands before an ending is told by the lengths. -/
theorem toList_take_of_append (front ending : String) :
    (front ++ ending).toList.take ((front ++ ending).toList.length - ending.toList.length) = front.toList := by
  simp

theorem endsInComponents_append_iff : EndsInComponents (front ++ ending) ending ↔
    front = "" ∨ ending.toList.head? = some '/' ∨ front.toList.getLast? = some '/' := by
  have hcancel : ∀ front' : String, front ++ ending = front' ++ ending → front = front' := by
    intro front' h
    rw [← String.toList_inj] at h ⊢
    simpa using h
  constructor
  · rintro (h | ⟨front', h, hborder⟩)
    · exact Or.inl (hcancel "" (by rw [h, String.empty_append]))
    · obtain rfl := hcancel front' h
      exact Or.inr hborder
  · rintro (rfl | hborder)
    · exact Or.inl String.empty_append
    · exact Or.inr ⟨front, rfl, hborder⟩

theorem EndsInComponents.exists_front (h : EndsInComponents path ending) : ∃ front, path = front ++ ending := by
  rcases h with rfl | ⟨front, hfront, -⟩
  · exact ⟨"", String.empty_append.symm⟩
  · exact ⟨front, hfront⟩

instance (path ending : String) : Decidable (EndsInComponents path ending) :=
  decidable_of_iff (endsWith path ending = true ∧
      (path.toList.take (path.toList.length - ending.toList.length) = [] ∨ ending.toList.head? = some '/' ∨
        (path.toList.take (path.toList.length - ending.toList.length)).getLast? = some '/')) (by
    constructor
    · rintro ⟨hends, hborder⟩
      obtain ⟨front, rfl⟩ := endsWith_iff.1 hends
      rw [toList_take_of_append, String.toList_eq_nil_iff] at hborder
      exact endsInComponents_append_iff.2 hborder
    · intro h
      obtain ⟨front, rfl⟩ := h.exists_front
      rw [toList_take_of_append, String.toList_eq_nil_iff]
      exact ⟨endsWith_iff.2 ⟨front, rfl⟩, endsInComponents_append_iff.1 h⟩)

/-- A path ends in a text at the border of a component or inside of one, and never both. -/
theorem splitsComponent_iff : SplitsComponent path ending ↔ endsWith path ending = true ∧ ¬EndsInComponents path ending := by
  constructor
  · rintro ⟨front, c, hc, rfl, hhead⟩
    refine ⟨endsWith_iff.2 ⟨_, rfl⟩, fun h => ?_⟩
    rcases endsInComponents_append_iff.1 h with h | h | h
    · simpa using congrArg String.toList h
    · exact hhead h
    · exact hc (by simpa using h)
  · rintro ⟨hends, hborder⟩
    obtain ⟨front, rfl⟩ := endsWith_iff.1 hends
    rw [endsInComponents_append_iff, not_or, not_or] at hborder
    obtain ⟨hfront, hhead, hlast⟩ := hborder
    rcases List.eq_nil_or_concat front.toList with hnil | ⟨init, c, hconcat⟩
    · exact absurd (String.toList_eq_nil_iff.1 hnil) hfront
    · have hsplit : front = String.ofList init ++ String.singleton c := by
        rw [← String.toList_inj]
        simp [hconcat]
      refine ⟨String.ofList init, c, fun hc => hlast ?_, by rw [hsplit], hhead⟩
      simp [hconcat, hc]

/-- A path can be split by an ending exactly if that does not start with a separator. -/
theorem exists_splitsComponent_iff : (∃ path, SplitsComponent path ending) ↔ ending.toList.head? ≠ some '/' := by
  constructor
  · rintro ⟨_, _, _, _, _, hhead⟩
    exact hhead
  · intro hhead
    exact ⟨_, "", 'x', by decide, rfl, hhead⟩

end Endings

namespace RuleSet

variable {entry : String}

theorem rules_addEntry_empty (entry : String) : (addEntry {} entry).rules = [ruleOf entry] := rfl

/-- An entry that names a file without wildcards covers the files whose path ends in it. -/
theorem suppresses_addEntry (hpattern : isPattern entry = true) (hplain : ∀ c ∈ Text.Glob.wildcards, c ∉ entry.toList)
    (f : Finding) : (addEntry {} entry).suppresses f = endsWith f.location.file entry := by
  have hfile : entry ≠ "" := by
    rintro rfl
    cases hpattern
  have hcovers : (entry == f.location.file || endsWith f.location.file entry || Text.globMatches f.location.file entry) =
      endsWith f.location.file entry := by
    rw [Bool.eq_iff_iff, Bool.or_eq_true, Bool.or_eq_true, beq_iff_eq, Text.globMatches_of_plain hplain]
    constructor
    · rintro ((h | h) | h)
      · exact endsWith_iff.2 ⟨"", by rw [h, String.empty_append]⟩
      · exact h
      · exact endsWith_iff.2 ⟨"", by rw [h, String.empty_append]⟩
    · exact fun h => Or.inl (Or.inr h)
  rw [suppresses, rules_addEntry_empty, ruleOf, if_pos hpattern]
  simp only [List.any_cons, List.any_nil, Bool.or_false, SuppressionRule.suppresses, SuppressionRule.covers, if_neg hfile,
    SuppressionRule.coversFile, hcovers]
  simp

/-- What an entry should keep: the findings in files whose path does not end in it at the border of a component. -/
def keptByComponents (entry : String) (findings : List Finding) : List Finding :=
  findings.filter (fun f => !decide (EndsInComponents f.location.file entry))

/-- An entry that names a file without wildcards, in force alone, holds back a finding exactly if the path of its file ends in the
entry. So it keeps what it should, in order, of the findings in whose path it does not start inside of a component, and of no
others. It keeps of every list what it should exactly if it starts with a separator. -/
theorem plain_entry_covers_path_endings (entry : String) (hpattern : isPattern entry = true)
    (hplain : ∀ c ∈ Text.Glob.wildcards, c ∉ entry.toList) :
    (∀ f : Finding, (addEntry {} entry).suppresses f = true ↔ ∃ front, f.location.file = front ++ entry) ∧
    (∀ findings : List Finding, (addEntry {} entry).keep findings = keptByComponents entry findings ↔
      ∀ f ∈ findings, ¬SplitsComponent f.location.file entry) ∧
    ((∀ findings : List Finding, (addEntry {} entry).keep findings = keptByComponents entry findings) ↔
      entry.toList.head? = some '/') := by
  have hsuppresses := suppresses_addEntry hpattern hplain
  have hkeep : ∀ findings : List Finding, (addEntry {} entry).keep findings = keptByComponents entry findings ↔
      ∀ f ∈ findings, ¬SplitsComponent f.location.file entry := by
    intro findings
    rw [keep, keptByComponents]
    constructor
    · intro heq f hf hsplits
      obtain ⟨hends, hborder⟩ := splitsComponent_iff.1 hsplits
      have hkept : f ∈ findings.filter (fun f => !decide (EndsInComponents f.location.file entry)) :=
        List.mem_filter.2 ⟨hf, by simp [hborder]⟩
      rw [← heq, List.mem_filter, hsuppresses, hends] at hkept
      cases hkept.2
    · intro hnone
      refine List.filter_congr (fun f hf => congrArg not ?_)
      rw [hsuppresses, Bool.eq_iff_iff, decide_eq_true_eq]
      constructor
      · intro hends
        by_contra hborder
        exact hnone f hf (splitsComponent_iff.2 ⟨hends, hborder⟩)
      · exact fun hborder => endsWith_iff.2 hborder.exists_front
  refine ⟨fun f => by rw [hsuppresses, endsWith_iff], hkeep, ?_⟩
  constructor
  · intro hall
    by_contra hhead
    obtain ⟨path, hpath⟩ := exists_splitsComponent_iff.2 hhead
    have hnone := (hkeep [{ errorId := "", message := "", severity := .error, location := { file := path } }]).1 (hall _)
    exact hnone _ (List.mem_singleton_self _) hpath
  · intro hhead findings
    refine (hkeep findings).2 (fun f _ hsplits => ?_)
    exact exists_splitsComponent_iff.1 ⟨_, hsplits⟩ hhead

namespace NamedFile

/-- A finding in a file. -/
def findingIn (file : String) : Finding :=
  { errorId := formatErrorId, message := "", severity := .warning, location := { file, line := 1, column := 1 } }

theorem plain : ∀ c ∈ Text.Glob.wildcards, c ∉ "a.c".toList := by
  simp [Text.Glob.wildcards]

end NamedFile

/-- The entry `a.c` holds back what is found in `src/a.c` and keeps the rest in order, but it does not do so for every list. -/
theorem named_file_covered_in_directory : isPattern "a.c" = true ∧ (∀ c ∈ Text.Glob.wildcards, c ∉ "a.c".toList) ∧
    (addEntry {} "a.c").keep [NamedFile.findingIn "b.c", NamedFile.findingIn "src/a.c", NamedFile.findingIn "a.cc"] =
      [NamedFile.findingIn "b.c", NamedFile.findingIn "a.cc"] ∧
    ¬∀ findings : List Finding, (addEntry {} "a.c").keep findings = keptByComponents "a.c" findings := by
  obtain ⟨-, hkeep, hall⟩ := plain_entry_covers_path_endings "a.c" (by decide) NamedFile.plain
  refine ⟨by decide, NamedFile.plain, ?_, fun h => absurd (hall.1 h) (by decide)⟩
  rw [(hkeep _).2]
  · decide
  · simp only [splitsComponent_iff]
    decide

/-- The entry `a.c` names a file without wildcards, and it holds back what is found in `extra.c`, whose path does not end in it at
the border of a component. -/
theorem named_file_covers_longer_name : isPattern "a.c" = true ∧ (∀ c ∈ Text.Glob.wildcards, c ∉ "a.c".toList) ∧
    ¬EndsInComponents "extra.c" "a.c" ∧ keptByComponents "a.c" [NamedFile.findingIn "extra.c"] = [NamedFile.findingIn "extra.c"] ∧
    (addEntry {} "a.c").keep [NamedFile.findingIn "extra.c"] = [] := by
  refine ⟨by decide, NamedFile.plain, by decide, by decide, by decide⟩

end RuleSet

end FormatAudit
