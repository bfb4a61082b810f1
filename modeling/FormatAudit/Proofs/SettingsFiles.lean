import Mathlib
import FormatAudit.Settings.File
import FormatAudit.Proofs.FunctionLists

/-!
# What settings files say

A settings file is one form, a list of entries after the name of the program (`Holds`). Each entry makes one `Choice`: a flag,
some functions or some suppressions (`Makes`). The settings are what the choices leave when one is applied after the other
(`takeEntries_eq_ok_iff`), and since choices under different keys do not touch the same field (`Choice.apply_comm`), entries under
different keys can be moved past each other (`takeEntries_of_moved`).
-/

namespace FormatAudit

namespace Settings

/-! ## Values -/

/-- A symbol that is a word for a flag, whatever the case of its letters. -/
inductive IsFlag : SExpr → Bool → Prop where
  | on {name : String} (h : lowered name ∈ onWords) : IsFlag (.symbol name) true
  | off {name : String} (h : lowered name ∈ offWords) : IsFlag (.symbol name) false

/-- A form gives a function: a symbol or string that spells one, or a list of one that spells a name and a place that is not
negative. -/
inductive GivesFunction : SExpr → FunctionSpec → Prop where
  | word {form : SExpr} {text : String} {spec : FunctionSpec} (hword : form.word? = some text)
      (h : Spells (Text.isBlank · = true) text.toList spec) : GivesFunction form spec
  | pair {form : SExpr} {text function : String} {place : Int} (hword : form.word? = some text)
      (h : Spells (Text.isBlank · = true) text.toList (function, none)) (hplace : 0 ≤ place) :
      GivesFunction (.list [form, .whole place]) (function, some place)

/-- A flag is read from exactly the forms that stand for it. -/
theorem flagOf_eq_ok_iff {key : String} {form : SExpr} {flag : Bool} : flagOf key form = .ok flag ↔ IsFlag form flag := by
  have hapart : ∀ word ∈ onWords, word ∉ offWords := by decide
  constructor
  · intro h
    cases form with
    | symbol name =>
      rw [flagOf, SExpr.symbolName?] at h
      simp only [List.contains_iff_mem] at h
      split at h
      · rename_i hon
        cases h
        exact .on hon
      · split at h
        · rename_i hoff
          cases h
          exact .off hoff
        · cases h
    | _ => cases h
  · rintro (hon | hoff)
    · simp [flagOf, SExpr.symbolName?, hon]
    · have hon : lowered _ ∉ onWords := fun hon => hapart _ hon hoff
      simp [flagOf, SExpr.symbolName?, hon, hoff]

/-- A function is read from a form if the form gives one. -/
theorem functionOf_eq_ok_iff {form : SExpr} {spec : FunctionSpec} : functionOf form = .ok spec ↔ GivesFunction form spec := by
  constructor
  · intro h
    unfold functionOf at h
    split at h
    · rename_i name
      exact .word rfl (FunctionSpec.spells_of_parse h)
    · rename_i text
      exact .word rfl (FunctionSpec.spells_of_parse h)
    · rename_i head place
      split at h
      · cases h
      · rename_i name hname
        obtain ⟨⟨function, index⟩, hparse, h⟩ := except_bind_eq_ok.1 h
        cases index with
        | some n => cases h
        | none =>
          simp only [Option.isSome_none, Bool.false_eq_true, if_false] at h
          split at h
          · cases h
          · rename_i hplace
            cases h
            exact .pair hname (FunctionSpec.spells_of_parse hparse) (Int.not_lt.1 hplace)
    · cases h
  · intro h
    cases h with
    | @word form text spec hword hspells =>
      have hparse : FunctionSpec.parse text = .ok spec := FunctionSpec.parse_of_spells hspells
      cases form with
      | symbol name =>
        cases hword
        exact hparse
      | string text' =>
        cases hword
        exact hparse
      | _ => cases hword
    | @pair form text function place hword hspells hplace =>
      have hparse : FunctionSpec.parse text = .ok (function, none) := FunctionSpec.parse_of_spells hspells
      simp only [functionOf, hword, hparse, except_ok_bind, Option.isSome_none, Bool.false_eq_true, if_false,
        if_neg (Int.not_lt.2 hplace)]
      rfl

/-- Functions are read form by form. -/
theorem functionsOf_eq_ok_iff {forms : List SExpr} {specs : List FunctionSpec} :
    functionsOf forms = .ok specs ↔ List.Forall₂ GivesFunction forms specs := by
  rw [all_eq_ok_iff functionOf functionsOf rfl (fun _ _ => rfl)]
  simp only [functionOf_eq_ok_iff]

/-- The word of a form, or the error that there is none. -/
def wordOf (form : SExpr) : Except SettingsError String :=
  match form.word? with
  | none => .error (.malformedSuppression form)
  | some word => .ok word

/-- Suppressions are read from the first form to the last. -/
theorem suppressionsOf_cons (form : SExpr) (forms : List SExpr) :
    suppressionsOf (form :: forms) = (do let word ← wordOf form; let more ← suppressionsOf forms; pure (word :: more)) := by
  rw [suppressionsOf, wordOf]
  cases form.word? <;> rfl

/-- Suppressions are read if every form is a word. -/
theorem suppressionsOf_eq_ok_iff {forms : List SExpr} {words : List String} :
    suppressionsOf forms = .ok words ↔ List.Forall₂ (fun form word => form.word? = some word) forms words := by
  have hword : ∀ form word, wordOf form = .ok word ↔ form.word? = some word := by
    intro form word
    unfold wordOf
    cases form.word? <;> simp
  rw [all_eq_ok_iff wordOf suppressionsOf rfl suppressionsOf_cons]
  simp only [hword]

/-! ## Choices -/

/-- What one entry of a settings file chooses. -/
inductive Choice where
  | skipBareCalls (flag : Bool)
  | findWrappers (flag : Bool)
  | functions (specs : List FunctionSpec)
  | suppress (entries : List String)

namespace Choice

/-- The name under which a file has the choice. -/
def key : Choice → String
  | .skipBareCalls _ => "no-args"
  | .findWrappers _ => "infer-wrappers"
  | .functions _ => "funcs"
  | .suppress _ => "suppress"

/-- The settings after a choice. -/
def apply (s : Settings) : Choice → Settings
  | .skipBareCalls flag => { s with skipBareCalls := flag }
  | .findWrappers flag => { s with findWrappers := flag }
  | .functions specs => { s with functions := Table.putAll s.functions specs }
  | .suppress entries => { s with suppress := s.suppress ++ entries }

/-- The values that make a choice: one word for a flag, forms that give functions, or symbols and strings. -/
inductive HasValues : Choice → List SExpr → Prop where
  | skipBareCalls {form : SExpr} {flag : Bool} (h : IsFlag form flag) : HasValues (.skipBareCalls flag) [form]
  | findWrappers {form : SExpr} {flag : Bool} (h : IsFlag form flag) : HasValues (.findWrappers flag) [form]
  | functions {forms : List SExpr} {specs : List FunctionSpec} (h : List.Forall₂ GivesFunction forms specs) :
      HasValues (.functions specs) forms
  | suppress {forms : List SExpr} {words : List String} (h : List.Forall₂ (fun form word => form.word? = some word) forms words) :
      HasValues (.suppress words) forms

end Choice

/-- An entry makes a choice: it is a list of the name of the choice and its values. -/
def Makes (entry : SExpr) (choice : Choice) : Prop :=
  ∃ values, entry = .list (.symbol choice.key :: values) ∧ choice.HasValues values

/-- A setting with one value has exactly that one. -/
theorem oneValue_eq_ok_iff {key : String} {values : List SExpr} {form : SExpr} :
    oneValue key values = .ok form ↔ values = [form] := by
  rcases values with _ | ⟨form', _ | ⟨form'', forms⟩⟩ <;> simp [oneValue]

/-- A setting is taken if it is a choice with its values. -/
theorem takeSetting_eq_ok_iff {s s' : Settings} {key : String} {values : List SExpr} :
    s.takeSetting key values = .ok s' ↔ ∃ choice : Choice, choice.key = key ∧ choice.HasValues values ∧ s' = choice.apply s := by
  constructor
  · intro h
    unfold takeSetting at h
    split at h
    · rename_i hkey
      obtain ⟨form, hform, h⟩ := except_bind_eq_ok.1 h
      obtain ⟨flag, hflag, h⟩ := except_bind_eq_ok.1 h
      cases h
      cases oneValue_eq_ok_iff.1 hform
      exact ⟨.skipBareCalls flag, hkey.symm, .skipBareCalls (flagOf_eq_ok_iff.1 hflag), rfl⟩
    split at h
    · rename_i hkey
      obtain ⟨form, hform, h⟩ := except_bind_eq_ok.1 h
      obtain ⟨flag, hflag, h⟩ := except_bind_eq_ok.1 h
      cases h
      cases oneValue_eq_ok_iff.1 hform
      exact ⟨.findWrappers flag, hkey.symm, .findWrappers (flagOf_eq_ok_iff.1 hflag), rfl⟩
    split at h
    · rename_i hkey
      obtain ⟨specs, hspecs, h⟩ := except_bind_eq_ok.1 h
      cases h
      exact ⟨.functions specs, hkey.symm, .functions (functionsOf_eq_ok_iff.1 hspecs), rfl⟩
    split at h
    · rename_i hkey
      obtain ⟨entries, hentries, h⟩ := except_bind_eq_ok.1 h
      cases h
      exact ⟨.suppress entries, hkey.symm, .suppress (suppressionsOf_eq_ok_iff.1 hentries), rfl⟩
    · cases h
  · rintro ⟨choice, rfl, hvalues, rfl⟩
    cases hvalues with
    | skipBareCalls hflag =>
      rw [Choice.key, takeSetting, if_pos rfl, oneValue_eq_ok_iff.2 rfl, except_ok_bind, flagOf_eq_ok_iff.2 hflag]
      rfl
    | findWrappers hflag =>
      rw [Choice.key, takeSetting, if_neg (by decide), if_pos rfl, oneValue_eq_ok_iff.2 rfl, except_ok_bind,
        flagOf_eq_ok_iff.2 hflag]
      rfl
    | functions hspecs =>
      rw [Choice.key, takeSetting, if_neg (by decide), if_neg (by decide), if_pos rfl, functionsOf_eq_ok_iff.2 hspecs]
      rfl
    | suppress hwords =>
      rw [Choice.key, takeSetting, if_neg (by decide), if_neg (by decide), if_neg (by decide), if_pos rfl,
        suppressionsOf_eq_ok_iff.2 hwords]
      rfl

/-- An entry is taken if it makes a choice. -/
theorem takeEntry_eq_ok_iff {s s' : Settings} {entry : SExpr} :
    s.takeEntry entry = .ok s' ↔ ∃ choice, Makes entry choice ∧ s' = choice.apply s := by
  constructor
  · intro h
    unfold takeEntry at h
    split at h
    · obtain ⟨choice, rfl, hvalues, rfl⟩ := takeSetting_eq_ok_iff.1 h
      exact ⟨choice, ⟨_, rfl, hvalues⟩, rfl⟩
    · cases h
  · rintro ⟨choice, ⟨values, rfl, hvalues⟩, rfl⟩
    exact takeSetting_eq_ok_iff.2 ⟨choice, rfl, hvalues, rfl⟩

/-- Entries are taken exactly if each makes a choice, and then the choices are applied in order. -/
theorem takeEntries_eq_ok_iff {s s' : Settings} {entries : List SExpr} :
    s.takeEntries entries = .ok s' ↔ ∃ choices, List.Forall₂ Makes entries choices ∧ s' = choices.foldl Choice.apply s := by
  induction entries generalizing s with
  | nil => simp [takeEntries, eq_comm]
  | cons entry entries ih =>
    rw [takeEntries, except_bind_eq_ok]
    constructor
    · rintro ⟨s₁, hentry, hentries⟩
      obtain ⟨choice, hchoice, rfl⟩ := takeEntry_eq_ok_iff.1 hentry
      obtain ⟨choices, hchoices, rfl⟩ := ih.1 hentries
      exact ⟨choice :: choices, .cons hchoice hchoices, rfl⟩
    · rintro ⟨choices, hchoices, rfl⟩
      obtain ⟨choice, choices, hchoice, hrest, rfl⟩ := List.forall₂_cons_left_iff.1 hchoices
      exact ⟨choice.apply s, takeEntry_eq_ok_iff.2 ⟨choice, hchoice, rfl⟩, ih.2 ⟨choices, hrest, rfl⟩⟩

/-! ## What the choices come to -/

namespace Choice

/-- The word on skipping bare calls, if the choice is about that. -/
def skip? : Choice → Option Bool
  | .skipBareCalls flag => some flag
  | _ => none

/-- The word on finding wrappers, if the choice is about that. -/
def find? : Choice → Option Bool
  | .findWrappers flag => some flag
  | _ => none

/-- The functions of a choice. -/
def specs : Choice → List FunctionSpec
  | .functions specs => specs
  | _ => []

/-- The suppressions of a choice. -/
def suppressions : Choice → List String
  | .suppress entries => entries
  | _ => []

/-- The last choice of a flag counts. -/
theorem getD_getLast?_filterMap_cons (word? : Choice → Option Bool) (choice : Choice) (choices : List Choice) (flag : Bool) :
    ((choice :: choices).filterMap word?).getLast?.getD flag =
      (choices.filterMap word?).getLast?.getD ((word? choice).getD flag) := by
  cases h : word? choice with
  | none => rw [List.filterMap_cons_none h, Option.getD_none]
  | some word => rw [List.filterMap_cons_some h, List.getLast?_cons, Option.getD_some, Option.getD_some]

/-- Of each flag the last word holds, functions are put in one after the other, and suppressions add up. -/
theorem foldl_apply (s : Settings) (choices : List Choice) :
    choices.foldl apply s =
      { skipBareCalls := (choices.filterMap skip?).getLast?.getD s.skipBareCalls
        functions := Table.putAll s.functions (choices.flatMap specs)
        findWrappers := (choices.filterMap find?).getLast?.getD s.findWrappers
        suppress := s.suppress ++ choices.flatMap suppressions } := by
  induction choices generalizing s with
  | nil => simp
  | cons choice choices ih =>
    rw [List.foldl_cons, ih, getD_getLast?_filterMap_cons, getD_getLast?_filterMap_cons, List.flatMap_cons, List.flatMap_cons,
      Table.putAll_append, ← List.append_assoc]
    cases choice <;> simp [apply, skip?, find?, specs, suppressions]

/-- Choices under different names do not get into each other's way. -/
theorem apply_comm {a b : Choice} (h : a.key ≠ b.key) (s : Settings) : b.apply (a.apply s) = a.apply (b.apply s) := by
  cases a <;> cases b
  case skipBareCalls.skipBareCalls | findWrappers.findWrappers | functions.functions | suppress.suppress => exact absurd rfl h
  all_goals rfl

end Choice

/-! ## Moving entries -/

end Settings

namespace SExpr

/-- The name that heads an entry. -/
def entryKey? : SExpr → Option String
  | .list (.symbol key :: _) => some key
  | _ => none

end SExpr

namespace Settings

/-- Entries in another order: entries under different names have been moved past each other. -/
inductive Moved : List SExpr → List SExpr → Prop where
  | refl (entries : List SExpr) : Moved entries entries
  | cons (entry : SExpr) {entries entries' : List SExpr} (h : Moved entries entries') :
      Moved (entry :: entries) (entry :: entries')
  | swap {first second : SExpr} (h : first.entryKey? ≠ second.entryKey?) (entries : List SExpr) :
      Moved (first :: second :: entries) (second :: first :: entries)
  | trans {entries entries' entries'' : List SExpr} (h : Moved entries entries') (h' : Moved entries' entries'') :
      Moved entries entries''

/-- An entry has the key of its choice. -/
theorem Makes.entryKey? {entry : SExpr} {choice : Choice} (h : Makes entry choice) : entry.entryKey? = some choice.key := by
  obtain ⟨values, rfl, -⟩ := h
  rfl

/-- Entries may be moved past entries that have another key. -/
theorem takeEntries_of_moved {entries entries' : List SExpr} (h : Moved entries entries') {s s' : Settings}
    (hs : s.takeEntries entries = .ok s') : s.takeEntries entries' = .ok s' := by
  induction h generalizing s with
  | refl => exact hs
  | cons entry _ ih =>
    obtain ⟨s₁, hentry, hentries⟩ := except_bind_eq_ok.1 hs
    exact except_bind_eq_ok.2 ⟨s₁, hentry, ih hentries⟩
  | @swap first second hne entries =>
    obtain ⟨s₁, hfirst, hs⟩ := except_bind_eq_ok.1 hs
    obtain ⟨s₂, hsecond, hentries⟩ := except_bind_eq_ok.1 hs
    obtain ⟨a, ha, rfl⟩ := takeEntry_eq_ok_iff.1 hfirst
    obtain ⟨b, hb, rfl⟩ := takeEntry_eq_ok_iff.1 hsecond
    have hkeys : a.key ≠ b.key := by
      rintro hkeys
      exact hne (by rw [ha.entryKey?, hb.entryKey?, hkeys])
    rw [Choice.apply_comm hkeys] at hentries
    exact except_bind_eq_ok.2 ⟨_, takeEntry_eq_ok_iff.2 ⟨b, hb, rfl⟩,
      except_bind_eq_ok.2 ⟨_, takeEntry_eq_ok_iff.2 ⟨a, ha, rfl⟩, hentries⟩⟩
  | trans _ _ ih ih' => exact ih' (ih hs)

/-! ## Names -/

/-- A function that settings may hold. -/
def IsFunction (f : FunctionSpec) : Prop :=
  IsFunctionName f.1.toList ∧ ∀ n ∈ f.2, 0 ≤ n

/-- Whatever is spelled is a function with a place that is not negative. -/
theorem isFunction_of_spells {cs : List Char} {f : FunctionSpec} {pad : Char → Prop} (h : Spells pad cs f) : IsFunction f := by
  cases h with
  | bare _ hname _ =>
    rw [IsFunction, String.toList_ofList]
    exact ⟨hname, fun n hn => by cases hn⟩
  | placed _ hname _ _ hn _ =>
    rw [IsFunction, String.toList_ofList]
    refine ⟨hname, fun n hmem => ?_⟩
    cases hmem
    exact hn

/-- So is whatever a form gives. -/
theorem isFunction_of_givesFunction {form : SExpr} {f : FunctionSpec} (h : GivesFunction form f) : IsFunction f := by
  cases h with
  | word _ hspells => exact isFunction_of_spells hspells
  | pair _ hspells hplace =>
    refine ⟨(isFunction_of_spells hspells).1, fun n hmem => ?_⟩
    cases hmem
    exact hplace

/-- So is whatever an entry adds. -/
theorem isFunction_of_makes {entry : SExpr} {choice : Choice} (h : Makes entry choice) : ∀ f ∈ choice.specs, IsFunction f := by
  obtain ⟨values, -, hvalues⟩ := h
  cases hvalues with
  | functions hspecs => exact forall_mem_of_forall₂ hspecs (fun _ _ hform => isFunction_of_givesFunction hform)
  | _ =>
    intro f hf
    cases hf

/-! ## Files -/

/-- For a reader of forms a text holds one form, the list of the name of the program and the entries. -/
def Holds (read : FormReader) (text : String) (entries : List SExpr) : Prop :=
  read text = .ok (.list (.symbol "varfmt" :: entries))

/-- A form holds settings if it is a list that is headed by the name of the program. -/
theorem ofForm_eq_ok_iff {form : SExpr} {s : Settings} :
    ofForm form = .ok s ↔ ∃ entries, form = .list (.symbol "varfmt" :: entries) ∧ takeEntries {} entries = .ok s := by
  constructor
  · intro h
    unfold ofForm at h
    split at h
    · exact ⟨_, rfl, h⟩
    · cases h
  · rintro ⟨entries, rfl, h⟩
    exact h

/-- A text is read as settings if it holds entries that can all be taken. -/
theorem parseFrom_eq_ok_iff {read : FormReader} {source : Option String} {text : String} {s : Settings} :
    parseFrom read source text = .ok s ↔ ∃ entries, Holds read text entries ∧ takeEntries {} entries = .ok s := by
  have hparse : parseFrom read source text = .ok s ↔ parse read text = .ok s := by
    unfold parseFrom
    cases parse read text <;> simp [Except.mapError]
  rw [hparse, parse]
  cases hread : read text with
  | error cause => simp [Holds, hread]
  | ok form => simp [Holds, hread, ofForm_eq_ok_iff]

/-- A failure names the source that was read. -/
theorem source_of_parseFrom {read : FormReader} {source : Option String} {text : String} {f : SettingsFailure}
    (h : parseFrom read source text = .error f) : f.source = source := by
  unfold parseFrom at h
  cases hparse : parse read text with
  | error e =>
    rw [hparse] at h
    cases h
    rfl
  | ok s =>
    rw [hparse] at h
    cases h

/-- Whatever reads the forms, settings files are taken as a whole or not at all. A failure tells the source that was given. A text
gives settings exactly if it holds entries each of which makes a choice. Every function that is taken has a name and a place that
are in order. Of each flag the last word holds, of each function the last place, and suppressions stand one after the other; so
entries under different names can be moved past each other. -/
theorem settings_files_taken_as_a_whole (read : FormReader) (source : Option String) (text : String) :
    (∀ f, parseFrom read source text = .error f → f.source = source) ∧
    ((∃ s, parseFrom read source text = .ok s) ↔
      ∃ entries, Holds read text entries ∧ ∀ entry ∈ entries, ∃ choice, Makes entry choice) ∧
    ∀ s, parseFrom read source text = .ok s →
      (∀ f ∈ s.functions, IsFunction f) ∧
      ∃ entries choices, Holds read text entries ∧ List.Forall₂ Makes entries choices ∧
        s.skipBareCalls = (choices.filterMap Choice.skip?).getLast?.getD false ∧
        s.findWrappers = (choices.filterMap Choice.find?).getLast?.getD true ∧
        s.functions.Distinct ∧
        (∀ name, Table.get? s.functions name = (choices.flatMap Choice.specs).reverse.lookup name) ∧
        s.suppress = choices.flatMap Choice.suppressions ∧
        ∀ entries' text' source', Moved entries entries' → Holds read text' entries' → parseFrom read source' text' = .ok s := by
  refine ⟨fun f => source_of_parseFrom, ?_, ?_⟩
  · simp only [parseFrom_eq_ok_iff, takeEntries_eq_ok_iff, ← exists_forall₂_iff]
    constructor
    · rintro ⟨s, entries, hentries, choices, hchoices, -⟩
      exact ⟨entries, hentries, choices, hchoices⟩
    · rintro ⟨entries, hentries, choices, hchoices⟩
      exact ⟨_, entries, hentries, choices, hchoices, rfl⟩
  · intro s h
    obtain ⟨entries, hentries, htaken⟩ := parseFrom_eq_ok_iff.1 h
    obtain ⟨choices, hchoices, hs⟩ := takeEntries_eq_ok_iff.1 htaken
    rw [Choice.foldl_apply] at hs
    constructor
    · intro f hf
      rw [hs] at hf
      rcases Table.mem_of_mem_putAll hf with hf | hf
      · cases hf
      · obtain ⟨choice, hchoice, hf⟩ := List.mem_flatMap.1 hf
        exact forall_mem_of_forall₂ hchoices (fun _ _ hmakes => isFunction_of_makes hmakes) choice hchoice f hf
    · refine ⟨entries, choices, hentries, hchoices, ?_, ?_, ?_, ?_, ?_, ?_⟩
      · rw [hs]
      · rw [hs]
      · rw [hs]
        exact Table.distinct_nil.putAll _
      · intro name
        rw [hs]
        exact (Table.get?_putAll [] _ name).trans Option.or_none
      · rw [hs]
        exact List.nil_append _
      · intro entries' text' source' hmoved htext'
        exact parseFrom_eq_ok_iff.2 ⟨entries', htext', takeEntries_of_moved hmoved htaken⟩

/-- A negative place is refused, and the failure tells the source. A flag can be moved in front of the functions. -/
theorem flag_moved_past_functions :
    (∃ f, parseFrom SExpr.read (some "a") "(varfmt (funcs (die -1)))" = .error f ∧ f.source = some "a") ∧
    parseFrom SExpr.read none "(varfmt (no-args Yes) (funcs (die 1)))" =
      .ok { skipBareCalls := true, functions := [("die", some 1)] } := by
  constructor
  · have hrefused : (parseFrom SExpr.read (some "a") "(varfmt (funcs (die -1)))").toOption = none := by decide +kernel
    cases hparse : parseFrom SExpr.read (some "a") "(varfmt (funcs (die -1)))" with
    | error f => exact ⟨f, rfl, (settings_files_taken_as_a_whole _ _ _).1 f hparse⟩
    | ok s =>
      rw [hparse] at hrefused
      cases hrefused
  · have htaken : (parseFrom SExpr.read (some "a") "(varfmt (funcs (die 1)) (no-args Yes))").toOption =
        some { skipBareCalls := true, functions := [("die", some 1)] } := by decide +kernel
    cases hparse : parseFrom SExpr.read (some "a") "(varfmt (funcs (die 1)) (no-args Yes))" with
    | error f =>
      rw [hparse] at htaken
      cases htaken
    | ok s =>
      rw [hparse] at htaken
      cases htaken
      obtain ⟨-, entries, choices, hholds, -, -, -, -, -, -, hmoved⟩ := (settings_files_taken_as_a_whole _ _ _).2.2 _ hparse
      have hread : Holds SExpr.read "(varfmt (funcs (die 1)) (no-args Yes))"
          [.list [.symbol "funcs", .list [.symbol "die", .whole 1]], .list [.symbol "no-args", .symbol "Yes"]] := rfl
      cases hholds.symm.trans hread
      exact hmoved _ _ none (.swap (by decide) []) rfl

end Settings

end FormatAudit
