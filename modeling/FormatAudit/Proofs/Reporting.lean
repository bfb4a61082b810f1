import FormatAudit.Audit.Runner
import FormatAudit.Proofs.Composition
import FormatAudit.Proofs.Walk

/-!
# What an audit reports

An audit of one configuration finds the wrappers, walks the token list, judges the sites, holds back what the rules suppress and
reports every key once. What comes out is told token by token: a token offends if it is a plain call that passes a format which
is neither a parameter passed on untouched nor constant (`Offends`). `Listing` goes over the tokens in their order and lists the
findings of those that offend and are not suppressed; the report has the first finding of each key in that list.
-/

namespace FormatAudit

/-! ## Rules in force -/

namespace RuleSet

variable {r : RuleSet} {x : SuppressionRule}

/-- Inserting a rule adds it and no other one. -/
theorem mem_insert {s : SuppressionRule} : x ∈ (r.insert s).rules ↔ x ∈ r.rules ∨ x = s := by
  unfold insert
  split
  · rename_i h
    exact ⟨Or.inl, fun hx => hx.elim (fun hx => hx) (fun hx => hx ▸ List.contains_iff_mem.1 h)⟩
  · simp

/-- The rules of entries are the rules that the entries stand for. -/
theorem mem_ofEntries {entries : List String} : x ∈ (ofEntries entries).rules ↔ ∃ entry ∈ entries, x = ruleOf entry := by
  suffices key : ∀ r : RuleSet, x ∈ (entries.foldl addEntry r).rules ↔ x ∈ r.rules ∨ ∃ entry ∈ entries, x = ruleOf entry by
    simpa [ofEntries] using key {}
  induction entries with
  | nil => simp
  | cons entry entries ih =>
    intro r
    rw [List.foldl_cons, ih, addEntry, mem_insert, List.exists_mem_cons_iff, or_assoc]

/-- Inserting rules adds them and no other ones. -/
theorem mem_foldl_insert {rules : List SuppressionRule} : x ∈ (rules.foldl insert r).rules ↔ x ∈ r.rules ∨ x ∈ rules := by
  induction rules generalizing r with
  | nil => simp
  | cons s rules ih => rw [List.foldl_cons, ih, mem_insert, List.mem_cons, or_assoc]

/-- Recorded suppressions add their rules and nothing else. -/
theorem mem_addRecorded {ss : List RecordedSuppression} :
    x ∈ (r.addRecorded ss).rules ↔ x ∈ r.rules ∨ ∃ s ∈ ss, s.rule? = some x := by
  rw [addRecorded, mem_foldl_insert, List.mem_filterMap]

end RuleSet

/-- Some rule holds a finding back: that of an entry of the settings, or of a suppression recorded with the configuration. -/
def Suppressed (settings : Settings) (c : Configuration) (f : Finding) : Prop :=
  (∃ entry ∈ settings.suppress, (RuleSet.ruleOf entry).suppresses f = true) ∨
    ∃ s ∈ c.suppressions, ∃ rule, s.rule? = some rule ∧ rule.suppresses f = true

/-- The rules in force over a configuration suppress exactly what is to be suppressed. -/
theorem suppresses_iff (settings : Settings) (c : Configuration) (f : Finding) :
    ((RuleSet.ofEntries settings.suppress).addRecorded c.suppressions).suppresses f = true ↔ Suppressed settings c f := by
  unfold RuleSet.suppresses Suppressed
  simp only [List.any_eq_true, RuleSet.mem_addRecorded, RuleSet.mem_ofEntries]
  constructor
  · rintro ⟨x, ⟨entry, hentry, rfl⟩ | ⟨s, hs, hx⟩, hf⟩
    · exact Or.inl ⟨entry, hentry, hf⟩
    · exact Or.inr ⟨s, hs, x, hx, hf⟩
  · rintro (⟨entry, hentry, hf⟩ | ⟨s, hs, x, hx, hf⟩)
    · exact ⟨_, Or.inl ⟨entry, hentry, rfl⟩, hf⟩
    · exact ⟨x, Or.inr ⟨s, hs, hx⟩, hf⟩

/-! ## Reports -/

namespace Report

/-- Counts do not touch the findings. -/
theorem bumpAll_findings (entries : Table String Int) (r : Report) : (r.bumpAll entries).findings = r.findings := by
  unfold bumpAll
  induction entries generalizing r with
  | nil => rfl
  | cons e entries ih => exact ih (r.bump e.1 e.2)

/-- Adding findings to an empty report keeps the first of each key. -/
theorem addAll_findings {r : Report} (h : r.findings = []) (fs : List Finding) :
    (r.addAll fs).findings = fs.eraseDupsBy (fun f g => f.key == g.key) := by
  suffices key : ∀ r : Report,
      (r.addAll fs).findings = List.eraseDupsBy.loop (fun f g => f.key == g.key) fs r.findings.reverse by
    rw [key, h]
    rfl
  unfold addAll
  induction fs with
  | nil => simp [List.eraseDupsBy.loop]
  | cons f fs ih =>
    intro r
    have hany : r.findings.reverse.any (fun g => f.key == g.key) = r.has f := by
      rw [List.any_reverse, has]
      simp only [Bool.beq_comm]
    rw [List.foldl_cons, ih, List.eraseDupsBy.loop, hany, add]
    cases r.has f <;> simp

end Report

/-! ## Findings and verdicts -/

/-- A plain name is constant if it stands for a declared constant. -/
theorem Expression.constant_of_ident {e : Expression} (hkind : e.kind = .ident) :
    e.Constant ↔ e.isConstantName = true := by
  have hoperands : e.judgedOperands = [] := by simp [judgedOperands, judgedPart, hkind]
  rw [constant_iff, hoperands]
  simp [isFixedLeaf, hkind]

namespace FindingStyle

variable {style : FindingStyle} {argument function : Expression} {name : String} {o : Option Finding}

/-- An expression gives no finding if it is constant. -/
theorem expressionFinding_eq_none_iff (hcomposed : argument.Composed)
    (h : (style.expressionFinding argument name).result = .ok o) : o = none ↔ argument.Constant := by
  unfold expressionFinding at h
  obtain ⟨⟨constant, culprits⟩, hjudge, h⟩ := Logged.bind_result_eq_ok.1 h
  obtain ⟨_, -, hpair⟩ := Logged.bind_result_eq_ok.1 hjudge
  have hverdict := Expression.judge_verdict hcomposed {}
  rw [Except.ok.inj hpair] at hverdict
  rw [← hverdict]
  dsimp only at h ⊢
  split at h
  · cases h
    simp [*]
  · obtain ⟨_, -, h⟩ := Logged.bind_result_eq_ok.1 h
    obtain ⟨_, -, h⟩ := Logged.bind_result_eq_ok.1 h
    cases h
    simp [*]

/-- A format that is not passed on has a finding exactly if it is not constant. -/
theorem finding_eq_none_iff (hcomposed : argument.Composed)
    (h : (style.finding argument function false).result = .ok o) : o = none ↔ argument.Constant := by
  unfold finding at h
  rw [if_neg Bool.false_ne_true] at h
  obtain ⟨name, -, h⟩ := Logged.bind_result_eq_ok.1 h
  split at h
  · rename_i s hkind hsymbol
    have hconstant : argument.Constant ↔ s.kind = .constantName := by
      rw [Expression.constant_of_ident hkind, Expression.isConstantName, hsymbol, beq_iff_eq]
    rw [hconstant]
    split at h
    · cases h
      simp [*]
    · obtain ⟨_, -, h⟩ := Logged.bind_result_eq_ok.1 h
      cases h
      simp [*]
    · rw [← hconstant]
      exact expressionFinding_eq_none_iff hcomposed h
  · exact expressionFinding_eq_none_iff hcomposed h

end FindingStyle

/-! ## Sites and tokens -/

namespace Auditor

/-- After some tokens, a token is a plain call that passes a format which is neither passed on untouched nor constant. -/
def Offends (a : Auditor) (tokens : List TokenId) (t : TokenId) (callee argument : Expression) : Prop :=
  a.source.config.IsPlainCall t ∧ a.PassesFormat t callee argument ∧ ¬a.PassesOn tokens argument ∧ ¬argument.Constant

/-- What one token adds to the findings to report, after some tokens: nothing if it does not offend, and else its finding
unless that is suppressed. -/
inductive Adds (a : Auditor) (suppressed : Finding → Prop) (tokens : List TokenId) (t : TokenId) : Option Finding → Prop where
  | silent : (∀ callee argument, ¬a.Offends tokens t callee argument) → Adds a suppressed tokens t none
  | heldBack {callee argument : Expression} {f : Finding} : a.Offends tokens t callee argument →
      (a.style.finding argument callee false).result = .ok (some f) → suppressed f → Adds a suppressed tokens t none
  | reported {callee argument : Expression} {f : Finding} : a.Offends tokens t callee argument →
      (a.style.finding argument callee false).result = .ok (some f) → ¬suppressed f → Adds a suppressed tokens t (some f)

/-- The findings to report for some tokens, in their order. -/
inductive Listing (a : Auditor) (suppressed : Finding → Prop) : List TokenId → List Finding → Prop where
  | nil : Listing a suppressed [] []
  | snoc {tokens : List TokenId} {fs : List Finding} {t : TokenId} {o : Option Finding} : Listing a suppressed tokens fs →
      Adds a suppressed tokens t o → Listing a suppressed (tokens ++ [t]) (fs ++ o.toList)

variable {a : Auditor} {suppressed : Finding → Prop} {tokens : List TokenId} {t : TokenId}

/-- A call passes one format. -/
theorem PassesFormat.unique {callee callee' argument argument' : Expression} (h : a.PassesFormat t callee argument)
    (h' : a.PassesFormat t callee' argument') : callee = callee' ∧ argument = argument' := by
  have hsite := (siteOf_of_passesFormat h {}).symm.trans (siteOf_of_passesFormat h' {})
  have heq := Option.some.inj (Except.ok.inj hsite)
  exact ⟨congrArg Site.callee heq, congrArg Site.argument heq⟩

/-- A token that offends has one finding. -/
theorem Offends.finding_unique {callee callee' argument argument' : Expression} {f f' : Finding}
    (h : a.Offends tokens t callee argument) (h' : a.Offends tokens t callee' argument')
    (hf : (a.style.finding argument callee false).result = .ok (some f))
    (hf' : (a.style.finding argument' callee' false).result = .ok (some f')) : f = f' := by
  obtain ⟨rfl, rfl⟩ := h.2.1.unique h'.2.1
  exact Option.some.inj (Except.ok.inj (hf.symm.trans hf'))

/-- A token adds one thing. -/
theorem Adds.unique {o o' : Option Finding} (h : a.Adds suppressed tokens t o) (h' : a.Adds suppressed tokens t o') : o = o' := by
  cases h with
  | silent hsilent =>
    cases h' with
    | silent => rfl
    | heldBack => rfl
    | reported hoffends' => exact absurd hoffends' (hsilent _ _)
  | heldBack hoffends hf hsuppressed =>
    cases h' with
    | silent => rfl
    | heldBack => rfl
    | reported hoffends' hf' hreported =>
      exact absurd (hoffends.finding_unique hoffends' hf hf' ▸ hsuppressed) hreported
  | reported hoffends hf hreported =>
    cases h' with
    | silent hsilent => exact absurd hoffends (hsilent _ _)
    | heldBack hoffends' hf' hsuppressed =>
      exact absurd (hoffends'.finding_unique hoffends hf' hf ▸ hsuppressed) hreported
    | reported hoffends' hf' => rw [hoffends.finding_unique hoffends' hf hf']

/-- Some tokens have one listing. -/
theorem Listing.unique {fs fs' : List Finding} (h : a.Listing suppressed tokens fs) (h' : a.Listing suppressed tokens fs') :
    fs = fs' := by
  induction h generalizing fs' with
  | nil =>
    generalize htokens : ([] : List TokenId) = tokens at h'
    cases h' with
    | nil => rfl
    | snoc => simp at htokens
  | @snoc tokens fs t o _ hadds ih =>
    generalize htokens : tokens ++ [t] = more at h'
    cases h' with
    | nil => simp at htokens
    | snoc hfs' hadds' =>
      obtain ⟨rfl, hlast⟩ := List.append_inj' htokens rfl
      obtain rfl := List.head_eq_of_cons_eq hlast
      rw [ih hfs', hadds.unique hadds']

/-- What a site adds to the findings that are not suppressed is what its token adds. -/
theorem adds_of_judgeSite {w : Walk} {rules : RuleSet} (hrules : ∀ f, rules.suppresses f = true ↔ suppressed f)
    (htracks : a.Tracks tokens w.forwarding) {site : Option Site}
    (hsite : ∀ x, site = some x ↔ a.source.config.IsPlainCall t ∧ a.PassesFormat t x.callee x.argument ∧ x.call = t ∧
      x.forwarded = (x.argument.kind == .ident && w.forwarding.isLive x.argument.symbol))
    {fs fs' : List Finding} (h : Progress.Reaches a.judgeSite fs site.toList fs') :
    ∃ o, a.Adds suppressed tokens t o ∧ rules.keep fs' = rules.keep fs ++ o.toList := by
  cases site with
  | none =>
    obtain rfl := Progress.reaches_nil.1 h
    refine ⟨none, .silent ?_, by simp⟩
    rintro callee argument ⟨hplain, hpasses, -⟩
    cases (hsite { call := t, callee, argument,
                   forwarded := argument.kind == .ident && w.forwarding.isLive argument.symbol }).2 ⟨hplain, hpasses, rfl, rfl⟩
  | some x =>
    obtain ⟨hplain, hpasses, -, hmark⟩ := (hsite x).1 rfl
    obtain ⟨_, hjudge, hnil⟩ := Progress.reaches_cons.1 h
    obtain rfl := Progress.reaches_nil.1 hnil
    obtain ⟨o, ho, hfs⟩ := Logged.bind_result_eq_ok.1 hjudge
    cases hfs
    cases hforwarded : x.forwarded with
    | true =>
      rw [hforwarded] at ho
      cases ho
      refine ⟨none, .silent ?_, by simp⟩
      rintro callee argument ⟨-, hpasses', hpassesOn, -⟩
      obtain ⟨-, rfl⟩ := hpasses.unique hpasses'
      exact hpassesOn ((htracks.marked_iff _).1 (hmark ▸ hforwarded))
    | false =>
      rw [hforwarded] at ho
      have hcomposed : x.argument.Composed := by
        obtain ⟨-, -, _, _, _, -, -, -, -, hargument⟩ := hpasses
        exact Source.composed_expression hargument
      have hconstant := FindingStyle.finding_eq_none_iff hcomposed ho
      cases o with
      | none =>
        refine ⟨none, .silent ?_, by simp⟩
        rintro callee argument ⟨-, hpasses', -, hnot⟩
        obtain ⟨-, rfl⟩ := hpasses.unique hpasses'
        exact hnot (hconstant.1 rfl)
      | some f =>
        have hoffends : a.Offends tokens t x.callee x.argument := by
          refine ⟨hplain, hpasses, fun hpassesOn => ?_, fun hc => by cases hconstant.2 hc⟩
          have := hmark.trans ((htracks.marked_iff _).2 hpassesOn)
          rw [hforwarded] at this
          cases this
        by_cases hsuppressed : rules.suppresses f = true
        · exact ⟨none, .heldBack hoffends ho ((hrules f).1 hsuppressed), by simp [RuleSet.keep, hsuppressed]⟩
        · exact ⟨some f, .reported hoffends ho (fun hs => hsuppressed ((hrules f).2 hs)), by simp [RuleSet.keep, hsuppressed]⟩

/-- The findings that are not suppressed are listed, after every part of the token list that is walked without a fault. -/
theorem listing_walk {w : Walk} {rules : RuleSet} (hrules : ∀ f, rules.suppresses f = true ↔ suppressed f)
    (h : Progress.Reaches a.step {} tokens w) {fs : List Finding} (hfs : Progress.Reaches a.judgeSite [] w.sites fs) :
    a.Listing suppressed tokens (rules.keep fs) := by
  refine h.induction (P := fun tokens w => ∀ fs, Progress.Reaches a.judgeSite [] w.sites fs →
    a.Listing suppressed tokens (rules.keep fs)) ?_ ?_ fs hfs
  · intro fs hfs
    obtain rfl := Progress.reaches_nil.1 hfs
    exact .nil
  · intro tokens w t w' hw ih hstep fs hfs
    obtain ⟨site, hsites, hsite⟩ := step_sites hstep
    rw [hsites, Progress.reaches_append] at hfs
    obtain ⟨fs₀, hfs₀, hlast⟩ := hfs
    obtain ⟨o, hadds, hkeep⟩ := adds_of_judgeSite hrules (tracks_walk hw) hsite hlast
    rw [hkeep]
    exact .snoc (ih fs₀ hfs₀) hadds

/-- The auditor of a configuration: it knows the library, the settings and, if they ask for them, the wrappers found. -/
def ofSettings (settings : Settings) (c : Configuration) : Auditor :=
  { source := c.source, table := (prepare settings c).state.table, settings }

end Auditor

/-- An examination succeeds exactly when the search for wrappers, the walk and the judgement of every site do. -/
theorem examine_eq_ok_iff {settings : Settings} {c : Configuration} {fs : List Finding} :
    ((formatChecker settings).examine c).result = .ok fs ↔
      (Auditor.prepare settings c).fault = none ∧
        ∃ w, Progress.Reaches (Auditor.ofSettings settings c).step {} c.tokenList w ∧
          Progress.Reaches (Auditor.ofSettings settings c).judgeSite [] w.sites fs := by
  have ha : (⟨c.source, (Auditor.prepare settings c).state.table, settings, Expression.render⟩ : Auditor) =
      Auditor.ofSettings settings c := rfl
  unfold formatChecker examineFormats
  cases hprepared : (Auditor.prepare settings c).fault with
  | some fault => simp [hprepared]
  | none =>
    simp only [hprepared, ha]
    cases hwalk : (Auditor.ofSettings settings c).walk.fault with
    | some fault =>
      simp only [reduceCtorEq, true_and, false_iff]
      rintro ⟨w, hw, -⟩
      cases hwalk.symm.trans hw.1
    | none =>
      have hreaches : ∀ w, Progress.Reaches (Auditor.ofSettings settings c).step {} c.tokenList w ↔
          (Auditor.ofSettings settings c).walk.state = w := fun w => ⟨fun hw => hw.2, fun hw => ⟨hwalk, hw⟩⟩
      simp only [hreaches, true_and, exists_eq_left']
      cases hjudged : ((Auditor.ofSettings settings c).findings (Auditor.ofSettings settings c).walk.state.sites).fault with
      | some fault =>
        simp only [reduceCtorEq, false_iff]
        intro hsites
        cases hjudged.symm.trans hsites.1
      | none =>
        simp only [Except.ok.injEq]
        exact ⟨fun h => ⟨hjudged, h⟩, fun h => h.2⟩

/-- The findings of an audit whose examination succeeds. -/
theorem audit_findings {settings : Settings} {c : Configuration} {fs : List Finding}
    (hexamine : ((formatChecker settings).examine c).result = .ok fs) :
    (auditConfiguration settings c).report.findings =
      (((RuleSet.ofEntries settings.suppress).addRecorded c.suppressions).keep fs).eraseDupsBy (fun f g => f.key == g.key) := by
  simp only [auditConfiguration, runConfiguration, runCheckers, Checker.runInto, Report.bumpAll_findings, Examination.reported,
    hexamine]
  exact Report.addAll_findings rfl _

/-- If the examination meets no fault, the report of an audit has, of the findings of the tokens that offend and are not
suppressed, in the order of the tokens, the first of each key and no others. -/
theorem audit_reports_exactly (settings : Settings) (c : Configuration)
    (hexamine : ∃ fs, ((formatChecker settings).examine c).result = .ok fs) :
    ∃ listed, (∀ fs, (Auditor.ofSettings settings c).Listing (Suppressed settings c) c.tokenList fs ↔ fs = listed) ∧
      (auditConfiguration settings c).report.findings = listed.eraseDupsBy (fun f g => f.key == g.key) := by
  obtain ⟨fs, hfs⟩ := hexamine
  obtain ⟨-, w, hw, hsites⟩ := examine_eq_ok_iff.1 hfs
  have hlisting := Auditor.listing_walk (suppresses_iff settings c) hw hsites
  exact ⟨_, fun fs' => ⟨fun h => h.unique hlisting, fun h => h ▸ hlisting⟩, audit_findings hfs⟩

namespace PrintTwice

/-- Three calls to `printf`: with a variable, with a literal, and with the variable again. -/
def config : Configuration :=
  { tokens := #[{ text := "(", operand1 := some 3, operand2 := some 4 }, { text := "(", operand1 := some 3, operand2 := some 5 },
      { text := "(", operand1 := some 3, operand2 := some 4 }, { text := "printf", isName := true },
      { text := "v", isName := true, variableRef := some 0 }, { text := "\"x\"", isString := true }]
    tokenList := [0, 1, 2]
    variableDecls := #[{ name := "v" }]
    suppressions := [{ errorId := "unusedVariable" }] }

def auditor : Auditor :=
  Auditor.ofSettings {} config

def callee : Expression :=
  .leaf { kind := .ident, text := "printf", stop := some {} }

def name : Expression :=
  .leaf { kind := .ident, text := "v", stop := some {}
          symbol := some { key := { space := "var", id := .unnamed 0 }, name := "v", kind := .variableName } }

def text : Expression :=
  .leaf { kind := .literal, text := "\"x\"", stop := some {} }

/-- The finding for a call with the variable. -/
def finding : Finding :=
  auditor.style.findingAt name ("variable `" ++ "v" ++ "` used for " ++ "printf" ++ " format parameter") [] .high

theorem calls_pass_format :
    auditor.PassesFormat 0 callee name ∧ auditor.PassesFormat 1 callee text ∧ auditor.PassesFormat 2 callee name := by
  have hcallee : (config.source.expression (some 3)).result = .ok callee := by cbv
  have hname : (config.source.expression (some 4)).result = .ok name := by cbv
  have htext : (config.source.expression (some 5)).result = .ok text := by cbv
  have hroots : (config.callArguments (config.token 0))[0]? = some 4 ∧ (config.callArguments (config.token 1))[0]? = some 5 ∧
      (config.callArguments (config.token 2))[0]? = some 4 := ⟨by cbv, by cbv, by cbv⟩
  refine ⟨⟨hcallee, Or.inl rfl, some (.ofLibraryFunction "printf"), 0, 4, rfl, rfl, hroots.1, ?_, hname⟩,
    ⟨hcallee, Or.inl rfl, some (.ofLibraryFunction "printf"), 0, 5, rfl, rfl, hroots.2.1, ?_, htext⟩,
    ⟨hcallee, Or.inl rfl, some (.ofLibraryFunction "printf"), 0, 4, rfl, rfl, hroots.2.2, ?_, hname⟩⟩
  all_goals
    intro h
    cases h

/-- No function body starts, so nothing is passed on. -/
theorem not_passesOn (tokens : List TokenId) (e : Expression) : ¬auditor.PassesOn tokens e := by
  rintro ⟨-, _, -, _, _, _, _, _, ⟨⟨_, hscope, -⟩, -⟩, -⟩
  cases hscope

theorem name_finding : (auditor.style.finding name callee false).result = .ok (some finding) := rfl

theorem not_suppressed : ¬Suppressed {} config finding := by
  rintro (⟨_, hentry, -⟩ | ⟨s, hs, rule, hrule, hf⟩)
  · cases hentry
  · obtain rfl := List.mem_singleton.1 hs
    obtain rfl : { errorId := "unusedVariable" } = rule := by cases hrule; rfl
    revert hf
    decide

theorem listing : auditor.Listing (Suppressed {} config) config.tokenList [finding, finding] := by
  obtain ⟨hfirst, hsecond, hthird⟩ := calls_pass_format
  have hnot : ¬name.Constant := by decide
  have hsilent : ∀ e x, ¬auditor.Offends [0] 1 e x := by
    rintro e x ⟨-, hpasses, -, hx⟩
    obtain ⟨-, rfl⟩ := hsecond.unique hpasses
    exact hx (by decide)
  exact .snoc (.snoc (.snoc .nil
    (.reported ⟨by decide, hfirst, not_passesOn _ _, hnot⟩ name_finding not_suppressed)) (.silent hsilent))
    (.reported ⟨by decide, hthird, not_passesOn _ _, hnot⟩ name_finding not_suppressed)

/-- The examination of the three calls meets no fault. -/
theorem examine_ok : ((formatChecker {}).examine config).result = .ok [finding, finding] := by
  obtain ⟨hfirst, hsecond, hthird⟩ := calls_pass_format
  have hstep₁ := Auditor.step_of_passesFormat (by decide) hfirst {}
  have hstep₂ := Auditor.step_of_passesFormat (by decide) hsecond
    { sites := [{ call := 0, callee, argument := name, forwarded := false }] }
  have hstep₃ := Auditor.step_of_passesFormat (by decide) hthird
    { sites := [{ call := 0, callee, argument := name, forwarded := false },
                { call := 1, callee, argument := text, forwarded := false }] }
  refine examine_eq_ok_iff.2 ⟨rfl, _, Progress.reaches_cons.2 ⟨_, hstep₁, Progress.reaches_cons.2 ⟨_, hstep₂,
    Progress.reaches_cons.2 ⟨_, hstep₃, Progress.reaches_nil.2 rfl⟩⟩⟩, rfl, rfl⟩

end PrintTwice

/-- The two calls with the variable give one finding, and the call with the literal none. -/
theorem print_twice_reports_once :
    ((formatChecker {}).examine PrintTwice.config).result = .ok [PrintTwice.finding, PrintTwice.finding] ∧
      (auditConfiguration {} PrintTwice.config).report.findings = [PrintTwice.finding] := by
  obtain ⟨listed, hlisted, hfindings⟩ := audit_reports_exactly {} PrintTwice.config ⟨_, PrintTwice.examine_ok⟩
  obtain rfl := (hlisted _).1 PrintTwice.listing
  refine ⟨PrintTwice.examine_ok, ?_⟩
  rw [hfindings]
  rfl

end FormatAudit
