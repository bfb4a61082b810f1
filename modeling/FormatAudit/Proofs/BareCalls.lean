import FormatAudit.Proofs.Messages
import FormatAudit.Proofs.Runs
import Mathlib

/-!
# Skipping bare calls

A bare call passes nothing after its format. The setting that skips such calls is looked at in one place, where the format
argument of a call is picked. So two walks over one token list, with the setting and without, go side by side: after every token
the walk that skips has the live parameters of the other one, and of its sites those whose calls pass values (`step_skipping`,
`reaches_skipping`). It ends without a fault if the other one does.

Every site that is recorded can be judged, because its expressions were made from tokens. What is due with the setting is
therefore a part of what is due without it, and no key is reported that would not be reported anyway.
-/

namespace FormatAudit

/-- A walk with some of its sites left out. -/
def Walk.restrict (keep : Site → Bool) (w : Walk) : Walk :=
  { w with sites := w.sites.filter keep }

namespace Auditor

/-- An auditor that skips bare calls or does not. -/
abbrev skipping (a : Auditor) (flag : Bool) : Auditor :=
  { a with settings := { a.settings with skipBareCalls := flag } }

/-- Whether a call passes values after its format. -/
def passesValues (a : Auditor) (t : TokenId) : Bool :=
  match a.source.config.calledSymbol (a.source.config.token t) with
  | .ok symbol =>
    0 ≤ a.table.slot? a.source.config symbol &&
      a.table.slot? a.source.config symbol + 1 < (a.source.config.callArguments (a.source.config.token t)).length
  | .error _ => false

variable {a : Auditor} {w w' : Walk} {t : TokenId} {r : Forwarding}

/-- The format argument is dropped if nothing comes after it. -/
theorem formatArgument_skipping {callee : Expression} {call : Token} {place : Int} {found : Option TokenId}
    (h : ((a.skipping false).formatArgument callee call place).result = .ok found) :
    ((a.skipping true).formatArgument callee call place).result =
      .ok (found.filter (fun _ => place + 1 < (a.source.config.callArguments call).length)) := by
  unfold formatArgument at h ⊢
  cases hroot : (a.source.config.callArguments call)[place.toNat]? with
  | none =>
    simp only [hroot] at h ⊢
    obtain ⟨text, htext, h⟩ := Logged.bind_result_eq_ok.1 h
    cases h
    exact Logged.bind_result_eq_ok.2 ⟨text, htext, rfl⟩
  | some root =>
    simp only [hroot, Bool.false_and, Bool.false_eq_true, if_false, Logged.result_pure, Except.ok.injEq] at h
    subst h
    by_cases hmore : place + 1 < (a.source.config.callArguments call).length
    · have hnot : ¬((a.source.config.callArguments call).length : Int) - 1 ≤ place := by omega
      simp [hroot, hmore, hnot, Option.filter]
    · have hbare : ((a.source.config.callArguments call).length : Int) - 1 ≤ place := by omega
      simp [hroot, hmore, hbare]

/-- A call that becomes a site still does if it passes values, and becomes none if it is bare. -/
theorem siteOf_skipping {o : Option Site} (h : ((a.skipping false).siteOf r t).result = .ok o) :
    ((a.skipping true).siteOf r t).result = .ok (o.filter (fun site => a.passesValues site.call)) := by
  unfold siteOf at h ⊢
  dsimp only at h ⊢
  obtain ⟨callee, hcallee, h⟩ := Logged.bind_result_eq_ok.1 h
  refine Logged.bind_result_eq_ok.2 ⟨callee, hcallee, ?_⟩
  by_cases hkind : (decide (callee.kind = .ident) || decide (callee.kind = .member)) = true
  · rw [if_pos hkind] at h ⊢
    obtain ⟨symbol, hsymbol, h⟩ := Logged.bind_result_eq_ok.1 h
    refine Logged.bind_result_eq_ok.2 ⟨symbol, hsymbol, ?_⟩
    by_cases hnone : a.table.slot? a.source.config symbol < 0
    · rw [if_pos hnone] at h ⊢
      cases h
      rfl
    · rw [if_neg hnone] at h ⊢
      obtain ⟨found, hfound, h⟩ := Logged.bind_result_eq_ok.1 h
      refine Logged.bind_result_eq_ok.2 ⟨_, formatArgument_skipping hfound, ?_⟩
      cases found with
      | none =>
        cases h
        rfl
      | some root =>
        obtain ⟨argument, hargument, h⟩ := Logged.bind_result_eq_ok.1 h
        cases h
        have hvalues : a.passesValues t = decide (a.table.slot? a.source.config symbol + 1 <
            (a.source.config.callArguments (a.source.config.token t)).length) := by
          rw [Logged.result_liftM] at hsymbol
          simp [passesValues, hsymbol, Int.not_lt.1 hnone]
        rw [Option.filter_some, Option.filter_some, ← hvalues]
        cases a.passesValues t with
        | true => exact Logged.bind_result_eq_ok.2 ⟨argument, hargument, rfl⟩
        | false => rfl
  · rw [if_neg hkind] at h ⊢
    by_cases hsilent : isSilentCallee callee.kind = true
    · rw [if_pos hsilent] at h ⊢
      cases h
      rfl
    · rw [if_neg hsilent] at h ⊢
      obtain ⟨text, htext, h⟩ := Logged.bind_result_eq_ok.1 h
      cases h
      exact Logged.bind_result_eq_ok.2 ⟨text, htext, rfl⟩

/-- One step of the walk that skips bare calls, beside the same step of the walk that does not. -/
theorem step_skipping (h : ((a.skipping false).step w t).result = .ok w') :
    ((a.skipping true).step (w.restrict (fun site => a.passesValues site.call)) t).result =
      .ok (w'.restrict (fun site => a.passesValues site.call)) := by
  unfold step at h ⊢
  dsimp only at h ⊢
  cases hstart : a.source.config.bodyStartingAt t with
  | some scope =>
    simp only [hstart] at h ⊢
    obtain ⟨r, hr, h⟩ := Logged.bind_result_eq_ok.1 h
    cases h
    exact Logged.bind_result_eq_ok.2 ⟨r, hr, rfl⟩
  | none =>
    simp only [hstart] at h ⊢
    by_cases hend : a.source.config.endsBody t = true
    · rw [if_pos hend] at h ⊢
      cases h
      rfl
    · rw [if_neg hend] at h ⊢
      by_cases hassign : ((a.source.config.token t).assigns || (a.source.config.token t).isStep) = true
      · rw [if_pos hassign] at h ⊢
        obtain ⟨targets, htargets, h⟩ := Logged.bind_result_eq_ok.1 h
        obtain ⟨r, hr, h⟩ := Logged.bind_result_eq_ok.1 h
        cases h
        exact Logged.bind_result_eq_ok.2 ⟨targets, htargets, Logged.bind_result_eq_ok.2 ⟨r, hr, rfl⟩⟩
      · rw [if_neg hassign] at h ⊢
        by_cases hcall : (a.source.config.token t).isCall = true
        · rw [if_pos hcall] at h ⊢
          obtain ⟨site, hsite, h⟩ := Logged.bind_result_eq_ok.1 h
          cases h
          refine Logged.bind_result_eq_ok.2 ⟨_, siteOf_skipping hsite, ?_⟩
          rw [Logged.result_pure, Walk.restrict, Walk.restrict, List.filter_append, Option.toList_filter]
        · rw [if_neg hcall] at h ⊢
          cases h
          rfl

/-- A whole walk that skips bare calls, beside the one that does not. -/
theorem reaches_skipping {tokens : List TokenId} (h : Progress.Reaches (a.skipping false).step {} tokens w) :
    Progress.Reaches (a.skipping true).step {} tokens (w.restrict (fun site => a.passesValues site.call)) :=
  h.induction (P := fun tokens w =>
      Progress.Reaches (a.skipping true).step {} tokens (w.restrict (fun site => a.passesValues site.call)))
    (Progress.reaches_nil.2 rfl)
    (fun _ _ _ _ _ hw hstep => Progress.reaches_snoc.2 ⟨_, hw, step_skipping hstep⟩)

/-! ## Judging fewer sites -/

/-- Fewer sites have fewer findings, in the same order. -/
theorem sublist_of_judgeSite (keep : Site → Bool) {sites : List Site} {fs fs' gs : List Finding} (hsub : gs.Sublist fs)
    (h : Progress.Reaches a.judgeSite fs sites fs') :
    ∃ gs', Progress.Reaches a.judgeSite gs (sites.filter keep) gs' ∧ gs'.Sublist fs' := by
  induction sites generalizing fs gs with
  | nil =>
    obtain rfl := Progress.reaches_nil.1 h
    exact ⟨gs, Progress.reaches_nil.2 rfl, hsub⟩
  | cons site sites ih =>
    obtain ⟨_, hsite, h⟩ := Progress.reaches_cons.1 h
    obtain ⟨found, hfound, hsite⟩ := Logged.bind_result_eq_ok.1 hsite
    cases hsite
    cases hkeep : keep site with
    | true =>
      obtain ⟨gs', hgs', hsub'⟩ := ih (hsub.append (.refl found.toList)) h
      rw [List.filter_cons_of_pos hkeep]
      exact ⟨gs', Progress.reaches_cons.2 ⟨_, Logged.bind_result_eq_ok.2 ⟨found, hfound, rfl⟩, hgs'⟩, hsub'⟩
    | false =>
      obtain ⟨gs', hgs', hsub'⟩ := ih (hsub.trans (List.sublist_append_left fs found.toList)) h
      rw [List.filter_cons_of_neg (by simp [hkeep])]
      exact ⟨gs', hgs', hsub'⟩

end Auditor

/-- There is a finding, or none, for every format and function whose nodes have the operands of their kinds. -/
theorem FindingStyle.finding_isOk {argument function : Expression} (hargument : argument.Everywhere Expression.Formed)
    (hfunction : function.Everywhere Expression.Formed) (forwarded : Bool) :
    ∃ found, (({} : FindingStyle).finding argument function forwarded).result = .ok found := by
  cases forwarded with
  | true => exact ⟨none, rfl⟩
  | false =>
    obtain ⟨name, hname⟩ : ∃ name, ({} : FindingStyle).printer function = .ok name := Expression.render_isOk hfunction
    have hshown : ∀ n, argument.Judged n → ∃ text, ({} : FindingStyle).printer n = .ok text :=
      fun n hn => Expression.render_isOk (hargument.judged hn)
    rcases finding_cases argument hname with ⟨-, hresult⟩ | ⟨s, -, hsymbol, -, hresult⟩ | ⟨-, hresult⟩
    · exact ⟨none, hresult⟩
    · obtain ⟨text, htext⟩ := hshown argument (.self argument)
      obtain ⟨f, hf, -⟩ := variableFinding_isOk hsymbol htext name
      exact ⟨some f, by rw [hresult, hf]; rfl⟩
    · obtain ⟨found, hfound, -⟩ := expressionFinding_isOk (Expression.composed_of_formed hargument) hshown name rfl
      exact ⟨found, hresult.trans hfound⟩

namespace Auditor

variable {settings : Settings} {c : Configuration} {w : Walk}

/-- The sites of a walk over a configuration can all be judged. -/
theorem judgeSite_isOk {tokens : List TokenId} (h : Progress.Reaches (ofSettings settings c).step {} tokens w) :
    ∃ fs, Progress.Reaches (ofSettings settings c).judgeSite [] w.sites fs := by
  refine ⟨_, Progress.along_fault_eq_none ?_, rfl⟩
  intro fs site hsite
  obtain ⟨i, hi⟩ := List.mem_iff_getElem?.1 hsite
  obtain ⟨_, _, -, -, -, ⟨hcallee, -, _, _, _, -, -, -, -, hargument⟩, -⟩ := site_recorded h i site hi
  obtain ⟨found, hfound⟩ := FindingStyle.finding_isOk (Source.formed_expression hargument) (Source.formed_expression hcallee)
    site.forwarded
  exact ⟨_, Logged.bind_result_eq_ok.2 ⟨found, hfound, rfl⟩⟩

end Auditor

/-- What is due from the checker if it skips bare calls is a part of what is due if it does not, provided that the walk without
skipping ends. -/
theorem due_skipping_sublist {settings : Settings} {c : Configuration} {w : Walk}
    (h : Progress.Reaches ((Auditor.ofSettings settings c).skipping false).step {} c.tokenList w) (rules : RuleSet)
    (recorded : List RecordedSuppression) :
    ((formatChecker { settings with skipBareCalls := true }).due rules recorded c).Sublist
      ((formatChecker { settings with skipBareCalls := false }).due rules recorded c) := by
  have hprepare : ∀ flag, Auditor.prepare { settings with skipBareCalls := flag } c = Auditor.prepare settings c := fun _ => rfl
  cases hprepared : (Auditor.prepare settings c).fault with
  | some fault =>
    -- the search for wrappers fails before any call is looked at
    have hfails : ∀ flag, ((formatChecker { settings with skipBareCalls := flag }).examine c).result = .error fault := by
      intro flag
      simp [formatChecker, examineFormats, hprepare, hprepared]
    rw [Checker.due, Checker.due, hfails, hfails]
    exact .refl _
  | none =>
    have hwalk : Progress.Reaches (Auditor.ofSettings { settings with skipBareCalls := false } c).step {} c.tokenList w := h
    obtain ⟨fs, hfs⟩ := Auditor.judgeSite_isOk hwalk
    obtain ⟨gs, hgs, hsub⟩ :=
      Auditor.sublist_of_judgeSite (fun site => (Auditor.ofSettings settings c).passesValues site.call) .slnil hfs
    have hoff : ((formatChecker { settings with skipBareCalls := false }).examine c).result = .ok fs :=
      examine_eq_ok_iff.2 ⟨hprepared, w, hwalk, hfs⟩
    have hon : ((formatChecker { settings with skipBareCalls := true }).examine c).result = .ok gs :=
      examine_eq_ok_iff.2 ⟨hprepared, _, Auditor.reaches_skipping h, hgs⟩
    rw [Checker.due, Checker.due, hon, hoff]
    exact hsub.filter _

/-- Skipping bare calls only filters. If the walk without skipping ends, so does the walk with it, and its sites are those of the
other walk, in their order and unchanged, whose calls pass at least one value after the format. Whatever key is then reported is
also reported without skipping. -/
theorem skipping_bare_calls_only_filters (settings : Settings) (c : Configuration)
    (h : (Auditor.ofSettings { settings with skipBareCalls := false } c).walk.fault = none) :
    (Auditor.ofSettings { settings with skipBareCalls := true } c).walk.fault = none ∧
      (Auditor.ofSettings { settings with skipBareCalls := true } c).walk.state.sites =
        (Auditor.ofSettings { settings with skipBareCalls := false } c).walk.state.sites.filter
          (fun site => (Auditor.ofSettings settings c).passesValues site.call) ∧
      ∀ f ∈ (auditConfiguration { settings with skipBareCalls := true } c).report.findings,
        ∃ g ∈ (auditConfiguration { settings with skipBareCalls := false } c).report.findings, g.key = f.key := by
  have hwalk : Progress.Reaches ((Auditor.ofSettings settings c).skipping false).step {} c.tokenList
      (Auditor.ofSettings { settings with skipBareCalls := false } c).walk.state := ⟨h, rfl⟩
  have hskipped := Auditor.reaches_skipping hwalk
  refine ⟨hskipped.1, congrArg Walk.sites hskipped.2, fun f hf => ?_⟩
  have hrules : ∀ f, (RuleSet.ofEntries settings.suppress).suppresses f =
      heldBack (RuleSet.ofEntries settings.suppress) [] f := by simp [heldBack]
  rw [auditConfiguration, (runConfiguration_spec hrules _).2.1] at hf
  rw [auditConfiguration, (runConfiguration_spec hrules _).2.1]
  obtain ⟨f', hf', hkey⟩ := Report.exists_key_addAll.1 ⟨f, hf, rfl⟩
  refine Report.exists_key_addAll.2 ⟨f', ?_, hkey⟩
  simp only [List.flatMap_cons, List.flatMap_nil, List.append_nil] at hf' ⊢
  exact (due_skipping_sublist hwalk _ _).subset hf'

namespace BareAndFull

/-- Two calls to `printf`, both with the variable `v` as the format: the first one is bare, the second passes `x` as well. -/
def config : Configuration :=
  { tokens := #[{ text := "(", operand1 := some 2, operand2 := some 3 }, { text := "(", operand1 := some 2, operand2 := some 4 },
      { text := "printf", isName := true }, { text := "v", isName := true, variableRef := some 0 },
      { text := ",", operand1 := some 3, operand2 := some 5 }, { text := "x", isName := true }]
    tokenList := [0, 1]
    variableDecls := #[{ name := "v" }] }

def site (call : TokenId) : Site :=
  { call, callee := PrintTwice.callee, argument := PrintTwice.name, forwarded := false }

theorem callArguments_eq :
    config.callArguments (config.token 0) = [3] ∧ config.callArguments (config.token 1) = [3, 5] :=
  ⟨by cbv, by cbv⟩

theorem calls_pass_format : (Auditor.ofSettings {} config).PassesFormat 0 PrintTwice.callee PrintTwice.name ∧
    (Auditor.ofSettings {} config).PassesFormat 1 PrintTwice.callee PrintTwice.name := by
  have hcallee : (config.source.expression (some 2)).result = .ok PrintTwice.callee := by cbv
  have hname : (config.source.expression (some 3)).result = .ok PrintTwice.name := by cbv
  have hroots : (config.callArguments (config.token 0))[0]? = some 3 ∧ (config.callArguments (config.token 1))[0]? = some 3 := by
    simp [callArguments_eq]
  constructor
  · exact ⟨hcallee, Or.inl rfl, some (.ofLibraryFunction "printf"), 0, 3, rfl, rfl, hroots.1, by simp [Auditor.ofSettings], hname⟩
  · exact ⟨hcallee, Or.inl rfl, some (.ofLibraryFunction "printf"), 0, 3, rfl, rfl, hroots.2, by simp [Auditor.ofSettings], hname⟩

theorem walk_reaches :
    Progress.Reaches (Auditor.ofSettings {} config).step {} config.tokenList { sites := [site 0, site 1] } :=
  Progress.reaches_cons.2 ⟨_, Auditor.step_of_passesFormat (by decide) calls_pass_format.1 {},
    Progress.reaches_cons.2 ⟨_, Auditor.step_of_passesFormat (by decide) calls_pass_format.2 { sites := [site 0] },
      Progress.reaches_nil.2 rfl⟩⟩

theorem second_passesValues : (Auditor.ofSettings {} config).passesValues 0 = false ∧
    (Auditor.ofSettings {} config).passesValues 1 = true := by
  have hsymbol : ∀ t ∈ config.tokenList, config.calledSymbol (config.token t) = .ok (some (.ofLibraryFunction "printf")) := by
    decide
  have hslot : (Auditor.ofSettings {} config).table.slot? config (some (.ofLibraryFunction "printf")) = 0 := rfl
  have hsource : (Auditor.ofSettings {} config).source.config = config := rfl
  constructor
  · simp [Auditor.passesValues, hsource, hsymbol 0 (by decide), hslot, callArguments_eq]
  · simp [Auditor.passesValues, hsource, hsymbol 1 (by decide), hslot, callArguments_eq]

end BareAndFull

/-- Of a bare call and one with a value only the second is left, and its key is reported with and without skipping. -/
theorem bare_call_skipped :
    (Auditor.ofSettings {} BareAndFull.config).walk.fault = none ∧
      (Auditor.ofSettings { skipBareCalls := true } BareAndFull.config).walk.state.sites = [BareAndFull.site 1] ∧
      ∀ f ∈ (auditConfiguration { skipBareCalls := true } BareAndFull.config).report.findings,
        ∃ g ∈ (auditConfiguration {} BareAndFull.config).report.findings, g.key = f.key := by
  have hfault : (Auditor.ofSettings {} BareAndFull.config).walk.fault = none := BareAndFull.walk_reaches.1
  have hstate : (Auditor.ofSettings {} BareAndFull.config).walk.state = _ := BareAndFull.walk_reaches.2
  obtain ⟨-, hsites, hkeys⟩ := skipping_bare_calls_only_filters {} BareAndFull.config hfault
  refine ⟨hfault, ?_, hkeys⟩
  refine hsites.trans ?_
  rw [hstate]
  simp [BareAndFull.site, BareAndFull.second_passesValues]

end FormatAudit
