import FormatAudit.Audit.Walk
import FormatAudit.Proofs.Forwarding
import Mathlib

/-!
# What a walk finds

The state of a walk after some tokens of the list is told by these tokens alone. A call becomes a site exactly when it passes a
format (`PassesFormat`), whatever was seen before. A parameter may be passed on exactly when the last token at which a function
body starts or ends (`LastBoundary`) starts the body of a function that has it as its format parameter, and no token since then
assigns to it (`ForwardableAfter`). The invariant is `Tracks`; `tracks_step` shows that every step keeps it.
-/

namespace FormatAudit

namespace Configuration

/-- A token at which the body of some function starts or ends. -/
def IsBoundary (c : Configuration) (t : TokenId) : Prop :=
  ∃ s ∈ c.functionScopes, s.bodyStart = some t ∨ s.bodyStop = some t

instance (c : Configuration) (t : TokenId) : Decidable (c.IsBoundary t) :=
  inferInstanceAs (Decidable (∃ s ∈ c.functionScopes, s.bodyStart = some t ∨ s.bodyStop = some t))

/-- The token starts the body of a scope; of several scopes with that start, the last one counts. -/
def OpensBody (c : Configuration) (t : TokenId) (s : Scope) : Prop :=
  ∃ before after, c.functionScopes = before ++ s :: after ∧ s.bodyStart = some t ∧ ∀ s' ∈ after, s'.bodyStart ≠ some t

/-- The last boundary among some tokens, and the tokens after it. -/
def LastBoundary (c : Configuration) (tokens : List TokenId) (b : TokenId) (between : List TokenId) : Prop :=
  c.IsBoundary b ∧ (∀ u ∈ between, ¬c.IsBoundary u) ∧ ∃ before, tokens = before ++ b :: between

/-- The token assigns, increments or decrements a bare name that stands for the symbol. -/
def Rebinds (c : Configuration) (t : TokenId) (s : Symbol) : Prop :=
  ((c.token t).assigns = true ∨ (c.token t).isStep = true) ∧
    ∃ target, c.resolve (c.look (c.token t).operand1) false = .ok (some target) ∧ target.same s = true

/-- The token is a call that the walk looks at as one: it is no boundary and does not assign. -/
def IsPlainCall (c : Configuration) (t : TokenId) : Prop :=
  ¬c.IsBoundary t ∧ ¬((c.token t).assigns = true ∨ (c.token t).isStep = true) ∧ (c.token t).isCall = true

instance (c : Configuration) (t : TokenId) : Decidable (c.IsPlainCall t) :=
  inferInstanceAs (Decidable (_ ∧ _ ∧ _))

variable {c : Configuration} {t b : TokenId} {tokens between : List TokenId} {s s' : Scope}

/-- The body that is found at a token is the one that it opens. -/
theorem bodyStartingAt_eq_some_iff : c.bodyStartingAt t = some s ↔ c.OpensBody t s := by
  unfold bodyStartingAt OpensBody
  rw [List.getLast?_eq_head?_reverse, ← List.filter_reverse, List.head?_filter, List.find?_eq_some_iff_append]
  constructor
  · rintro ⟨hs, as, bs, hsplit, has⟩
    refine ⟨bs.reverse, as.reverse, ?_, by simpa using hs, ?_⟩
    · have := congrArg List.reverse hsplit
      simpa using this
    · intro s' hs'
      simpa using has s' (List.mem_reverse.1 hs')
  · rintro ⟨before, after, hsplit, hs, hafter⟩
    refine ⟨by simpa using hs, after.reverse, before.reverse, by simp [hsplit], ?_⟩
    intro s' hs'
    simpa using hafter s' (List.mem_reverse.1 hs')

/-- No body is found at a token if it opens none. -/
theorem bodyStartingAt_eq_none_iff : c.bodyStartingAt t = none ↔ ∀ s ∈ c.functionScopes, s.bodyStart ≠ some t := by
  simp [bodyStartingAt]

/-- A token opens only one body. -/
theorem OpensBody.unique (h : c.OpensBody t s) (h' : c.OpensBody t s') : s = s' := by
  rw [← bodyStartingAt_eq_some_iff] at h h'
  exact Option.some.inj (h.symm.trans h')

/-- A token that opens a body is a boundary. -/
theorem OpensBody.isBoundary (h : c.OpensBody t s) : c.IsBoundary t := by
  obtain ⟨before, after, hsplit, hs, -⟩ := h
  exact ⟨s, by rw [hsplit]; simp, Or.inl hs⟩

/-- A token ends a body if it is the last one of a function. -/
theorem endsBody_iff : c.endsBody t = true ↔ ∃ s ∈ c.functionScopes, s.bodyStop = some t := by
  simp [endsBody]

/-- A token that neither starts nor ends a body is no boundary. -/
theorem not_isBoundary_of (hstart : c.bodyStartingAt t = none) (hend : ¬c.endsBody t = true) : ¬c.IsBoundary t := by
  rintro ⟨s, hs, h | h⟩
  · exact bodyStartingAt_eq_none_iff.1 hstart s hs h
  · exact hend (endsBody_iff.2 ⟨s, hs, h⟩)

/-! ## The last boundary, one token at a time -/

/-- There is no boundary before the first token. -/
theorem lastBoundary_nil : ¬c.LastBoundary [] b between := by
  rintro ⟨-, -, before, h⟩
  simp at h

/-- A boundary is the last one when it has just been seen. -/
theorem lastBoundary_snoc_of_isBoundary (ht : c.IsBoundary t) :
    c.LastBoundary (tokens ++ [t]) b between ↔ b = t ∧ between = [] := by
  constructor
  · rintro ⟨-, hbetween, before, h⟩
    rcases snoc_eq_append_cons h with ⟨hb, hend, -⟩ | ⟨init, rfl, -⟩
    · exact ⟨hb, hend⟩
    · exact absurd ht (hbetween t (by simp))
  · rintro ⟨rfl, rfl⟩
    exact ⟨ht, by simp, tokens, rfl⟩

/-- Any other token leaves the last boundary as it was. -/
theorem lastBoundary_snoc_of_not_isBoundary (ht : ¬c.IsBoundary t) :
    c.LastBoundary (tokens ++ [t]) b between ↔ ∃ init, between = init ++ [t] ∧ c.LastBoundary tokens b init := by
  constructor
  · rintro ⟨hb, hbetween, before, h⟩
    rcases snoc_eq_append_cons h with ⟨rfl, -⟩ | ⟨init, rfl, hsplit⟩
    · exact absurd hb ht
    · exact ⟨init, rfl, hb, fun u hu => hbetween u (by simp [hu]), before, hsplit⟩
  · rintro ⟨init, rfl, hb, hinit, before, rfl⟩
    refine ⟨hb, ?_, before, by simp⟩
    intro u hu
    rcases List.mem_append.1 hu with hu | hu
    · exact hinit u hu
    · rw [List.mem_singleton.1 hu]
      exact ht

end Configuration

namespace Auditor

/-- The format parameter of a function: the parameter at the place that the table gives for the function. -/
def FormatParameter (a : Auditor) (f : FunctionId) (p : Symbol) : Prop :=
  ∃ (function : Symbol) (place : Nat) (v : VariableId),
    a.source.config.functionSymbol f "" = .ok function ∧ a.table.slot a.source.config function = place ∧
      (a.source.config.functionAt f).parameters[place]? = some v ∧ a.source.config.variableSymbol v = .ok p

/-- After some tokens a symbol is a parameter that may be passed on: the last boundary among them starts the body of a function
with this format parameter, and no token since then assigns to it. -/
def ForwardableAfter (a : Auditor) (tokens : List TokenId) (s : Symbol) : Prop :=
  ∃ start between scope f p,
    a.source.config.LastBoundary tokens start between ∧ a.source.config.OpensBody start scope ∧
      scope.function = some f ∧ a.FormatParameter f p ∧ p.same s = true ∧
      ∀ u ∈ between, ¬a.source.config.Rebinds u s

/-- A call passes a format: its callee is a plain name or a member that takes a format at some place, there is an argument at
that place and, where bare calls are to be skipped, there are arguments after it. -/
def PassesFormat (a : Auditor) (t : TokenId) (callee argument : Expression) : Prop :=
  (a.source.expression (a.source.config.token t).operand1).result = .ok callee ∧
    (callee.kind = .ident ∨ callee.kind = .member) ∧
    ∃ (symbol : Option Symbol) (place : Nat) (root : TokenId),
      a.source.config.calledSymbol (a.source.config.token t) = .ok symbol ∧
      a.table.slot? a.source.config symbol = place ∧
      (a.source.config.callArguments (a.source.config.token t))[place]? = some root ∧
      (a.settings.skipBareCalls = true →
        place + 1 < (a.source.config.callArguments (a.source.config.token t)).length) ∧
      (a.source.expression (some root)).result = .ok argument

/-- After some tokens an expression is the plain name of a parameter that may be passed on. -/
def PassesOn (a : Auditor) (tokens : List TokenId) (e : Expression) : Prop :=
  e.kind = .ident ∧ ∃ s, e.symbol = some s ∧ a.ForwardableAfter tokens s

/-- The state of the walk after some tokens. -/
def walkOver (a : Auditor) (tokens : List TokenId) : Walk :=
  (Progress.along a.step {} tokens).state

variable {a : Auditor} {t : TokenId} {w w' : Walk} {r : Forwarding}

/-! ## Sites -/

/-- The format argument of a call is the argument at the place of the format, unless the call is bare and such calls are
skipped. -/
theorem formatArgument_eq_some_iff {callee : Expression} {call : Token} {place : Nat} {root : TokenId} :
    (a.formatArgument callee call place).result = .ok (some root) ↔
      (a.source.config.callArguments call)[place]? = some root ∧
        (a.settings.skipBareCalls = true → place + 1 < (a.source.config.callArguments call).length) := by
  unfold formatArgument
  rw [Int.toNat_natCast]
  cases hroot : (a.source.config.callArguments call)[place]? with
  | none => simp [hroot, except_bind_eq_ok]
  | some x =>
    simp only [hroot]
    split
    · rename_i hskip
      simp only [Bool.and_eq_true, decide_eq_true_eq] at hskip
      simp only [Logged.result_pure, Except.ok.injEq, reduceCtorEq, false_iff, not_and]
      intro _ hmore
      have := hmore hskip.1
      omega
    · rename_i hskip
      simp only [Bool.and_eq_true, decide_eq_true_eq, not_and] at hskip
      simp only [Logged.result_pure, Except.ok.injEq]
      exact ⟨fun hx => ⟨hx, fun hs => by have := hskip hs; omega⟩, fun hx => hx.1⟩

/-- A call that passes a format becomes a site; it is marked if the format is a plain name that may be passed on. -/
theorem siteOf_of_passesFormat {callee argument : Expression} (h : a.PassesFormat t callee argument) (r : Forwarding) :
    (a.siteOf r t).result = .ok (some { call := t, callee, argument,
                                        forwarded := argument.kind == .ident && r.isLive argument.symbol }) := by
  obtain ⟨hcallee, hkind, symbol, place, root, hsymbol, hplace, hroot, hmore, hargument⟩ := h
  have hformat : (a.formatArgument callee (a.source.config.token t) place).result = .ok (some root) :=
    formatArgument_eq_some_iff.2 ⟨hroot, hmore⟩
  have hnonneg : ¬a.table.slot? a.source.config symbol < 0 := by omega
  unfold siteOf
  rw [Logged.result_bind, hcallee, except_ok_bind, if_pos (by simpa using hkind), Logged.result_bind, Logged.result_liftM,
    hsymbol, except_ok_bind]
  dsimp only
  rw [if_neg hnonneg, Logged.result_bind, hplace, hformat, except_ok_bind]
  dsimp only
  rw [Logged.result_bind, hargument, except_ok_bind, Logged.result_pure]

/-- Only a call that passes a format becomes a site. -/
theorem passesFormat_of_siteOf {site : Site} (h : (a.siteOf r t).result = .ok (some site)) :
    a.PassesFormat t site.callee site.argument := by
  unfold siteOf at h
  obtain ⟨callee, hcallee, h⟩ := Logged.bind_result_eq_ok.1 h
  split at h
  · rename_i hkind
    obtain ⟨symbol, hsymbol, h⟩ := Logged.bind_result_eq_ok.1 h
    rw [Logged.result_liftM] at hsymbol
    dsimp only at h
    split at h
    · simp at h
    · rename_i hnonneg
      obtain ⟨place, hplace⟩ := Int.eq_ofNat_of_zero_le (Int.not_lt.1 hnonneg)
      rw [hplace] at h
      obtain ⟨found, hfound, h⟩ := Logged.bind_result_eq_ok.1 h
      cases found with
      | none => simp at h
      | some root =>
        obtain ⟨hroot, hmore⟩ := formatArgument_eq_some_iff.1 hfound
        obtain ⟨argument, hargument, h⟩ := Logged.bind_result_eq_ok.1 h
        rw [Logged.result_pure, Except.ok.injEq, Option.some.injEq] at h
        subst h
        exact ⟨hcallee, by simpa using hkind, symbol, place, root, hsymbol, hplace, hroot, hmore, hargument⟩
  · split at h
    · simp at h
    · simp [except_bind_eq_ok] at h

/-- A call becomes a site exactly when it passes a format. -/
theorem siteOf_result {o : Option Site} (h : (a.siteOf r t).result = .ok o) (site : Site) :
    o = some site ↔ a.PassesFormat t site.callee site.argument ∧ site.call = t ∧
      site.forwarded = (site.argument.kind == .ident && r.isLive site.argument.symbol) := by
  constructor
  · rintro rfl
    have hpasses := passesFormat_of_siteOf h
    have heq := Option.some.inj (Except.ok.inj (h.symm.trans (siteOf_of_passesFormat hpasses r)))
    exact ⟨hpasses, congrArg Site.call heq, congrArg Site.forwarded heq⟩
  · rintro ⟨hpasses, rfl, hmark⟩
    rw [siteOf_of_passesFormat hpasses r, ← hmark] at h
    exact (Except.ok.inj h).symm

/-! ## One step -/

/-- Entering a body leaves the format parameter of its function live, if it has one, and nothing else. -/
theorem enterBody_result {scope : Scope} (h : (a.enterBody scope).result = .ok r) :
    r.live.length ≤ 1 ∧ ∀ p, p ∈ r.live ↔ ∃ f, scope.function = some f ∧ a.FormatParameter f p := by
  unfold enterBody at h
  cases hf : scope.function with
  | none =>
    rw [hf] at h
    obtain rfl : Forwarding.clear = r := by simpa [Forwarding.enter_none_result] using h
    simp [Forwarding.clear]
  | some f =>
    simp only [hf, Logged.bind_result_eq_ok, Logged.result_liftM, Forwarding.enter_some_result, Except.ok.injEq] at h
    obtain ⟨function, hfunction, ps, hps, rfl⟩ := h
    refine ⟨by cases Forwarding.formatParameter a.table a.source.config function ps <;> simp, fun p => ?_⟩
    rw [Option.mem_toList, Forwarding.formatParameter_eq_some_iff]
    constructor
    · rintro ⟨place, hplace, hp⟩
      obtain ⟨v, hv, hsymbol⟩ := (Configuration.variableSymbols_getElem? hps place p).1 hp
      exact ⟨f, rfl, function, place, v, hfunction, hplace, hv, hsymbol⟩
    · rintro ⟨f', hf', function', place, v, hfunction', hplace, hv, hsymbol⟩
      obtain rfl : f = f' := by simpa using hf'
      obtain rfl : function = function' := by simpa using hfunction.symm.trans hfunction'
      exact ⟨place, hplace, (Configuration.variableSymbols_getElem? hps place p).2 ⟨v, hv, hsymbol⟩⟩

/-- Everything that a step can do, by what the token is. -/
theorem step_cases (h : (a.step w t).result = .ok w') :
    (∃ scope r, a.source.config.OpensBody t scope ∧ (a.enterBody scope).result = .ok r ∧ w' = { w with forwarding := r }) ∨
    (a.source.config.IsBoundary t ∧ (∀ scope, ¬a.source.config.OpensBody t scope) ∧
      w' = { w with forwarding := Forwarding.clear }) ∨
    (¬a.source.config.IsBoundary t ∧
      ((a.source.config.token t).assigns = true ∨ (a.source.config.token t).isStep = true) ∧
      ∃ target, a.source.config.resolve (a.source.config.look (a.source.config.token t).operand1) false = .ok target ∧
        w' = { w with forwarding := { live := w.forwarding.live.filter (fun p => !p.isIn target.toList) } }) ∨
    (¬a.source.config.IsBoundary t ∧
      ¬((a.source.config.token t).assigns = true ∨ (a.source.config.token t).isStep = true) ∧
      (a.source.config.token t).isCall = true ∧
      ∃ site, (a.siteOf w.forwarding t).result = .ok site ∧ w' = { w with sites := w.sites ++ site.toList }) ∨
    (¬a.source.config.IsBoundary t ∧
      ¬((a.source.config.token t).assigns = true ∨ (a.source.config.token t).isStep = true) ∧
      ¬(a.source.config.token t).isCall = true ∧ w' = w) := by
  unfold step at h
  cases hstart : a.source.config.bodyStartingAt t with
  | some scope =>
    simp only [hstart, Logged.bind_result_eq_ok, Logged.result_pure, Except.ok.injEq] at h
    obtain ⟨r, hr, rfl⟩ := h
    exact Or.inl ⟨scope, r, Configuration.bodyStartingAt_eq_some_iff.1 hstart, hr, rfl⟩
  | none =>
    simp only [hstart] at h
    right
    have hopens : ∀ scope, ¬a.source.config.OpensBody t scope := by
      intro scope hscope
      rw [← Configuration.bodyStartingAt_eq_some_iff, hstart] at hscope
      cases hscope
    split at h
    · rename_i hend
      obtain ⟨s, hs, hstop⟩ := Configuration.endsBody_iff.1 hend
      exact Or.inl ⟨⟨s, hs, Or.inr hstop⟩, hopens, by simpa using h.symm⟩
    · rename_i hend
      have hb := Configuration.not_isBoundary_of hstart hend
      right
      split at h
      · rename_i hassign
        simp only [Logged.bind_result_eq_ok, Logged.result_liftM, Logged.result_pure, Except.ok.injEq,
          Configuration.assignmentTargets, except_bind_eq_ok, except_pure_eq_ok, Forwarding.assign_result] at h
        obtain ⟨targets, ⟨target, htarget, rfl⟩, r, rfl, rfl⟩ := h
        exact Or.inl ⟨hb, by simpa using hassign, target, htarget, rfl⟩
      · rename_i hassign
        right
        split at h
        · rename_i hcall
          simp only [Logged.bind_result_eq_ok, Logged.result_pure, Except.ok.injEq] at h
          obtain ⟨site, hsite, rfl⟩ := h
          exact Or.inl ⟨hb, by simpa using hassign, hcall, site, hsite, rfl⟩
        · rename_i hcall
          exact Or.inr ⟨hb, by simpa using hassign, hcall, by simpa using h.symm⟩

/-- A plain call that passes a format is recorded, whatever was seen before. -/
theorem step_of_passesFormat {callee argument : Expression} (hplain : a.source.config.IsPlainCall t)
    (h : a.PassesFormat t callee argument) (w : Walk) :
    (a.step w t).result = .ok { w with sites := w.sites ++
      [{ call := t, callee, argument, forwarded := argument.kind == .ident && w.forwarding.isLive argument.symbol }] } := by
  obtain ⟨hb, hassign, hcall⟩ := hplain
  have hstart : a.source.config.bodyStartingAt t = none :=
    Configuration.bodyStartingAt_eq_none_iff.2 fun s hs hstart => hb ⟨s, hs, Or.inl hstart⟩
  have hend : ¬a.source.config.endsBody t = true := by
    intro hend
    obtain ⟨s, hs, hstop⟩ := Configuration.endsBody_iff.1 hend
    exact hb ⟨s, hs, Or.inr hstop⟩
  unfold step
  simp only [hstart]
  rw [if_neg hend, if_neg (by simpa using hassign), if_pos hcall, Logged.result_bind, siteOf_of_passesFormat h,
    except_ok_bind, Logged.result_pure, Option.toList_some]

/-! ## What may be passed on -/

/-- At the start of a body its format parameter may be passed on. -/
theorem forwardableAfter_snoc_of_opensBody {tokens : List TokenId} {scope : Scope} {s : Symbol}
    (ht : a.source.config.OpensBody t scope) :
    a.ForwardableAfter (tokens ++ [t]) s ↔ ∃ f p, scope.function = some f ∧ a.FormatParameter f p ∧ p.same s = true := by
  unfold ForwardableAfter
  simp only [Configuration.lastBoundary_snoc_of_isBoundary ht.isBoundary]
  constructor
  · rintro ⟨_, _, scope', f, p, ⟨rfl, rfl⟩, hscope', hf, hp, hsame, -⟩
    obtain rfl := ht.unique hscope'
    exact ⟨f, p, hf, hp, hsame⟩
  · rintro ⟨f, p, hf, hp, hsame⟩
    exact ⟨t, [], scope, f, p, ⟨rfl, rfl⟩, ht, hf, hp, hsame, by simp⟩

/-- At the end of a body nothing may be passed on. -/
theorem not_forwardableAfter_snoc {tokens : List TokenId} {s : Symbol} (ht : a.source.config.IsBoundary t)
    (hopens : ∀ scope, ¬a.source.config.OpensBody t scope) : ¬a.ForwardableAfter (tokens ++ [t]) s := by
  rintro ⟨start, between, scope, f, p, hlast, hscope, -⟩
  obtain ⟨rfl, -⟩ := (Configuration.lastBoundary_snoc_of_isBoundary ht).1 hlast
  exact hopens scope hscope

/-- Inside a body a symbol that may be passed on stays so until a token assigns to it. -/
theorem forwardableAfter_snoc_of_not_isBoundary {tokens : List TokenId} {s : Symbol}
    (ht : ¬a.source.config.IsBoundary t) :
    a.ForwardableAfter (tokens ++ [t]) s ↔ a.ForwardableAfter tokens s ∧ ¬a.source.config.Rebinds t s := by
  unfold ForwardableAfter
  simp only [Configuration.lastBoundary_snoc_of_not_isBoundary ht]
  constructor
  · rintro ⟨start, _, scope, f, p, ⟨init, rfl, hlast⟩, hscope, hf, hp, hsame, hfree⟩
    exact ⟨⟨start, init, scope, f, p, hlast, hscope, hf, hp, hsame, fun u hu => hfree u (by simp [hu])⟩,
      hfree t (by simp)⟩
  · rintro ⟨⟨start, init, scope, f, p, hlast, hscope, hf, hp, hsame, hfree⟩, hkeep⟩
    refine ⟨start, init ++ [t], scope, f, p, ⟨init, rfl, hlast⟩, hscope, hf, hp, hsame, ?_⟩
    intro u hu
    rcases List.mem_append.1 hu with hu | hu
    · exact hfree u hu
    · rw [List.mem_singleton.1 hu]
      exact hkeep

/-- The invariant of a walk: after some tokens at most one symbol is live, and the live symbols are those that may be passed
on. -/
structure Tracks (a : Auditor) (tokens : List TokenId) (r : Forwarding) : Prop where
  atMostOne : r.live.length ≤ 1
  live_iff : ∀ s, r.isLive (some s) = true ↔ a.ForwardableAfter tokens s

/-- Nothing is tracked before the first token. -/
theorem tracks_nil (a : Auditor) : a.Tracks [] {} := by
  refine ⟨by simp, fun s => ?_⟩
  simp only [Forwarding.isLive_some_iff, List.not_mem_nil, false_and, exists_false, false_iff]
  rintro ⟨_, _, _, _, _, hlast, -⟩
  exact Configuration.lastBoundary_nil hlast

/-- An assignment takes out exactly what its token rebinds. -/
theorem tracks_assign {tokens : List TokenId} (hr : a.Tracks tokens r) (hb : ¬a.source.config.IsBoundary t)
    (hassign : (a.source.config.token t).assigns = true ∨ (a.source.config.token t).isStep = true)
    {target : Option Symbol}
    (htarget : a.source.config.resolve (a.source.config.look (a.source.config.token t).operand1) false = .ok target) :
    a.Tracks (tokens ++ [t]) { live := r.live.filter (fun p => !p.isIn target.toList) } := by
  refine ⟨Nat.le_trans (List.length_filter_le _ _) hr.atMostOne, fun s => ?_⟩
  rw [forwardableAfter_snoc_of_not_isBoundary hb, ← hr.live_iff]
  simp only [Forwarding.isLive_some_iff, List.mem_filter]
  have hrebinds : a.source.config.Rebinds t s ↔ s.isIn target.toList = true := by
    unfold Configuration.Rebinds
    rw [htarget]
    cases target with
    | none => simp [Symbol.isIn]
    | some x => simp [hassign, Symbol.isIn, Symbol.same_comm s x]
  have hcongr : ∀ p : Symbol, s.same p = true → p.isIn target.toList = s.isIn target.toList := by
    intro p hsame
    simp only [Symbol.isIn, Symbol.same_comm p, Symbol.same_comm s, Symbol.same_congr hsame]
  rw [hrebinds]
  constructor
  · rintro ⟨p, ⟨hp, hkeep⟩, hsame⟩
    exact ⟨⟨p, hp, hsame⟩, by simpa [hcongr p hsame] using hkeep⟩
  · rintro ⟨⟨p, hp, hsame⟩, hkeep⟩
    exact ⟨p, ⟨hp, by simpa [hcongr p hsame] using hkeep⟩, hsame⟩

/-- Every step keeps the invariant. -/
theorem tracks_step {tokens : List TokenId} (hw : a.Tracks tokens w.forwarding) (h : (a.step w t).result = .ok w') :
    a.Tracks (tokens ++ [t]) w'.forwarding := by
  rcases step_cases h with ⟨scope, r, hopens, hr, rfl⟩ | ⟨hb, hopens, rfl⟩ | ⟨hb, hassign, target, htarget, rfl⟩ |
    ⟨hb, hassign, -, site, -, rfl⟩ | ⟨hb, hassign, -, rfl⟩
  · obtain ⟨hone, hmem⟩ := enterBody_result hr
    refine ⟨hone, fun s => ?_⟩
    rw [forwardableAfter_snoc_of_opensBody hopens, Forwarding.isLive_some_iff]
    constructor
    · rintro ⟨p, hp, hsame⟩
      obtain ⟨f, hf, hparameter⟩ := (hmem p).1 hp
      exact ⟨f, p, hf, hparameter, Symbol.same_comm p s ▸ hsame⟩
    · rintro ⟨f, p, hf, hparameter, hsame⟩
      exact ⟨p, (hmem p).2 ⟨f, hf, hparameter⟩, Symbol.same_comm s p ▸ hsame⟩
  · refine ⟨by simp [Forwarding.clear], fun s => ?_⟩
    simpa [Forwarding.clear, Forwarding.isLive_some_iff] using not_forwardableAfter_snoc hb hopens
  · exact tracks_assign hw hb hassign htarget
  -- neither a call nor any other token inside a body rebinds a symbol
  all_goals
    refine ⟨hw.atMostOne, fun s => ?_⟩
    rw [forwardableAfter_snoc_of_not_isBoundary hb, ← hw.live_iff]
    exact ⟨fun hlive => ⟨hlive, fun hrebinds => hassign hrebinds.1⟩, fun hlive => hlive.1⟩

/-- The invariant holds after every part of the token list that is walked without a fault. -/
theorem tracks_walk {tokens : List TokenId} (h : Progress.Reaches a.step {} tokens w) : a.Tracks tokens w.forwarding :=
  h.induction (P := fun tokens w => a.Tracks tokens w.forwarding) (tracks_nil a)
    (fun _ _ _ _ _ hw hstep => tracks_step hw hstep)

/-- What the mark of a site means. -/
theorem Tracks.marked_iff {tokens : List TokenId} (hr : a.Tracks tokens r) (e : Expression) :
    (e.kind == .ident && r.isLive e.symbol) = true ↔ a.PassesOn tokens e := by
  unfold PassesOn
  rw [Bool.and_eq_true, beq_iff_eq]
  cases e.symbol with
  | none => simp [Forwarding.isLive]
  | some s => simp [hr.live_iff]

/-! ## What is recorded -/

/-- A step records at most one site, and it records one exactly when its token is a plain call that passes a format. -/
theorem step_sites (h : (a.step w t).result = .ok w') :
    ∃ o : Option Site, w'.sites = w.sites ++ o.toList ∧ ∀ site, o = some site ↔
      a.source.config.IsPlainCall t ∧ a.PassesFormat t site.callee site.argument ∧ site.call = t ∧
        site.forwarded = (site.argument.kind == .ident && w.forwarding.isLive site.argument.symbol) := by
  unfold Configuration.IsPlainCall
  rcases step_cases h with ⟨scope, r, hopens, -, rfl⟩ | ⟨hb, -, rfl⟩ | ⟨hb, hassign, _, -, rfl⟩ |
    ⟨hb, hassign, hcall, o, ho, rfl⟩ | ⟨hb, hassign, hcall, rfl⟩
  · exact ⟨none, by simp, by simp [hopens.isBoundary]⟩
  · exact ⟨none, by simp, by simp [hb]⟩
  · exact ⟨none, by simp, by simp [hassign]⟩
  · refine ⟨o, rfl, fun site => ?_⟩
    rw [siteOf_result ho]
    exact ⟨fun hs => ⟨⟨hb, hassign, hcall⟩, hs⟩, fun hs => hs.2⟩
  · exact ⟨none, by simp, by simp [hcall]⟩

/-- The site at a place among the sites of some tokens was recorded at an occurrence of its call, after the sites before it, for
what the call passes as its format, and is marked if that may be passed on there. -/
def RecordedIn (a : Auditor) (tokens : List TokenId) (sites : List Site) (i : Nat) (site : Site) : Prop :=
  ∃ pre post, tokens = pre ++ site.call :: post ∧ (a.walkOver pre).sites = sites.take i ∧
    (a.walkOver (pre ++ [site.call])).sites = sites.take (i + 1) ∧
    a.PassesFormat site.call site.callee site.argument ∧ (site.forwarded = true ↔ a.PassesOn pre site.argument)

/-- Every site of the walk was recorded at its call. -/
theorem site_recorded {tokens : List TokenId} (h : Progress.Reaches a.step {} tokens w) :
    ∀ (i : Nat) (site : Site), w.sites[i]? = some site → a.RecordedIn tokens w.sites i site := by
  refine h.induction (P := fun tokens w => ∀ (i : Nat) (site : Site), w.sites[i]? = some site →
    a.RecordedIn tokens w.sites i site) ?_ ?_
  · intro i site hsite
    simp at hsite
  · intro tokens w t w' hw ih hstep i site hsite
    obtain ⟨o, hsites, ho⟩ := step_sites hstep
    rw [hsites] at hsite
    by_cases hi : i < w.sites.length
    · rw [List.getElem?_append_left hi] at hsite
      obtain ⟨pre, post, hsplit, hbefore, hafter, hrest⟩ := ih i site hsite
      refine ⟨pre, post ++ [t], by rw [hsplit]; simp, ?_, ?_, hrest⟩
      · rw [hbefore, hsites, List.take_append_of_le_length (by omega)]
      · rw [hafter, hsites, List.take_append_of_le_length (by omega)]
    · rw [List.getElem?_append_right (by omega)] at hsite
      cases o with
      | none => simp at hsite
      | some site' =>
        obtain ⟨hi0, rfl⟩ : i - w.sites.length = 0 ∧ site' = site := by
          simpa [List.getElem?_singleton] using hsite
        obtain ⟨-, hpasses, rfl, hmark⟩ := (ho site').1 rfl
        obtain rfl : i = w.sites.length := by omega
        have hnext := Progress.reaches_snoc.2 ⟨w, hw, hstep⟩
        refine ⟨tokens, [], rfl, ?_, ?_, hpasses, ?_⟩
        · rw [walkOver, hw.2, hsites]
          simp
        · rw [walkOver, hnext.2, List.take_of_length_le (by simp [hsites])]
        · rw [hmark, (tracks_walk hw).marked_iff]

/-- The mark of a site is exact. In a walk without a fault every site was recorded at an occurrence of its call, for what that
call passes as its format, and it is marked exactly when the format is the plain name of a parameter that may be passed on
there. At every point of the walk at most one parameter is live, and none is when the last boundary seen starts no body or no
boundary has been seen. -/
theorem forwarded_iff_untouched_parameter (a : Auditor) (h : a.walk.fault = none) :
    (∀ (i : Nat) (site : Site), a.walk.state.sites[i]? = some site →
      ∃ pre post, a.source.config.tokenList = pre ++ site.call :: post ∧
        (a.walkOver pre).sites = a.walk.state.sites.take i ∧
        (a.walkOver (pre ++ [site.call])).sites = a.walk.state.sites.take (i + 1) ∧
        a.PassesFormat site.call site.callee site.argument ∧
        (site.forwarded = true ↔ site.argument.kind = .ident ∧ ∃ s, site.argument.symbol = some s ∧
          a.ForwardableAfter pre s)) ∧
    ∀ pre post, a.source.config.tokenList = pre ++ post →
      (a.walkOver pre).forwarding.live.length ≤ 1 ∧
      ((∀ b between, a.source.config.LastBoundary pre b between → ∀ scope, ¬a.source.config.OpensBody b scope) →
        (a.walkOver pre).forwarding.live = []) := by
  have hwalk : Progress.Reaches a.step {} a.source.config.tokenList a.walk.state := ⟨h, rfl⟩
  refine ⟨fun i site hsite => ?_, fun pre post hsplit => ?_⟩
  · exact site_recorded hwalk i site hsite
  · rw [hsplit] at hwalk
    obtain ⟨w, hpre, -⟩ := Progress.reaches_append.1 hwalk
    have htracks := tracks_walk hpre
    rw [walkOver, hpre.2]
    refine ⟨htracks.atMostOne, fun hclosed => ?_⟩
    cases hlive : w.forwarding.live with
    | nil => rfl
    | cons p rest =>
      -- a live symbol stands for a body that the last boundary starts
      have hp : w.forwarding.isLive (some p) = true := Forwarding.isLive_some_iff.2 ⟨p, by simp [hlive], by simp⟩
      obtain ⟨start, between, scope, _, _, hlast, hopens, -⟩ := (htracks.live_iff p).1 hp
      exact absurd hopens (hclosed start between hlast scope)

namespace ReportWrapper

/-- The body of a function `report` that takes a format: it passes its parameter on, moves it by one, and passes it on again. -/
def config : Configuration :=
  { tokens := #[{ text := "\x7b" }, { text := "(", operand1 := some 2, operand2 := some 3 },
      { text := "vprintf", isName := true }, { text := "fmt", isName := true, variableRef := some 0 },
      { text := "++", operand1 := some 3 }, { text := "(", operand1 := some 2, operand2 := some 3 }, { text := "\x7d" }]
    tokenList := [0, 1, 4, 5, 6]
    variableDecls := #[{ name := "fmt", isArgument := true }]
    functionDecls := #[{ name := "report", arguments := [(1, 0)] }]
    scopes := [{ kind := "Function", bodyStart := some 0, bodyStop := some 6, function := some 0 }] }

/-- The auditor that knows `report` to take a format as its first argument. -/
def auditor : Auditor :=
  { source := config.source, table := { extra := [("report", some 0)] }, settings := {} }

/-- The symbol of the parameter. -/
def format : Symbol :=
  { key := { space := "var", id := .unnamed 0 }, name := "fmt", kind := .variableName }

/-- The two names of the calls as expressions. -/
def callee : Expression :=
  .leaf { kind := .ident, text := "vprintf", stop := some {} }

def argument : Expression :=
  .leaf { kind := .ident, text := "fmt", symbol := some format, stop := some {} }

theorem calls_pass_format : auditor.PassesFormat 1 callee argument ∧ auditor.PassesFormat 5 callee argument := by
  have hcallee : (config.source.expression (some 2)).result = .ok callee := by cbv
  have hargument : (config.source.expression (some 3)).result = .ok argument := by cbv
  have hroots : (config.callArguments (config.token 1))[0]? = some 3 ∧ (config.callArguments (config.token 5))[0]? = some 3 :=
    ⟨by cbv, by cbv⟩
  exact ⟨⟨hcallee, Or.inl rfl, some (.ofLibraryFunction "vprintf"), 0, 3, rfl, rfl, hroots.1, by decide, hargument⟩,
    ⟨hcallee, Or.inl rfl, some (.ofLibraryFunction "vprintf"), 0, 3, rfl, rfl, hroots.2, by decide, hargument⟩⟩

/-- The first call passes the parameter on untouched, the second does not. -/
theorem walk_reaches : Progress.Reaches auditor.step {} config.tokenList
    { sites := [{ call := 1, callee, argument, forwarded := true }, { call := 5, callee, argument, forwarded := false }] } := by
  have hstart : (auditor.step {} 0).result = .ok { forwarding := { live := [format] } } := by cbv
  have hfirst := step_of_passesFormat (by decide) calls_pass_format.1 { forwarding := { live := [format] } }
  have hincrement : ∀ sites, (auditor.step { forwarding := { live := [format] }, sites } 4).result = .ok { sites } := by
    intro sites
    rfl
  have hsecond := step_of_passesFormat (by decide) calls_pass_format.2
    { sites := [{ call := 1, callee, argument, forwarded := true }] }
  have hstop : ∀ sites, (auditor.step { sites } 6).result = .ok { sites } := fun _ => rfl
  exact Progress.reaches_cons.2 ⟨_, hstart, Progress.reaches_cons.2 ⟨_, hfirst, Progress.reaches_cons.2 ⟨_, hincrement _,
    Progress.reaches_cons.2 ⟨_, hsecond, Progress.reaches_cons.2 ⟨_, hstop _, Progress.reaches_nil.2 rfl⟩⟩⟩⟩⟩

end ReportWrapper

/-- In the body of `report` the first call is marked, so its format is a parameter that may be passed on there. -/
theorem report_wrapper_forwards_format :
    ReportWrapper.auditor.walk.fault = none ∧ ∃ pre post s,
      ReportWrapper.config.tokenList = pre ++ 1 :: post ∧ ReportWrapper.auditor.ForwardableAfter pre s := by
  have hfault := ReportWrapper.walk_reaches.1
  have hsite : ReportWrapper.auditor.walk.state.sites[0]? = some
      { call := 1, callee := ReportWrapper.callee, argument := ReportWrapper.argument, forwarded := true } :=
    congrArg (fun w : Walk => w.sites[0]?) ReportWrapper.walk_reaches.2
  obtain ⟨pre, post, hsplit, -, -, -, hmark⟩ :=
    (forwarded_iff_untouched_parameter ReportWrapper.auditor hfault).1 0 _ hsite
  obtain ⟨-, s, -, hs⟩ := hmark.1 rfl
  exact ⟨hfault, pre, post, s, hsplit, hs⟩

end Auditor

end FormatAudit
