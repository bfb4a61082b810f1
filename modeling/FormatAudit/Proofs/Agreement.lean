import FormatAudit.Proofs.Gaps
import FormatAudit.Proofs.Layout
import FormatAudit.Proofs.Stream
import FormatAudit.Proofs.Wrappers

/-!
# Where the search for wrappers and the walk agree

Both decide whether a call passes on the format parameter of the function around it. The search looks at tokens: the argument is a
name of the same variable. The walk looks at expressions: the argument is a plain name with the same symbol as the live parameter.
A call that makes a function a wrapper has no finding exactly if its argument is constant, or if the name stands alone, outside of
grouping parentheses, the two entries of the variable agree on its name, and the settings do not speak of the function.
-/

namespace FormatAudit

open Logged

/-! ## Names as expressions -/

namespace Configuration

/-- The tokens around a token and all that its tree covers are a pair of grouping parentheses. -/
def InGroup (c : Configuration) (o : TokenId) : Prop :=
  ∃ e t u, c.source.extent (some o) = .ok e ∧ (c.token e.first).previous = some t ∧ (c.token e.last).next = some u ∧
    (c.token t).opensGroup = true ∧ (c.token t).link = some u

/-- A token is a plain name outside of grouping parentheses. -/
def StandsAlone (c : Configuration) (o : TokenId) : Prop :=
  c.formOf o = .name ∧ ¬c.InGroup o

end Configuration

namespace Expression

/-- Numbering keeps the kind of a node. -/
@[simp]
theorem kind_numberFrom (e : Expression) (start : Nat) : (e.numberFrom start).1.kind = e.kind := by
  cases e
  rfl

/-- Numbering keeps the symbol of a node. -/
@[simp]
theorem symbol_numberFrom (e : Expression) (start : Nat) : (e.numberFrom start).1.symbol = e.symbol := by
  cases e
  rfl

@[simp]
theorem kind_numbered (e : Expression) : e.numbered.kind = e.kind :=
  kind_numberFrom e 0

@[simp]
theorem symbol_numbered (e : Expression) : e.numbered.symbol = e.symbol :=
  symbol_numberFrom e 0

end Expression

namespace Source

variable {s : Source} {x y : Expression}

/-- An expression between a pair of grouping parentheses is an expression in parentheses. -/
theorem kind_enclose_of_pair {count : Nat} {t u : TokenId} (hgroup : (s.config.token t).opensGroup = true)
    (hlink : (s.config.token t).link = some u)
    (h : (s.enclose (count + 1) (some t) (some u) x : Logged Fault Expression).result = .ok y) : y.kind = .paren := by
  rw [enclose, if_pos (by simp [hgroup, hlink])] at h
  simp only [make_eq, pure_bind, bind_result_eq_ok] at h
  obtain ⟨l, -, l', -, h⟩ := h
  rcases enclose_cases h with rfl | hkind
  · rfl
  · exact hkind

/-- The node of a form is a plain name exactly if the form is, and has the symbol of its token. -/
theorem ofForm_ident {below : Below (Logged Fault)} {t : TokenId} {e : Extent} {location stop : Location} {form : Form}
    (h : (s.ofForm below t e location stop form).result = .ok x) :
    (x.kind = .ident ↔ form = .name) ∧ (x.kind = .ident → s.config.resolve (s.config.token t) false = .ok x.symbol) := by
  have hkinds := kind_mem_kinds h
  cases form with
  | name =>
    simp only [ofForm, make_eq, bind_result_eq_ok, Logged.result_liftM, Logged.result_pure, Except.ok.injEq] at h
    obtain ⟨symbol, hsymbol, rfl⟩ := h
    exact ⟨iff_of_true rfl rfl, fun _ => hsymbol⟩
  | _ =>
    have hkind : x.kind ≠ .ident := by
      intro hkind
      simp [hkind, Form.kinds] at hkinds
    refine ⟨iff_of_false hkind ?_, fun h => absurd h hkind⟩
    intro hname
    cases hname

/-- The expression of a token is a plain name exactly if the token is one and stands alone; it has the symbol of the token
then. -/
theorem expression_ident {c : Configuration} {o : TokenId} (h : (c.source.expression (some o)).result = .ok x) :
    (x.kind = .ident ↔ c.StandsAlone o) ∧ (x.kind = .ident → c.resolve (c.token o) false = .ok x.symbol) := by
  rw [expression_eq, bind_result_eq_ok] at h
  obtain ⟨y, hy, hnumbered⟩ := h
  obtain rfl := Except.ok.inj hnumbered
  rw [Expression.kind_numbered, Expression.symbol_numbered]
  obtain ⟨e, location, stop, node, he, -, -, hnode, hparens⟩ := ofTokenWithin_succ_eq_ok_iff.1 hy
  unfold Configuration.StandsAlone
  by_cases hgroup : c.InGroup o
  · obtain ⟨e', t, u, he', hbefore, hafter, hopens, hlink⟩ := id hgroup
    obtain rfl := Except.ok.inj (he.symm.trans he')
    have hparen : y.kind = .paren := by
      rw [inParens, Configuration.source_config, hbefore, hafter] at hparens
      exact kind_enclose_of_pair (s := c.source) hopens hlink hparens
    have hkind : y.kind ≠ .ident := by
      rw [hparen]
      decide
    exact ⟨iff_of_false hkind fun h => h.2 hgroup, fun h => absurd h hkind⟩
  · have hsame : node = y := by
      have hplain : c.source.inParens (m := Logged Fault) e node = pure node :=
        Configuration.enclose_of_not_pair node fun t u hbefore hafter hopens hlink =>
          hgroup ⟨e, t, u, he, hbefore, hafter, hopens, hlink⟩
      rw [hplain] at hparens
      exact Except.ok.inj hparens
    obtain rfl := hsame
    obtain ⟨hkind, hsymbol⟩ := ofForm_ident hnode
    exact ⟨hkind.trans (and_iff_left hgroup).symm, hsymbol⟩

end Source

/-! ## The format parameter of a wrapper -/

namespace Configuration

variable {c : Configuration} {u v : VariableId} {p q : Symbol}

/-- Two references that lead to the same variable have the same symbol exactly if they agree on its name. -/
theorem same_iff_of_sameEntry (hsame : c.sameEntry u v = true) (hq : c.variableSymbol u = .ok q)
    (hp : c.variableSymbol v = .ok p) :
    q.same p = true ↔ c.nameOfVariable (c.variableAt u) = c.nameOfVariable (c.variableAt v) := by
  simp only [variableSymbol, except_bind_eq_ok, except_pure_eq_ok] at hq hp
  obtain ⟨_, -, _, -, rfl⟩ := hq
  obtain ⟨_, -, _, -, rfl⟩ := hp
  rw [Symbol.same_iff]
  refine and_iff_right ?_
  simp only [sameEntry, Bool.or_eq_true, beq_iff_eq, Bool.and_eq_true] at hsame
  rcases hsame with rfl | ⟨hsome, hid⟩
  · rfl
  · obtain ⟨id, hid'⟩ := Option.isSome_iff_exists.1 hsome
    simp [← hid, hid']

/-- The argument at the place of the format of a call is a name token of a variable. -/
def PassesName (c : Configuration) (table : FormatTable) (t : TokenId) (v : VariableId) (o : TokenId) (u : VariableId) : Prop :=
  ∃ (callee : Symbol) (place : Nat), c.calledSymbol (c.token t) = .ok (some callee) ∧ table.slot c callee = place ∧
    (c.callArguments (c.token t))[place]? = some o ∧ (c.token o).isName = true ∧ (c.token o).variableRef = some u ∧
    c.sameEntry u v = true

/-- A call that the search for wrappers accepts passes a name token of the variable. -/
theorem exists_passesName {table : FormatTable} {t : TokenId} (h : c.callForwards table (c.token t) v = .ok true) :
    ∃ o u, c.PassesName table t v o u := by
  obtain ⟨callee, place, hplace, hcallee, o, ho, hname⟩ := (callForwards_eq_ok h).1 rfl
  simp only [isNameOf, Bool.and_eq_true, Option.any_eq_true] at hname
  obtain ⟨hname, u, hu, hsame⟩ := hname
  exact ⟨o, u, callee, place, hcallee, hplace, ho, hname, hu, hsame⟩

/-- Variables that are the same are bound again by the same tokens. -/
theorem rebinds_congr (h : q.same p = true) (t : TokenId) : c.Rebinds t q ↔ c.Rebinds t p := by
  simp only [Rebinds, Symbol.same_congr h]

end Configuration

namespace Auditor

variable {a : Auditor} {settings : Settings} {c : Configuration}

/-- After the start of a body and some tokens that are no boundaries, what may be passed on is the format parameter of its
function, unless one of these tokens assigns to it. -/
theorem forwardableAfter_iff_of_opensBody {between : List TokenId} {start : TokenId} {scope : Scope} {f : FunctionId}
    (pre : List TokenId) (s : Symbol) (hopens : a.source.config.OpensBody start scope) (hf : scope.function = some f)
    (hbetween : ∀ t ∈ between, ¬a.source.config.IsBoundary t) :
    a.ForwardableAfter (pre ++ start :: between) s ↔
      (∃ p, a.FormatParameter f p ∧ p.same s = true) ∧ ∀ t ∈ between, ¬a.source.config.Rebinds t s := by
  induction between using List.reverseRecOn with
  | nil =>
    rw [forwardableAfter_snoc_of_opensBody hopens]
    simp [hf]
  | append_singleton init t ih =>
    have hsplit : pre ++ start :: (init ++ [t]) = (pre ++ start :: init) ++ [t] := by simp
    rw [hsplit, forwardableAfter_snoc_of_not_isBoundary (hbetween t (by simp)), ih fun t ht => hbetween t (by simp [ht])]
    simp only [List.mem_append, List.mem_singleton, or_imp, forall_and, forall_eq, and_assoc]

/-- What the settings and the library say about functions. -/
def knownTable (settings : Settings) : FormatTable :=
  { extra := settings.functions }

/-- The search for wrappers only adds to what is known. -/
theorem extends_ofSettings (settings : Settings) (c : Configuration) :
    (knownTable settings).Extends (ofSettings settings c).table := by
  unfold ofSettings prepare
  dsimp only
  split
  · exact (FormatTable.grown_findWrappers _ c).grows
  · exact .refl _

/-- The format parameter of a function that is recorded as a wrapper is the one it was recorded for, unless the settings speak of
the function. -/
theorem formatParameter_iff_of_recorded {scope : Scope} {s p : Symbol} {place : Nat} {v : VariableId} {f : FunctionId}
    (hdeclares : c.DeclaresFormat scope s place v) (hf : scope.function = some f) (hunknown : (knownTable settings).slot c s < 0)
    (hrecorded : Table.get? (ofSettings settings c).table.inferred s.key = some (place : Int)) :
    (ofSettings settings c).FormatParameter f p ↔ (knownTable settings).Open s ∧ c.variableSymbol v = .ok p := by
  obtain ⟨-, f', hf', hs, -, hv⟩ := hdeclares
  obtain rfl : f = f' := Option.some.inj (hf.symm.trans hf')
  have hextends := extends_ofSettings settings c
  by_cases hopen : (knownTable settings).Open s
  · have hslot : (ofSettings settings c).table.slot c s = place := by
      rw [FormatTable.slot_of_open (hextends.open_iff.2 hopen), hrecorded]
      rfl
    constructor
    · rintro ⟨s', place', v', hs', hslot', hv', hp⟩
      obtain rfl := Except.ok.inj (hs.symm.trans hs')
      obtain rfl : place = place' := by
        have := hslot.symm.trans hslot'
        omega
      obtain rfl := Option.some.inj (hv.symm.trans hv')
      exact ⟨hopen, hp⟩
    · rintro ⟨-, hp⟩
      exact ⟨s, place, v, hs, hslot, hv, hp⟩
  · refine iff_of_false ?_ fun h => hopen h.1
    rintro ⟨s', place', v', hs', hslot', -⟩
    obtain rfl := Except.ok.inj (hs.symm.trans hs')
    have hslot := FormatTable.slot_of_not_open (c := c) hopen hextends.extra hextends.builtin
    have : (ofSettings settings c).table.slot c s = place' := hslot'
    omega

/-! ## One call -/

/-- A call in the body of a wrapper passes its format parameter on, as the search for wrappers sees it, and nothing before the
call in the body assigns to the parameter. -/
structure WrapperCall (settings : Settings) (c : Configuration) (scope : Scope) (s : Symbol) (place : Nat) (v : VariableId)
    (p : Symbol) (start : TokenId) (between : List TokenId) (t : TokenId) : Prop where
  declares : c.DeclaresFormat scope s place v
  unknown : (knownTable settings).slot c s < 0
  recorded : Table.get? (ofSettings settings c).table.inferred s.key = some (place : Int)
  parameter : c.variableSymbol v = .ok p
  opens : c.OpensBody start scope
  unbroken : ∀ x ∈ between, ¬c.IsBoundary x
  untouched : ∀ x ∈ between, ¬c.Rebinds x p
  forwards : c.callForwards (ofSettings settings c).table (c.token t) v = .ok true

section Call

variable {scope : Scope} {s p : Symbol} {place : Nat} {start t o : TokenId} {between : List TokenId} {u v : VariableId}
  {callee argument : Expression}

/-- The expression that a call passes as its format is a plain name exactly if the name token that it passes stands alone; it has
the symbol of the variable of the token then. -/
theorem argument_ident (h : c.PassesName (ofSettings settings c).table t v o u)
    (hpasses : (ofSettings settings c).PassesFormat t callee argument) :
    (argument.kind = .ident ↔ c.StandsAlone o) ∧
      (argument.kind = .ident → ∃ q, c.variableSymbol u = .ok q ∧ argument.symbol = some q) := by
  obtain ⟨symbol, place, hsymbol, hplace, ho, hname, hu, -⟩ := h
  obtain ⟨-, -, symbol', place', root, hsymbol', hplace', hroot, -, hargument⟩ := hpasses
  obtain rfl := Except.ok.inj (hsymbol.symm.trans hsymbol')
  obtain rfl : place = place' := by
    have hslot : (ofSettings settings c).table.slot c symbol = place' := hplace'
    omega
  obtain rfl := Option.some.inj (ho.symm.trans hroot)
  obtain ⟨hkind, hresolve⟩ := Source.expression_ident hargument
  refine ⟨hkind, fun hident => ?_⟩
  have hmade := hresolve hident
  simp only [Configuration.resolve, hname, hu, Bool.not_true, Bool.false_eq_true, if_false] at hmade
  cases hq : c.variableSymbol u with
  | error fault => simp [hq, Except.map] at hmade
  | ok q =>
    rw [hq] at hmade
    exact ⟨q, rfl, (Except.ok.inj hmade).symm⟩

/-- In the body of a wrapper, a name of its format parameter is passed on exactly if it stands alone, has the name of the
declaration, and the settings do not speak of the function. -/
theorem WrapperCall.passesOn_iff (h : WrapperCall settings c scope s place v p start between t)
    (hname : c.PassesName (ofSettings settings c).table t v o u)
    (hpasses : (ofSettings settings c).PassesFormat t callee argument) (pre : List TokenId) :
    (ofSettings settings c).PassesOn (pre ++ start :: between) argument ↔
      c.StandsAlone o ∧ c.nameOfVariable (c.variableAt u) = c.nameOfVariable (c.variableAt v) ∧
        (knownTable settings).Open s := by
  obtain ⟨hkind, hsymbol⟩ := argument_ident hname hpasses
  obtain ⟨_, _, -, -, -, -, -, hsame⟩ := hname
  obtain ⟨-, f, hf, -⟩ := id h.declares
  have hparameter (q : Symbol) := formatParameter_iff_of_recorded (p := q) h.declares hf h.unknown h.recorded
  rw [PassesOn, hkind]
  refine and_congr_right fun halone => ?_
  obtain ⟨q, hq, hargument⟩ := hsymbol (hkind.2 halone)
  have hnames := Configuration.same_iff_of_sameEntry hsame hq h.parameter
  have hforwardable := forwardableAfter_iff_of_opensBody (a := ofSettings settings c) pre q h.opens hf h.unbroken
  constructor
  · rintro ⟨q', hq', hpassed⟩
    obtain rfl := Option.some.inj (hargument.symm.trans hq')
    obtain ⟨⟨p', hp', hsame'⟩, -⟩ := hforwardable.1 hpassed
    obtain ⟨hopen, hv⟩ := (hparameter p').1 hp'
    obtain rfl := Except.ok.inj (h.parameter.symm.trans hv)
    exact ⟨hnames.1 (Symbol.same_comm _ _ ▸ hsame'), hopen⟩
  · rintro ⟨hagree, hopen⟩
    have hsame' := hnames.2 hagree
    refine ⟨q, hargument, hforwardable.2 ⟨⟨p, ?_, Symbol.same_comm _ _ ▸ hsame'⟩, fun x hx hrebinds => ?_⟩⟩
    · exact (hparameter p).2 ⟨hopen, h.parameter⟩
    · exact h.untouched x hx ((Configuration.rebinds_congr hsame' x).1 hrebinds)

end Call

/-! ## Its finding -/

/-- The walk over some tokens comes to its end, and its sites have the given findings. -/
def Judged (a : Auditor) (tokens : List TokenId) (fs : List Finding) : Prop :=
  ∃ w, Progress.Reaches a.step {} tokens w ∧ Progress.Reaches a.judgeSite [] w.sites fs

/-- A token adds no finding exactly if it does not offend. -/
theorem judged_eq_iff_not_offends {tokens : List TokenId} {t : TokenId} {fs fs' : List Finding} (h : a.Judged tokens fs)
    (h' : a.Judged (tokens ++ [t]) fs') : fs' = fs ↔ ∀ callee argument, ¬a.Offends tokens t callee argument := by
  obtain ⟨w, hw, hfs⟩ := h
  obtain ⟨w', hw', hfs'⟩ := h'
  obtain ⟨w₀, hw₀, hstep⟩ := Progress.reaches_snoc.1 hw'
  obtain rfl : w₀ = w := hw₀.2.symm.trans hw.2
  obtain ⟨site, hsites, hsite⟩ := step_sites hstep
  rw [hsites, Progress.reaches_append] at hfs'
  obtain ⟨fs₀, hfs₀, hlast⟩ := hfs'
  obtain rfl : fs₀ = fs := hfs₀.2.symm.trans hfs.2
  -- No rule holds a finding back here.
  have hrules : ∀ f, RuleSet.suppresses {} f = true ↔ False := fun f => by simp [RuleSet.suppresses]
  have hkept : ∀ l, RuleSet.keep {} l = l := fun l => by simp [RuleSet.keep, RuleSet.suppresses]
  obtain ⟨o, hadds, hkeep⟩ := adds_of_judgeSite hrules (tracks_walk hw) hsite hlast
  rw [hkept, hkept] at hkeep
  subst hkeep
  cases hadds with
  | silent hsilent => simpa using hsilent
  | heldBack _ _ hfalse => exact hfalse.elim
  | reported hoffends => simpa using ⟨_, _, hoffends⟩

/-- A call that makes a function a wrapper has no finding exactly if it passes its format as a constant, or as a name of the
parameter that stands alone, has the name of the declaration, and the settings do not speak of the function. -/
theorem wrapper_call_silent_iff {scope : Scope} {s p : Symbol} {place : Nat} {v : VariableId} {start t : TokenId}
    {pre between : List TokenId} {fs fs' : List Finding} (h : WrapperCall settings c scope s place v p start between t)
    (hfs : (ofSettings settings c).Judged (pre ++ start :: between) fs)
    (hfs' : (ofSettings settings c).Judged (pre ++ start :: between ++ [t]) fs') :
    ∃ o u, c.PassesName (ofSettings settings c).table t v o u ∧
      (fs' = fs ↔ ∀ callee argument, c.IsPlainCall t → (ofSettings settings c).PassesFormat t callee argument →
        argument.Constant ∨ (c.StandsAlone o ∧ c.nameOfVariable (c.variableAt u) = c.nameOfVariable (c.variableAt v) ∧
          (knownTable settings).Open s)) := by
  obtain ⟨o, u, hname⟩ := Configuration.exists_passesName h.forwards
  refine ⟨o, u, hname, (judged_eq_iff_not_offends hfs hfs').trans ?_⟩
  refine forall_congr' fun callee => forall_congr' fun argument => ?_
  constructor
  · intro hsilent hplain hpasses
    by_contra hnot
    rw [not_or, ← h.passesOn_iff hname hpasses pre] at hnot
    exact hsilent ⟨hplain, hpasses, hnot.2, hnot.1⟩
  · rintro hcovered ⟨hplain, hpasses, hnotOn, hnotConstant⟩
    rcases hcovered hplain hpasses with hconstant | hsilent
    · exact hnotConstant hconstant
    · exact hnotOn ((h.passesOn_iff hname hpasses pre).2 hsilent)

namespace TwoCalls

def body : Scope :=
  { kind := "Function", bodyStart := some 1, bodyStop := some 18, function := some 0 }

/-- The body of a function `report` that prints its format twice, the second time in parentheses, after the type of `ap`. -/
def config : Configuration :=
  { Configuration.inARow [{ text := "va_list", isName := true }, { text := "\x7b", link := some 18 },
      { text := "vprintf", isName := true }, { text := "(", operand1 := some 2, operand2 := some 5, link := some 7 },
      { text := "fmt", isName := true, variableRef := some 0 }, { text := ",", operand1 := some 4, operand2 := some 6 },
      { text := "ap", isName := true, variableRef := some 1 }, { text := ")", link := some 3 }, { text := ";" },
      { text := "vprintf", isName := true }, { text := "(", operand1 := some 9, operand2 := some 14, link := some 16 },
      { text := "(", link := some 13 }, { text := "fmt", isName := true, variableRef := some 0 },
      { text := ")", link := some 11 }, { text := ",", operand1 := some 12, operand2 := some 15 },
      { text := "ap", isName := true, variableRef := some 1 }, { text := ")", link := some 10 }, { text := ";" },
      { text := "\x7d", link := some 1 }] with
    variableDecls := #[{ name := "fmt", isArgument := true }, { name := "ap", isArgument := true, typeStart := some 0 }]
    functionDecls := #[{ name := "report", arguments := [(1, 0), (2, 1)] }]
    scopes := [body] }

def report : Symbol :=
  { key := { space := "function", id := .text "report" }, name := "report", kind := .functionName, declaration := some 0 }

/-- The symbol of the format parameter. -/
def format : Symbol :=
  { key := { space := "var", id := .unnamed 0 }, name := "fmt", kind := .variableName }

/-- A name in a column. -/
def nameAt (column : Nat) (text : String) (symbol : Option Symbol) : Expression :=
  .leaf { kind := .ident, text, symbol, location := { line := 1, column }, stop := some { line := 1, column } }

/-- The two formats that are passed. -/
def bare : Expression :=
  nameAt 5 "fmt" (some format)

def enclosed : Expression :=
  .node { id := 1, kind := .paren, location := { line := 1, column := 12 }, stop := some { line := 1, column := 14 } }
    [nameAt 13 "fmt" (some format)] none

/-- The auditor that knows `report` to be a wrapper. -/
def auditor : Auditor :=
  { source := config.source, table := { inferred := [(report.key, 0)] }, settings := {} }

/-- The function as the only candidate. -/
def candidate : Candidate :=
  { scope := body, symbol := report, slot := 0, parameter := 0 }

/-- What is known once it is recorded. -/
def known : Inference :=
  { table := auditor.table, found := [report] }

/-- With the settings as they are by default, this auditor checks the configuration. -/
theorem ofSettings_eq : ofSettings {} config = auditor := by
  have hcandidates : config.candidates {} config.functionScopes = .ok [candidate] := by cbv
  have hforwards : config.anyCallForwards ({ table := {} } : Inference).table candidate.parameter
      (config.scopeTokens candidate.scope) = .ok true := by cbv
  have htable : (FormatTable.findWrappers {} config).state.table = auditor.table := by
    have hfirst : (Inference.consider config { table := {} } candidate).result = .ok known := by
      rw [Inference.consider, if_neg (by decide), Logged.result_bind, Logged.result_liftM, hforwards,
        except_ok_bind]
      rfl
    have hround : Progress.Reaches (Inference.consider config) { table := {} } [candidate] known :=
      Progress.reaches_cons.2 ⟨known, hfirst, Progress.reaches_nil.2 rfl⟩
    have hfixed : ∀ x ∈ [candidate], (Inference.consider config known x).result = .ok known :=
      List.forall_mem_singleton.2 (Inference.consider_fixed_iff.2 (.inl (by decide)))
    rw [FormatTable.findWrappers_eq hcandidates, Inference.search]
    dsimp only
    rw [if_neg (by rw [hround.1, hround.2]; decide), hround.2]
    exact congrArg Inference.table (Inference.search_of_fixed hfixed 0).2
  exact congrArg (fun table => ({ source := config.source, table, settings := {} } : Auditor)) htable

/-- A call in the body is a wrapper call if it forwards the format and nothing before it in the body binds that again. -/
theorem wrapperCall {between : List TokenId} {t : TokenId}
    (hbetween : ∀ x ∈ between,
      ¬config.IsBoundary x ∧ ¬((config.token x).assigns = true ∨ (config.token x).isStep = true))
    (hforwards : config.callForwards auditor.table (config.token t) 0 = .ok true) :
    WrapperCall {} config body report 0 0 format 1 between t where
  declares := ⟨by decide, 0, rfl, rfl, by cbv, by cbv⟩
  unknown := by decide
  recorded := by
    rw [ofSettings_eq]
    rfl
  parameter := rfl
  opens := Configuration.bodyStartingAt_eq_some_iff.1 (by decide)
  unbroken x hx := (hbetween x hx).1
  untouched x hx h := (hbetween x hx).2 h.1
  forwards := by rwa [ofSettings_eq]

theorem first_call : WrapperCall {} config body report 0 0 format 1 [2] 3 :=
  wrapperCall (by decide) (by cbv)

theorem second_call : WrapperCall {} config body report 0 0 format 1 [2, 3, 4, 5, 6, 7, 8, 9] 10 :=
  wrapperCall (by decide) (by cbv)

/-- The first call passes the bare parameter. -/
theorem first_passes : auditor.PassesFormat 3 (nameAt 3 "vprintf" none) bare := by
  have hcallee : (config.source.expression (some 2)).result = .ok (nameAt 3 "vprintf" none) := by cbv
  have hargument : (config.source.expression (some 4)).result = .ok bare := by cbv
  have hroot : (config.callArguments (config.token 3))[0]? = some 4 := by cbv
  refine ⟨hcallee, Or.inl rfl, some (.ofLibraryFunction "vprintf"), 0, 4, rfl, rfl, hroot, ?_, hargument⟩
  intro h
  cases h

/-- The second call passes the parameter within parentheses. -/
theorem second_passes : auditor.PassesFormat 10 (nameAt 10 "vprintf" none) enclosed := by
  have hcallee : (config.source.expression (some 9)).result = .ok (nameAt 10 "vprintf" none) := by cbv
  have hargument : (config.source.expression (some 12)).result = .ok enclosed := by cbv
  have hroot : (config.callArguments (config.token 10))[0]? = some 12 := by cbv
  refine ⟨hcallee, Or.inl rfl, some (.ofLibraryFunction "vprintf"), 0, 12, rfl, rfl, hroot, ?_, hargument⟩
  intro h
  cases h

/-- The sites of the two calls: only the first passes the parameter on. -/
def firstSite : Site :=
  { call := 3, callee := nameAt 3 "vprintf" none, argument := bare, forwarded := true }

def secondSite : Site :=
  { call := 10, callee := nameAt 10 "vprintf" none, argument := enclosed, forwarded := false }

/-- The walk inside the body. -/
def inside (sites : List Site) : Walk :=
  { forwarding := { live := [format] }, sites }

/-- The walk enters the body without a site. -/
theorem walk_start : Progress.Reaches auditor.step {} [0, 1, 2] (inside []) := by
  have htype : (auditor.step {} 0).result = .ok {} := rfl
  have hstart : (auditor.step {} 1).result = .ok (inside []) := by cbv
  have hname : (auditor.step (inside []) 2).result = .ok (inside []) := rfl
  exact Progress.reaches_cons.2 ⟨_, htype, Progress.reaches_cons.2 ⟨_, hstart, Progress.reaches_snoc.2
    ⟨_, Progress.reaches_nil.2 rfl, hname⟩⟩⟩

/-- The first call is a site. -/
theorem walk_first : Progress.Reaches auditor.step {} [0, 1, 2, 3] (inside [firstSite]) :=
  Progress.reaches_snoc.2 ⟨_, walk_start, step_of_passesFormat (by decide) first_passes (inside [])⟩

/-- The tokens between the calls add none. -/
theorem walk_between : Progress.Reaches auditor.step {} [0, 1, 2, 3, 4, 5, 6, 7, 8, 9] (inside [firstSite]) := by
  have hquiet : ∀ t ∈ [4, 5, 6, 7, 8, 9], (auditor.step (inside [firstSite]) t).result = .ok (inside [firstSite]) := by
    intro t ht
    fin_cases ht <;> rfl
  exact Progress.reaches_append.2 ⟨_, walk_first, Progress.reaches_of_still hquiet⟩

/-- The second call is another site. -/
theorem walk_second : Progress.Reaches auditor.step {} [0, 1, 2, 3, 4, 5, 6, 7, 8, 9, 10] (inside [firstSite, secondSite]) :=
  Progress.reaches_snoc.2 ⟨_, walk_between, step_of_passesFormat (by decide) second_passes (inside [firstSite])⟩

/-- What is said of the second call. -/
def finding : Finding :=
  { errorId := "variableFormat", message := "variable `(fmt)` used for vprintf format parameter", severity := .warning,
    location := { line := 1, column := 12 }, stop := some { line := 1, column := 14 }, cwe := 134, checker := "varfmt",
    notes := [{ location := { line := 1, column := 12 }, message := "Non-constant: (fmt)",
                stop := some { line := 1, column := 14 } }] }

theorem judge_first : Progress.Reaches auditor.judgeSite [] [firstSite] [] :=
  Progress.reaches_cons.2 ⟨[], rfl, Progress.reaches_nil.2 rfl⟩

/-- Only the second site is a finding. -/
theorem judge_second : Progress.Reaches auditor.judgeSite [] [firstSite, secondSite] [finding] := by
  have hfinding : (auditor.judgeSite [] secondSite).result = .ok [finding] := by cbv
  exact Progress.reaches_snoc.2 ⟨[], judge_first, hfinding⟩

theorem judged_first : (ofSettings {} config).Judged ([0] ++ 1 :: [2]) [] ∧
    (ofSettings {} config).Judged ([0] ++ 1 :: [2] ++ [3]) [] := by
  rw [ofSettings_eq]
  exact ⟨⟨_, walk_start, Progress.reaches_nil.2 rfl⟩, ⟨_, walk_first, judge_first⟩⟩

theorem judged_second : (ofSettings {} config).Judged ([0] ++ 1 :: [2, 3, 4, 5, 6, 7, 8, 9]) [] ∧
    (ofSettings {} config).Judged ([0] ++ 1 :: [2, 3, 4, 5, 6, 7, 8, 9] ++ [10]) [finding] := by
  rw [ofSettings_eq]
  exact ⟨⟨_, walk_between, judge_first⟩, ⟨_, walk_second, judge_second⟩⟩

end TwoCalls

/-- The first call of `report` passes a name that stands alone, the second does not. -/
theorem two_calls_told_apart :
    (∃ o u, TwoCalls.config.PassesName (ofSettings {} TwoCalls.config).table 3 0 o u ∧ TwoCalls.config.StandsAlone o) ∧
      ∃ o u, TwoCalls.config.PassesName (ofSettings {} TwoCalls.config).table 10 0 o u ∧
        ¬(TwoCalls.config.StandsAlone o ∧ TwoCalls.config.nameOfVariable (TwoCalls.config.variableAt u) =
          TwoCalls.config.nameOfVariable (TwoCalls.config.variableAt 0) ∧ (knownTable {}).Open TwoCalls.report) := by
  constructor
  · obtain ⟨o, u, hname, hsilent⟩ :=
      wrapper_call_silent_iff TwoCalls.first_call TwoCalls.judged_first.1 TwoCalls.judged_first.2
    have hpasses := TwoCalls.first_passes
    rw [← TwoCalls.ofSettings_eq] at hpasses
    have hcovered := (hsilent.1 rfl _ _ (by decide) hpasses).resolve_left (by decide)
    exact ⟨o, u, hname, hcovered.1⟩
  · obtain ⟨o, u, hname, hsilent⟩ :=
      wrapper_call_silent_iff TwoCalls.second_call TwoCalls.judged_second.1 TwoCalls.judged_second.2
    refine ⟨o, u, hname, fun hcovered => ?_⟩
    cases hsilent.2 fun _ _ _ _ => Or.inr hcovered

/-- The second call of `report` passes its format parameter on, untouched, and has a finding all the same. -/
theorem enclosed_parameter_reported :
    [0] ++ 1 :: [2, 3, 4, 5, 6, 7, 8, 9] ++ [10] <+: TwoCalls.config.tokenList ∧
      WrapperCall {} TwoCalls.config TwoCalls.body TwoCalls.report 0 0 TwoCalls.format 1 [2, 3, 4, 5, 6, 7, 8, 9] 10 ∧
      (ofSettings {} TwoCalls.config).Judged ([0] ++ 1 :: [2, 3, 4, 5, 6, 7, 8, 9]) [] ∧
      (ofSettings {} TwoCalls.config).Judged ([0] ++ 1 :: [2, 3, 4, 5, 6, 7, 8, 9] ++ [10]) [TwoCalls.finding] :=
  ⟨by decide, TwoCalls.second_call, TwoCalls.judged_second⟩

end Auditor

end FormatAudit
