import FormatAudit.Proofs.Agreement
import FormatAudit.Proofs.DepthLimit
import Mathlib

/-!
# The symbol of a called function

The function that a call calls is told in two ways. The audit looks it up by the name token of the call (`calledSymbol`). The
expression of the call has a callee of its own, which got its symbol when it was made from the tokens: a plain name is resolved as
the name of a called function, a member access first as any other name and, if that fails, again as the name of a called function.

Both ways go through `resolve`, which treats a called name differently only if it is declared nowhere. For such a name they part
in two cases. The second attempt looks for the name on the right of the operator, where a leading `::` has none, and a name with a
known value passes the first attempt as an enumerator. That is all (`Misread`).
-/

namespace FormatAudit

namespace Expression

/-- The second expression is the first one in any number of parentheses. -/
inductive Wrapped (core : Expression) : Expression → Prop where
  | bare : Wrapped core core
  | pair {info : Node} {x : Expression} : info.kind = .paren → Wrapped core x → Wrapped core (.node info [x] none)

variable {core core' x : Expression}

/-- What stands inside of all parentheses is one expression. -/
theorem Wrapped.unique (h : Wrapped core x) (h' : Wrapped core' x) (hkind : core.kind ≠ .paren) (hkind' : core'.kind ≠ .paren) :
    core = core' := by
  induction h with
  | bare =>
    cases h' with
    | bare => rfl
    | pair hparen => exact absurd hparen hkind
  | pair hparen _ ih =>
    cases h' with
    | bare => exact absurd hparen hkind'
    | pair _ h' => exact ih h'

/-- Parentheses around parentheses are parentheses. -/
theorem Wrapped.trans {y : Expression} (h : Wrapped core x) (h' : Wrapped x y) : Wrapped core y := by
  induction h' with
  | bare => exact h
  | pair hparen _ ih => exact .pair hparen ih

/-- Numbering goes on from the operands to the callee. -/
theorem callee_numberFrom (e : Expression) (start : Nat) :
    (e.numberFrom start).1.callee = e.callee.map (fun f => (f.numberFrom (numberList start e.operands).2).1) := by
  obtain ⟨info, operands, callee⟩ := e
  cases callee with
  | none => rfl
  | some f => rfl

/-- Numbering leaves parentheses where they are. -/
theorem Wrapped.of_numberFrom {start : Nat} (h : Wrapped core (x.numberFrom start).1) :
    ∃ inner first, Wrapped inner x ∧ core = (inner.numberFrom first).1 := by
  generalize hy : (x.numberFrom start).1 = y at h
  induction h generalizing x start with
  | bare => exact ⟨x, start, .bare, hy.symm⟩
  | @pair info z hparen hz ih =>
    obtain ⟨info', operands, callee⟩ := x
    rw [numberFrom] at hy
    obtain ⟨hinfo, hoperands, hcallee⟩ := Expression.node.inj hy
    have hnone : callee = none := by
      cases callee with
      | none => rfl
      | some f => cases hcallee
    have hone : operands.length = 1 := by
      have hlength := congrArg List.length hoperands
      rwa [length_numberList] at hlength
    obtain ⟨operand, rfl⟩ := List.length_eq_one_iff.1 hone
    obtain ⟨inner, first, hinner, hcore⟩ := ih (List.singleton_inj.1 hoperands)
    subst hnone
    refine ⟨inner, first, .pair ?_ hinner, hcore⟩
    rw [← hparen, ← hinfo]

end Expression

/-- What two ways of reading a name have to agree on. -/
def Symbol.features (s : Symbol) : SymbolKey × String × SymbolSort :=
  (s.key, s.name, s.kind)

/-- A name stands for no variable, no function and no type. -/
def Token.IsUndeclared (t : Token) : Prop :=
  t.variableRef = none ∧ t.functionRef = none ∧ t.isTypeName = false

instance (t : Token) : Decidable t.IsUndeclared :=
  inferInstanceAs (Decidable (_ ∧ _))

namespace Configuration

variable {c : Configuration} {name : Token} {fn : TokenId}

/-- It makes a difference that a name is called only if it is declared nowhere. -/
theorem resolve_called (h : ¬name.IsUndeclared) : c.resolve name true = c.resolve name false := by
  unfold resolve Token.IsUndeclared at *
  grind

/-- A name without a declaration is a library function where it is called. -/
theorem resolve_called_of_isUndeclared (hname : name.isName = true) (h : name.IsUndeclared) :
    c.resolve name true = .ok (some (.ofLibraryFunction name.text)) := by
  obtain ⟨hvariable, hfunction, htype⟩ := h
  simp [resolve, hname, hvariable, hfunction, htype]

/-- Elsewhere it is an enumerator or nothing. -/
theorem resolve_of_isUndeclared (hname : name.isName = true) (h : name.IsUndeclared) :
    c.resolve name false =
      .ok (if name.varId = 0 ∧ name.valueIsKnown = true then some (.ofEnumerator name.text) else none) := by
  obtain ⟨hvariable, hfunction, htype⟩ := h
  simp only [resolve, hname, hvariable, hfunction, htype]
  grind

/-- A declared name is never resolved to nothing. -/
theorem resolve_ne_none {called : Bool} (hname : name.isName = true) (h : ¬name.IsUndeclared) :
    c.resolve name called ≠ .ok none := by
  have hmap : ∀ x : Except Fault Symbol, x.map some ≠ .ok none := by
    intro x
    cases x <;> simp [Except.map]
  unfold resolve Token.IsUndeclared at *
  grind

/-- A token with the form of a name is a name. -/
theorem isName_of_formOf_eq_name (h : c.formOf fn = .name) : (c.token fn).isName = true := by
  revert h
  fun_cases formOf c fn
  all_goals grind

/-- A member access has a name after its operator. -/
theorem memberName_of_formOf_eq_member {n : TokenId} (h : c.formOf fn = .member n) :
    (c.token fn).memberName = some n ∧ (c.token n).isName = true := by
  revert h
  fun_cases formOf c fn
  all_goals grind [Option.filter_eq_some_iff]

/-- A call is lowered as a call unless it is a literal. -/
theorem formOf_of_isCall {t : TokenId} (hcall : (c.token t).isCall = true) (hoperand : (c.token t).operand1 = some fn) :
    c.formOf t = .literal ∨ c.formOf t = .call fn := by
  unfold Token.isCall at hcall
  fun_cases formOf c t
  all_goals grind

/-- The symbol that is called through a member access is that of the member. -/
theorem calledSymbol_of_memberName {call : Token} {n : TokenId} (hoperand : call.operand1 = some fn)
    (h : (c.token fn).memberName = some n) : c.calledSymbol call = c.resolve (c.token n) true := by
  have htext : (c.token fn).text = "." ∨ (c.token fn).text = "::" := by
    unfold Token.memberName at h
    grind
  simp [calledSymbol, calledName, hoperand, htext, h]

/-- The symbol that is called by name is that of the name. -/
theorem calledSymbol_of_isName {call : Token} (hoperand : call.operand1 = some fn) (hname : (c.token fn).isName = true) :
    c.calledSymbol call =
      if (c.token fn).text = "." ∨ (c.token fn).text = "::" then c.resolve (c.look (c.token fn).memberName) true
      else c.resolve (c.token fn) true := by
  by_cases htext : (c.token fn).text = "." ∨ (c.token fn).text = "::"
  · simp [calledSymbol, calledName, hoperand, htext]
  · simp [calledSymbol, calledName, hoperand, htext, hname]

/-- A callee whose symbol is not the one that is looked up for the call. For a member access: its name is declared nowhere, and
either it stands behind a leading `::` or it has a known value. For a token that is flagged as a name though it is the operator
of a member access: the token and the name that it has as an operand are read differently. -/
def Misread (c : Configuration) (fn : TokenId) : Prop :=
  (c.token fn).isName = false ∧
      (∃ n ∈ (c.token fn).memberName, (c.token n).IsUndeclared ∧
        ((c.token fn).operand2 = none ∨ (c.token n).varId = 0 ∧ (c.token n).valueIsKnown = true)) ∨
    (c.token fn).isName = true ∧ ((c.token fn).text = "." ∨ (c.token fn).text = "::") ∧
      (c.resolve (c.look (c.token fn).memberName) true).map (Option.map Symbol.features) ≠
        (c.resolve (c.token fn) true).map (Option.map Symbol.features)

instance (c : Configuration) (fn : TokenId) : Decidable (c.Misread fn) :=
  inferInstanceAs (Decidable (_ ∨ _))

/-- A member access with a declared name is not misread, and its name has the same symbol whether it is called or not. -/
theorem agrees_iff_of_declared {n : TokenId} {symbol found : Option Symbol} (hfn : (c.token fn).isName = false)
    (hform : c.formOf fn = .member n) (hdeclared : ¬(c.token n).IsUndeclared) (hsymbol : c.resolve (c.token n) false = .ok symbol)
    (hfound : if symbol = none then c.resolve (c.look (c.token fn).operand2) true = .ok found else found = symbol) :
    (c.resolve (c.token n) true).map (Option.map Symbol.features) = .ok (found.map Symbol.features) ↔ ¬c.Misread fn := by
  obtain ⟨hmember, hname⟩ := memberName_of_formOf_eq_member hform
  have hsome : symbol ≠ none := by
    rintro rfl
    exact resolve_ne_none hname hdeclared hsymbol
  rw [if_neg hsome] at hfound
  simp [Misread, hfn, hmember, resolve_called hdeclared, hsymbol, hfound, hdeclared, Except.map]

/-- An undeclared name is called as a library function. A member access gets that symbol only if neither attempt to resolve its
name goes wrong. -/
theorem agrees_iff_of_isUndeclared {n : TokenId} {symbol found : Option Symbol} (hfn : (c.token fn).isName = false)
    (hform : c.formOf fn = .member n) (hundeclared : (c.token n).IsUndeclared)
    (hsymbol : c.resolve (c.token n) false = .ok symbol)
    (hfound : if symbol = none then c.resolve (c.look (c.token fn).operand2) true = .ok found else found = symbol) :
    (c.resolve (c.token n) true).map (Option.map Symbol.features) = .ok (found.map Symbol.features) ↔ ¬c.Misread fn := by
  obtain ⟨hmember, hname⟩ := memberName_of_formOf_eq_member hform
  have hmisread : c.Misread fn ↔
      (c.token fn).operand2 = none ∨ (c.token n).varId = 0 ∧ (c.token n).valueIsKnown = true := by
    simp [Misread, hfn, hmember, hundeclared]
  have hcalled := resolve_called_of_isUndeclared (c := c) hname hundeclared
  rw [resolve_of_isUndeclared hname hundeclared] at hsymbol
  obtain rfl := Except.ok.inj hsymbol
  rw [hcalled, hmisread]
  by_cases hknown : (c.token n).varId = 0 ∧ (c.token n).valueIsKnown = true
  · -- the first attempt takes the name for an enumerator
    rw [if_pos hknown, if_neg (Option.some_ne_none _)] at hfound
    simp [hfound, hknown, Except.map, Symbol.features, Symbol.ofLibraryFunction, Symbol.ofEnumerator]
  · rw [if_neg hknown, if_pos rfl] at hfound
    rcases operand2_of_formOf_eq_member hform with hright | hright
    · rw [hright, look_some, hcalled] at hfound
      simp [← Except.ok.inj hfound, hright, hknown, Except.map]
    · -- the second attempt finds no name on the right of a leading scope operator
      have hnone : none = found := Except.ok.inj (hright ▸ hfound)
      simp [← hnone, hright, Except.map]

end Configuration

namespace Source

open Logged

variable {s : Source} {below : Below (Logged Fault)} {t fn : TokenId} {x callee : Expression}

/-- Parentheses that are found around an expression wrap it. -/
theorem wrapped_enclose {count : Nat} {before after : Option TokenId} {x y : Expression}
    (h : (s.enclose count before after x : Logged Fault Expression).result = .ok y) : x.Wrapped y := by
  fun_induction enclose (m := Logged Fault) s count before after x with
  | case1 count before after x hgroup ih =>
    simp only [bind_result_eq_ok, make_eq, pure_bind] at h
    obtain ⟨l, -, l', -, h⟩ := h
    exact (Expression.Wrapped.pair rfl .bare).trans (ih _ h)
  | case2 count before after x hgroup => exact Except.ok.inj h ▸ .bare
  | case3 => exact Except.ok.inj h ▸ .bare

/-- A callee that is flagged as a name and stands in no parentheses is resolved as the name of a called function. -/
theorem calleeOf_of_isName (hname : (s.config.token fn).isName = true) (h : (s.calleeOf below fn).result = .ok callee)
    (hkind : callee.kind ≠ .paren) : s.config.resolve (s.config.token fn) true = .ok callee.symbol := by
  unfold calleeOf at h
  simp only [hname, if_true, bind_result_eq_ok, make_eq, pure_bind, Logged.result_liftM] at h
  obtain ⟨symbol, hsymbol, location, -, h⟩ := h
  rcases enclose_cases h with rfl | hparen
  · exact hsymbol
  · exact absurd hparen hkind

/-- The expression of a token that is no name is a name or a member access only if the token is a member access. Its name is
resolved as any other name. -/
theorem ofTokenWithin_of_not_isName {steps : Nat} (hname : (s.config.token fn).isName = false)
    (h : (s.treeWithin steps (some fn)).result = .ok x) (hkind : x.kind = .ident ∨ x.kind = .member) :
    x.kind = .member ∧ ∃ n, s.config.formOf fn = .member n ∧ s.config.resolve (s.config.token n) false = .ok x.symbol := by
  have hnot : x.kind ≠ .paren := by
    intro hparen
    simp [hparen] at hkind
  cases steps with
  | zero =>
    obtain ⟨_, node, -, hnode, hparens⟩ := ofTokenWithin_zero_eq_ok h
    rcases enclose_cases hparens with rfl | hparen
    · simp [hnode] at hkind
    · exact absurd hparen hnot
  | succ steps =>
    obtain ⟨e, location, stop, node, -, -, -, hnode, hparens⟩ := ofTokenWithin_succ_eq_ok_iff.1 h
    rcases enclose_cases hparens with rfl | hparen
    · rcases hkind with hident | hmember
      · have hform := (ofForm_ident hnode).1.1 hident
        exact absurd (Configuration.isName_of_formOf_eq_name hform) (by simp [hname])
      · exact ⟨hmember, ofForm_member hnode hmember⟩
    · exact absurd hparen hnot

/-- The callee of a member access has the symbol of its name. If that name has none, it has the one that the second operand
has as the name of a called function. -/
theorem calleeOf_of_not_isName {steps : Nat} (hname : (s.config.token fn).isName = false)
    (h : (s.calleeOf (s.treeWithin steps) fn).result = .ok callee) (hkind : callee.kind = .ident ∨ callee.kind = .member) :
    ∃ n symbol, s.config.formOf fn = .member n ∧ s.config.resolve (s.config.token n) false = .ok symbol ∧
      if symbol = none then s.config.resolve (s.config.look (s.config.token fn).operand2) true = .ok callee.symbol
      else callee.symbol = symbol := by
  unfold calleeOf at h
  simp only [hname, Bool.false_eq_true, if_false] at h
  obtain ⟨x, hx, h⟩ := bind_result_eq_ok.1 h
  split at h
  case isTrue hmissing =>
    simp only [Bool.and_eq_true, decide_eq_true_eq, Option.isNone_iff_eq_none] at hmissing
    simp only [bind_result_eq_ok, Logged.result_liftM, Logged.result_pure, Except.ok.injEq] at h
    obtain ⟨symbol, hsymbol, rfl⟩ := h
    obtain ⟨-, n, hform, hresolve⟩ := ofTokenWithin_of_not_isName hname hx (.inr hmissing.1)
    refine ⟨n, none, hform, hmissing.2 ▸ hresolve, ?_⟩
    rw [if_pos rfl, hsymbol]
    obtain ⟨info, operands, inner⟩ := x
    rfl
  case isFalse hfound =>
    obtain rfl := Except.ok.inj h
    obtain ⟨hmember, n, hform, hresolve⟩ := ofTokenWithin_of_not_isName hname hx hkind
    have hsome : x.symbol ≠ none := by
      intro hnone
      simp [hmember, hnone] at hfound
    exact ⟨n, x.symbol, hform, hresolve, by rw [if_neg hsome]⟩

/-- The core of the expression of a call has the callee of that call. -/
theorem calleeOf_of_wrapped {steps : Nat} {core : Expression} (hcall : (s.config.token t).isCall = true)
    (hoperand : (s.config.token t).operand1 = some fn) (hword : s.config.isCastKeyword fn = false)
    (h : (s.treeWithin (steps + 1) (some t)).result = .ok x) (hcore : core.Wrapped x) (hkind : core.kind = .call)
    (hcallee : core.callee = some callee) : (s.calleeOf (s.treeWithin steps) fn).result = .ok callee := by
  obtain ⟨e, location, stop, node, -, -, -, hnode, hparens⟩ := ofTokenWithin_succ_eq_ok_iff.1 h
  have hkinds := kind_mem_kinds hnode
  have hnot : node.kind ≠ .paren := by
    intro hparen
    rw [hparen] at hkinds
    cases hform : s.config.formOf t <;> simp [hform, Form.kinds] at hkinds
  obtain rfl := (wrapped_enclose hparens).unique hcore hnot (by simp [hkind])
  rcases Configuration.formOf_of_isCall hcall hoperand with hform | hform
  · simp [hform, hkind, Form.kinds] at hkinds
  · rw [hform] at hnode
    simp only [Configuration.isCastKeyword] at hword
    simp only [ofForm, ofCall, hword, Bool.false_eq_true, if_false, bind_result_eq_ok, make_eq, Logged.result_pure,
      Except.ok.injEq] at hnode
    obtain ⟨arguments, -, callee', hcallee', rfl⟩ := hnode
    obtain rfl := Option.some.inj hcallee
    exact hcallee'

/-- The callee of a call got the symbol that is looked up for the call, unless it is misread. -/
theorem agrees_iff_of_calleeOf {steps : Nat} {call : Token} (hoperand : call.operand1 = some fn)
    (h : (s.calleeOf (s.treeWithin steps) fn).result = .ok callee) (hkind : callee.kind = .ident ∨ callee.kind = .member) :
    (s.config.calledSymbol call).map (Option.map Symbol.features) = .ok (callee.symbol.map Symbol.features) ↔
      ¬s.config.Misread fn := by
  cases hname : (s.config.token fn).isName with
  | true =>
    have hsymbol := calleeOf_of_isName hname h (by rcases hkind with hkind | hkind <;> simp [hkind])
    rw [Configuration.calledSymbol_of_isName hoperand hname]
    split
    case isTrue htext => simp [Configuration.Misread, hname, htext, hsymbol, Except.map]
    case isFalse htext => simp [Configuration.Misread, hname, htext, hsymbol, Except.map]
  | false =>
    obtain ⟨n, symbol, hform, hsymbol, hfound⟩ := calleeOf_of_not_isName hname h hkind
    rw [Configuration.calledSymbol_of_memberName hoperand (Configuration.memberName_of_formOf_eq_member hform).1]
    by_cases hundeclared : (s.config.token n).IsUndeclared
    · exact Configuration.agrees_iff_of_isUndeclared hname hform hundeclared hsymbol hfound
    · exact Configuration.agrees_iff_of_declared hname hform hundeclared hsymbol hfound

end Source

/-- Where the expression of a call has, in whatever parentheses, a call of a name or of a member access, the symbol of that callee
is the one that is looked up for the call, in its key, name and kind, or both are missing. The one exception is a misread
callee, and there they always differ. -/
theorem callee_symbol_agrees_iff {s : Source} {t fn : TokenId} {e core callee : Expression}
    (hcall : (s.config.token t).isCall = true) (hoperand : (s.config.token t).operand1 = some fn)
    (hword : s.config.isCastKeyword fn = false) (he : (s.expression (some t)).result = .ok e) (hcore : core.Wrapped e)
    (hkind : core.kind = .call) (hcallee : core.callee = some callee)
    (hcalleeKind : callee.kind = .ident ∨ callee.kind = .member) :
    (s.config.calledSymbol (s.config.token t)).map (Option.map Symbol.features) = .ok (callee.symbol.map Symbol.features) ↔
      ¬s.config.Misread fn := by
  simp only [Source.expression_eq, Logged.bind_result_eq_ok, Logged.result_pure, Except.ok.injEq] at he
  obtain ⟨x, hx, rfl⟩ := he
  obtain ⟨inner, first, hinner, rfl⟩ := hcore.of_numberFrom
  rw [Expression.kind_numberFrom] at hkind
  rw [Expression.callee_numberFrom, Option.map_eq_some_iff] at hcallee
  obtain ⟨named, hnamed, rfl⟩ := hcallee
  rw [Expression.kind_numberFrom] at hcalleeKind
  rw [Expression.symbol_numberFrom]
  have hmade := Source.calleeOf_of_wrapped hcall hoperand hword hx hinner hkind hnamed
  exact Source.agrees_iff_of_calleeOf hoperand hmade hcalleeKind

namespace MemberCall

/-- The call `(out.put(x))`, in parentheses, where `put` is declared nowhere. -/
def config : Configuration :=
  { tokens := #[{ text := "(", link := some 7, next := some 1 },
      { text := "out", isName := true, previous := some 0, next := some 2 },
      { text := ".", operand1 := some 1, operand2 := some 3, previous := some 1, next := some 3 },
      { text := "put", isName := true, previous := some 2, next := some 4 },
      { text := "(", operand1 := some 2, operand2 := some 5, link := some 6, previous := some 3, next := some 5 },
      { text := "x", isName := true, previous := some 4, next := some 6 },
      { text := ")", link := some 4, previous := some 5, next := some 7 },
      { text := ")", link := some 0, previous := some 6 }]
    tokenList := [0, 1, 2, 3, 4, 5, 6, 7] }

/-- The callee: `put` is taken for a library function. -/
def callee : Expression :=
  .node { id := 2, kind := .member, op := ".", text := "put", symbol := some (.ofLibraryFunction "put"), stop := some {} }
    [.leaf { id := 1, kind := .ident, text := "out", stop := some {} }] none

def call : Expression :=
  .node { id := 3, kind := .call, stop := some {} } [.leaf { id := 0, kind := .ident, text := "x", stop := some {} }]
    (some callee)

end MemberCall

/-- In `(out.put(x))` the member `put` is the library function that is looked up. -/
theorem member_call_symbol_agrees :
    (MemberCall.config.source.expression (some 4)).result =
        .ok (.node { id := 4, kind := .paren, stop := some {} } [MemberCall.call] none) ∧
      (MemberCall.config.calledSymbol (MemberCall.config.token 4)).map (Option.map Symbol.features) =
        .ok (MemberCall.callee.symbol.map Symbol.features) := by
  have hexpression : (MemberCall.config.source.expression (some 4)).result =
      .ok (.node { id := 4, kind := .paren, stop := some {} } [MemberCall.call] none) := by cbv
  exact ⟨hexpression, (callee_symbol_agrees_iff (s := MemberCall.config.source) (by decide) rfl (by decide) hexpression
    (.pair rfl .bare) rfl rfl (.inr rfl)).2 (by decide)⟩

namespace GlobalCall

/-- The call `::f(x)`, where `f` is declared nowhere. -/
def config : Configuration :=
  { tokens := #[{ text := "::", operand1 := some 1, next := some 1 },
      { text := "f", isName := true, previous := some 0, next := some 2 },
      { text := "(", operand1 := some 0, operand2 := some 3, link := some 4, previous := some 1, next := some 3 },
      { text := "x", isName := true, previous := some 2, next := some 4 },
      { text := ")", link := some 2, previous := some 3 }]
    tokenList := [0, 1, 2, 3, 4] }

/-- The callee, which has no symbol. -/
def callee : Expression :=
  .leaf { id := 1, kind := .member, op := "::", text := "f", stop := some {} }

end GlobalCall

/-- In `::f(x)` the library function `f` is looked up, while the callee has no symbol. -/
theorem global_call_symbols_differ :
    (GlobalCall.config.token 2).isCall = true ∧ (GlobalCall.config.token 2).operand1 = some 0 ∧
      GlobalCall.config.isCastKeyword 0 = false ∧
      (GlobalCall.config.source.expression (some 2)).result =
        .ok (.node { id := 2, kind := .call, stop := some {} } [.leaf { id := 0, kind := .ident, text := "x", stop := some {} }]
          (some GlobalCall.callee)) ∧
      GlobalCall.callee.kind = .member ∧ GlobalCall.callee.symbol = none ∧
      GlobalCall.config.calledSymbol (GlobalCall.config.token 2) = .ok (some (.ofLibraryFunction "f")) :=
  ⟨by decide, rfl, by decide, by cbv, rfl, rfl, by decide⟩

end FormatAudit
