import FormatAudit.Proofs.Composition
import FormatAudit.Proofs.Gaps
import Mathlib

/-!
# The depth limit

Below the depth limit a tree is cut off: what stands there becomes an opaque node, wherever it is, as an operand, a callee, a
selector or a branch. `Deepens` compares two expressions of one token, of which the second is made with more levels: they have the
same nodes, except that below an opaque node of the first anything may stand in the second. An opaque node is never constant and
never the name of a type, so a verdict that an expression is constant does not rest on one (`Deepens.constant`).

A tree without cycles can be followed to its end. `Unlimited` is the rule for a token without a limit; in such a tree exactly one
way to make expressions obeys it (`unlimited_iff`), the one with more levels than there are tokens.
-/

namespace FormatAudit

namespace Expression

/-- An expression is as deep as another one or deeper: the nodes agree in what a verdict looks at, except that an opaque node may
have been replaced by anything. -/
inductive Deepens : Expression → Expression → Prop where
  | cutOff {e e' : Expression} (hkind : e.kind = .unknown) : Deepens e e'
  | node {e e' : Expression} (hkind : e'.kind = e.kind) (hsymbol : e'.symbol = e.symbol)
      (hconversion : e.isConversion = true → e'.isConversion = true)
      (hoperands : List.Forall₂ Deepens e.operands e'.operands) : Deepens e e'

/-- An opaque node is not the name of a type. -/
theorem Deepens.isTypeReference {e e' : Expression} (h : Deepens e e') (htype : e.isTypeReference = true) :
    e'.isTypeReference = true := by
  cases h with
  | cutOff hkind => simp [Expression.isTypeReference, hkind] at htype
  | node hkind hsymbol _ _ => rwa [Expression.isTypeReference, hkind, hsymbol]

/-- The judged operands correspond, unless the first node is a call that judges nothing. -/
theorem forall₂_judgedOperands {R : Expression → Expression → Prop} {e e' : Expression} (hkind : e'.kind = e.kind)
    (hconversion : e.isConversion = true → e'.isConversion = true) (hoperands : List.Forall₂ R e.operands e'.operands)
    (hcall : e.kind = .call → e.judgedOperands ≠ []) : List.Forall₂ R e.judgedOperands e'.judgedOperands := by
  revert hcall
  unfold judgedOperands judgedPart
  rw [hkind]
  cases e.kind with
  | binary | paren | unary | deref | typeAssert | slice | keyValue => exact fun _ => hoperands
  | literal | ident | member | index | unknown => exact fun _ => .nil
  | conditional =>
    intro _
    rw [← List.drop_one, ← List.drop_one]
    exact List.forall₂_drop 1 hoperands
  | call =>
    intro hcall
    dsimp only at hcall ⊢
    rw [← hoperands.length_eq]
    split at hcall
    · rename_i hjudged
      have hjudged' := Bool.and_eq_true_iff.1 hjudged
      rw [if_pos hjudged, if_pos (Bool.and_eq_true_iff.2 ⟨hjudged'.1, hconversion hjudged'.2⟩)]
      exact hoperands
    · exact absurd rfl (hcall rfl)

/-- An expression that is constant stays so when opaque nodes are replaced. -/
theorem Deepens.constant {e e' : Expression} (h : Deepens e e') (hconstant : e.Constant) : e'.Constant := by
  induction e using judgedInduction generalizing e' with
  | step e ih =>
    obtain ⟨hleaf, hjudged⟩ := constant_iff.1 hconstant
    cases h with
    | cutOff hkind =>
      have hnil : e.judgedOperands = [] := by simp [judgedOperands, judgedPart, hkind]
      have hfixed := hleaf hnil
      simp [isFixedLeaf, hkind] at hfixed
    | node hkind hsymbol hconversion hoperands =>
      have hcall : e.kind = .call → e.judgedOperands ≠ [] := by
        intro hkind hnil
        have hfixed := hleaf hnil
        simp [isFixedLeaf, hkind] at hfixed
      have hcorrespond := forall₂_judgedOperands hkind hconversion hoperands hcall
      rw [constant_iff]
      constructor
      · intro hnil
        rw [hnil, List.forall₂_nil_right_iff] at hcorrespond
        have hfixed := hleaf hcorrespond
        rwa [isFixedLeaf, isConstantName, hkind, hsymbol]
      · intro m' hm'
        obtain ⟨i, hi, rfl⟩ := List.getElem_of_mem hm'
        have hi' : i < e.judgedOperands.length := hcorrespond.length_eq ▸ hi
        exact ih _ (List.getElem_mem hi') (hcorrespond.get hi' hi) (hjudged _ (List.getElem_mem hi'))

/-- Whether an expression is a conversion does not depend on its number. -/
theorem isConversion_numberFrom (e : Expression) (start : Nat) : (e.numberFrom start).1.isConversion = e.isConversion := by
  obtain ⟨info, operands, callee⟩ := e
  cases callee with
  | none => rfl
  | some f =>
    obtain ⟨info', operands', callee'⟩ := f
    rfl

mutual

/-- Numbering changes nothing that a verdict looks at. -/
theorem deepens_numberFrom (start : Nat) : (e : Expression) →
    Deepens e (e.numberFrom start).1 ∧ Deepens (e.numberFrom start).1 e
  | .node info operands callee => by
    have hconversion := isConversion_numberFrom (.node info operands callee) start
    obtain ⟨hthere, hback⟩ := deepens_numberList start operands
    exact ⟨.node rfl rfl (fun h => hconversion.trans h) hthere, .node rfl rfl (fun h => hconversion.symm.trans h) hback⟩

/-- Numbered expressions agree with the expressions in both directions. -/
theorem deepens_numberList (start : Nat) : (es : List Expression) →
    List.Forall₂ Deepens es (numberList start es).1 ∧ List.Forall₂ Deepens (numberList start es).1 es
  | [] => ⟨.nil, .nil⟩
  | e :: es => by
    obtain ⟨hthere, hback⟩ := deepens_numberFrom start e
    obtain ⟨hrest, hrestBack⟩ := deepens_numberList (e.numberFrom start).2 es
    exact ⟨.cons hthere hrest, .cons hback hrestBack⟩

end

/-- An expression is judged constant. -/
def JudgedConstant (e : Expression) : Prop :=
  ∃ culprits, (e.judgeLogged render {}).result = .ok (true, culprits)

/-- For a composed expression, being judged constant is being constant. -/
theorem judgedConstant_iff {e : Expression} (h : e.Composed) : e.JudgedConstant ↔ e.Constant := by
  have hjudge := judgeLogged_result render_of_unknown e {}
  rw [← judge_verdict h {}, JudgedConstant, hjudge]
  constructor
  · rintro ⟨culprits, hpair⟩
    rw [Except.ok.inj hpair]
  · intro hverdict
    exact ⟨(e.judge {}).2, by rw [← hverdict]⟩

/-- Numbering does not make an expression constant or take that from it. -/
theorem constant_numbered (e : Expression) : e.numbered.Constant ↔ e.Constant :=
  ⟨(deepens_numberFrom 0 e).2.constant, (deepens_numberFrom 0 e).1.constant⟩

end Expression

namespace Source

open Expression

variable {s : Source} {below below' : Below (Logged Fault)} {e e' : Expression}

/-- Of two ways to make the expressions below a token, the second goes at least as deep. -/
def DeepensBelow (below below' : Below (Logged Fault)) : Prop :=
  ∀ t e e', (below t).result = .ok e → (below' t).result = .ok e' → Deepens e e'

/-- Parentheses do not depend on what they enclose. -/
theorem deepens_enclose {count : Nat} {before after : Option TokenId} {x x' : Expression} (hx : Deepens x x')
    (h : (s.enclose count before after x : Logged Fault Expression).result = .ok e)
    (h' : (s.enclose count before after x' : Logged Fault Expression).result = .ok e') : Deepens e e' := by
  fun_induction enclose (m := Logged Fault) s count before after x generalizing x' with
  | case1 count before after x hgroup ih =>
    rw [enclose, if_pos hgroup] at h'
    simp only [Logged.bind_result_eq_ok, make_eq, pure_bind] at h h'
    obtain ⟨location, hlocation, stop, hstop, h⟩ := h
    obtain ⟨location', hlocation', stop', hstop', h'⟩ := h'
    obtain rfl := Except.ok.inj (hlocation.symm.trans hlocation')
    obtain rfl := Except.ok.inj (hstop.symm.trans hstop')
    refine ih _ ?_ h h'
    exact .node rfl rfl (fun hconversion => hconversion) (.cons hx .nil)
  | case2 count before after x hgroup =>
    rw [enclose, if_neg hgroup] at h'
    cases h
    cases h'
    exact hx
  | case3 count before after x hnone =>
    rw [enclose] at h'
    · cases h
      cases h'
      exact hx
    · exact hnone

/-- Expressions that are made one by one deepen one by one. -/
theorem deepens_mapList {α : Type} {f : α → Option TokenId} (hbelow : DeepensBelow below below') {as : List α}
    {es es' : List Expression} (h : (mapList (fun a => below (f a)) as).result = .ok es)
    (h' : (mapList (fun a => below' (f a)) as).result = .ok es') : List.Forall₂ Deepens es es' := by
  induction as generalizing es es' with
  | nil =>
    cases h
    cases h'
    exact .nil
  | cons a as ih =>
    simp only [mapList, Logged.bind_result_eq_ok, Logged.result_pure, Except.ok.injEq] at h h'
    obtain ⟨e, he, es, hes, rfl⟩ := h
    obtain ⟨e', he', es', hes', rfl⟩ := h'
    exact .cons (hbelow _ _ _ he he') (ih hes hes')

/-- A pair deepens if its operands do. -/
theorem deepens_ofPair (hbelow : DeepensBelow below below') {n : Node} {left right : Option TokenId}
    (h : (ofPair below n left right).result = .ok e) (h' : (ofPair below' n left right).result = .ok e') : Deepens e e' := by
  simp only [ofPair, make_eq, Logged.bind_result_eq_ok, Logged.result_pure, Except.ok.injEq] at h h'
  obtain ⟨l, hl, r, hr, rfl⟩ := h
  obtain ⟨l', hl', r', hr', rfl⟩ := h'
  exact .node rfl rfl (fun hconversion => hconversion) (.cons (hbelow _ _ _ hl hl') (.cons (hbelow _ _ _ hr hr') .nil))

/-- A cast deepens if what it converts does. -/
theorem deepens_ofCast (hbelow : DeepensBelow below below') {t : Token} {location stop : Location}
    (h : (s.ofCast below t location stop).result = .ok e) (h' : (s.ofCast below' t location stop).result = .ok e') :
    Deepens e e' := by
  simp only [ofCast, make_eq, pure_bind, Logged.bind_result_eq_ok, Logged.result_pure, Except.ok.injEq] at h h'
  obtain ⟨_, -, operand, hoperand, rfl⟩ := h
  obtain ⟨_, -, operand', hoperand', rfl⟩ := h'
  exact .node rfl rfl (fun _ => rfl) (.cons (hbelow _ _ _ hoperand hoperand') .nil)

/-- A callee that is the name of a type is one at every greater depth. -/
theorem isTypeReference_calleeOf (hbelow : DeepensBelow below below') {fn : TokenId}
    (h : (s.calleeOf below fn).result = .ok e) (h' : (s.calleeOf below' fn).result = .ok e')
    (htype : e.isTypeReference = true) : e'.isTypeReference = true := by
  unfold calleeOf at h h'
  dsimp only at h h'
  split at h
  · -- a name is looked up without going down
    rename_i hname
    rw [if_pos hname] at h'
    obtain rfl := Except.ok.inj (h.symm.trans h')
    exact htype
  · rename_i hname
    rw [if_neg hname] at h'
    obtain ⟨callee, hcallee, h⟩ := Logged.bind_result_eq_ok.1 h
    obtain ⟨callee', hcallee', h'⟩ := Logged.bind_result_eq_ok.1 h'
    have hdeepens := hbelow _ _ _ hcallee hcallee'
    cases hdeepens with
    | cutOff hkind =>
      rw [if_neg (by simp [hkind])] at h
      cases h
      simp [isTypeReference, hkind] at htype
    | node hkind hsymbol hconversion hoperands =>
      rw [hkind, hsymbol] at h'
      split at h
      · rename_i hmember
        rw [if_pos hmember] at h'
        obtain ⟨symbol, hresolve, h⟩ := Logged.bind_result_eq_ok.1 h
        obtain ⟨symbol', hresolve', h'⟩ := Logged.bind_result_eq_ok.1 h'
        obtain rfl := Except.ok.inj (hresolve.symm.trans hresolve')
        cases h
        cases h'
        obtain ⟨info, operands, f⟩ := callee
        obtain ⟨info', operands', f'⟩ := callee'
        have hkind : info'.kind = info.kind := hkind
        simp only [isTypeReference, mapInfo, Expression.kind, Expression.symbol, Expression.info, hkind] at htype ⊢
        exact htype
      · rename_i hmember
        rw [if_neg hmember] at h'
        cases h
        cases h'
        exact (Deepens.node hkind hsymbol hconversion hoperands).isTypeReference htype

/-- A call deepens if its arguments and its callee do. -/
theorem deepens_ofCall (hbelow : DeepensBelow below below') {t : Token} {fn : TokenId} {location stop : Location}
    (h : (s.ofCall below t fn location stop).result = .ok e) (h' : (s.ofCall below' t fn location stop).result = .ok e') :
    Deepens e e' := by
  unfold ofCall at h h'
  obtain ⟨arguments, harguments, h⟩ := Logged.bind_result_eq_ok.1 h
  obtain ⟨arguments', harguments', h'⟩ := Logged.bind_result_eq_ok.1 h'
  have hoperands : List.Forall₂ Deepens arguments arguments' := deepens_mapList hbelow harguments harguments'
  dsimp only at h h'
  rw [← hoperands.length_eq] at h'
  split at h
  · rename_i hkeyword
    rw [if_pos hkeyword] at h'
    split at h
    · rename_i hchecked
      rw [if_pos hchecked] at h'
      cases h
      cases h'
      exact .node rfl rfl (fun hconversion => hconversion) hoperands
    · rename_i hchecked
      rw [if_neg hchecked] at h'
      obtain ⟨_, -, h⟩ := Logged.bind_result_eq_ok.1 h
      obtain ⟨_, -, h'⟩ := Logged.bind_result_eq_ok.1 h'
      cases h
      cases h'
      exact .node rfl rfl (fun _ => rfl) hoperands
  · rename_i hkeyword
    rw [if_neg hkeyword] at h'
    obtain ⟨callee, hcallee, h⟩ := Logged.bind_result_eq_ok.1 h
    obtain ⟨callee', hcallee', h'⟩ := Logged.bind_result_eq_ok.1 h'
    cases h
    cases h'
    exact .node rfl rfl (isTypeReference_calleeOf hbelow hcallee hcallee') hoperands

/-- A member access deepens if its object does. -/
theorem deepens_ofMember (hbelow : DeepensBelow below below') {t : Token} {name : TokenId} {n : Node}
    (h : (s.ofMember below t name n).result = .ok e) (h' : (s.ofMember below' t name n).result = .ok e') : Deepens e e' := by
  obtain ⟨operands, symbol, hoperands, hsymbol, rfl⟩ := ofMember_eq_ok_iff.1 h
  obtain ⟨operands', symbol', hoperands', hsymbol', rfl⟩ := ofMember_eq_ok_iff.1 h'
  obtain rfl := Except.ok.inj (hsymbol.symm.trans hsymbol')
  exact .node rfl rfl (fun hconversion => hconversion) (deepens_mapList hbelow hoperands hoperands')

/-- A unary operation deepens if its operand does. -/
theorem deepens_ofUnary (hbelow : DeepensBelow below below') {t operand : TokenId} {n : Node}
    (h : (s.ofUnary below t operand n).result = .ok e) (h' : (s.ofUnary below' t operand n).result = .ok e') :
    Deepens e e' := by
  unfold ofUnary at h h'
  obtain ⟨inner, hinner, h⟩ := Logged.bind_result_eq_ok.1 h
  obtain ⟨inner', hinner', h'⟩ := Logged.bind_result_eq_ok.1 h'
  have hoperands : List.Forall₂ Deepens [inner] [inner'] := .cons (hbelow _ _ _ hinner hinner') .nil
  split at h
  · rename_i hstar
    rw [if_pos hstar] at h'
    cases h
    cases h'
    exact .node rfl rfl (fun hconversion => hconversion) hoperands
  · rename_i hstar
    rw [if_neg hstar] at h'
    obtain ⟨_, -, h⟩ := Logged.bind_result_eq_ok.1 h
    obtain ⟨_, -, h⟩ := Logged.bind_result_eq_ok.1 h
    obtain ⟨_, -, h'⟩ := Logged.bind_result_eq_ok.1 h'
    obtain ⟨_, -, h'⟩ := Logged.bind_result_eq_ok.1 h'
    cases h
    cases h'
    exact .node rfl rfl (fun hconversion => hconversion) hoperands

/-- The node of each form is at least as deep if the expressions below it are. -/
theorem deepens_ofForm (hbelow : DeepensBelow below below') {t : TokenId} {x : Extent} {location stop : Location} {form : Form}
    (h : (s.ofForm below t x location stop form).result = .ok e)
    (h' : (s.ofForm below' t x location stop form).result = .ok e') : Deepens e e' := by
  cases form with
  | literal =>
    cases h
    cases h'
    exact .node rfl rfl (fun hconversion => hconversion) .nil
  | name =>
    obtain ⟨symbol, hsymbol, h⟩ := Logged.bind_result_eq_ok.1 h
    obtain ⟨symbol', hsymbol', h'⟩ := Logged.bind_result_eq_ok.1 h'
    obtain rfl := Except.ok.inj (hsymbol.symm.trans hsymbol')
    cases h
    cases h'
    exact .node rfl rfl (fun hconversion => hconversion) .nil
  | cast => exact deepens_ofCast hbelow h h'
  | call fn => exact deepens_ofCall hbelow h h'
  | subscript => exact deepens_ofPair hbelow h h'
  | member name => exact deepens_ofMember hbelow h h'
  | conditional =>
    simp only [ofForm, make_eq, Logged.bind_result_eq_ok, Logged.result_pure, Except.ok.injEq] at h h'
    obtain ⟨selector, hselector, first, hfirst, second, hsecond, rfl⟩ := h
    obtain ⟨selector', hselector', first', hfirst', second', hsecond', rfl⟩ := h'
    exact .node rfl rfl (fun hconversion => hconversion) (.cons (hbelow _ _ _ hselector hselector')
      (.cons (hbelow _ _ _ hfirst hfirst') (.cons (hbelow _ _ _ hsecond hsecond') .nil)))
  | unary operand => exact deepens_ofUnary hbelow h h'
  | binary left right => exact deepens_ofPair hbelow h h'
  | unmodelled => exact .cutOff (List.mem_singleton.1 (kind_mem_kinds h))

/-- One level more goes at least as deep if what is below it does. -/
theorem deepens_level (hbelow : DeepensBelow below below') {t : TokenId} (h : (s.level below t).result = .ok e)
    (h' : (s.level below' t).result = .ok e') : Deepens e e' := by
  obtain ⟨x, location, stop, node, hx, hlocation, hstop, hnode, h⟩ := level_eq_ok_iff.1 h
  obtain ⟨x', location', stop', node', hx', hlocation', hstop', hnode', h'⟩ := level_eq_ok_iff.1 h'
  obtain rfl := Except.ok.inj (hx.symm.trans hx')
  obtain rfl := Except.ok.inj (hlocation.symm.trans hlocation')
  obtain rfl := Except.ok.inj (hstop.symm.trans hstop')
  exact deepens_enclose (deepens_ofForm hbelow hnode hnode') h h'

/-- Where no level is left there is an opaque node, in the parentheses around the extent of the token. -/
theorem ofTokenWithin_zero_eq_ok {t : Option TokenId} (h : (s.treeWithin 0 t).result = .ok e) :
    ∃ x node, s.extent t = .ok x ∧ node.kind = .unknown ∧ (s.inParens x node : Logged Fault Expression).result = .ok e := by
  simp only [treeWithin, ofTokenWithin, opaqueNode, make_eq, Logged.bind_result_eq_ok, Logged.result_liftM, Logged.result_pure,
    Except.ok.injEq] at h
  obtain ⟨x, hx, _, -, _, -, node, ⟨_, -, _, -, rfl⟩, h⟩ := h
  exact ⟨x, _, hx, rfl, h⟩

/-- With more levels an expression is at least as deep. -/
theorem deepens_ofTokenWithin {m n : Nat} (h : m ≤ n) : DeepensBelow (s.treeWithin m) (s.treeWithin n) := by
  induction m generalizing n with
  | zero =>
    intro t e e' he he'
    obtain ⟨x, node, hx, hkind, hcut⟩ := ofTokenWithin_zero_eq_ok he
    cases n with
    | zero =>
      obtain ⟨x', node', hx', -, hcut'⟩ := ofTokenWithin_zero_eq_ok he'
      obtain rfl := Except.ok.inj (hx.symm.trans hx')
      exact deepens_enclose (.cutOff hkind) hcut hcut'
    | succ n =>
      cases t with
      | none => cases he'
      | some t =>
        obtain ⟨x', _, _, node', hx', -, -, -, hnode'⟩ := ofTokenWithin_succ_eq_ok_iff.1 he'
        obtain rfl := Except.ok.inj (hx.symm.trans hx')
        exact deepens_enclose (.cutOff hkind) hcut hnode'
  | succ m ih =>
    intro t e e' he he'
    obtain ⟨n, rfl⟩ : ∃ n', n = n' + 1 := ⟨n - 1, by omega⟩
    cases t with
    | none => cases he
    | some t => exact deepens_level (ih (by omega)) he he'

end Source

/-! ## Trees without cycles -/

namespace Configuration

variable {c : Configuration} {t o : TokenId}

/-- No token is reachable from itself through operands. -/
def Acyclic (c : Configuration) : Prop :=
  ∀ t, ¬Relation.TransGen c.HasOperand t t

/-- A token past the end of the table has no operands. -/
theorem lt_size_of_hasOperand (h : c.HasOperand t o) : t < c.tokens.size := by
  by_contra hsize
  unfold HasOperand at h
  rw [token_of_size_le (Nat.le_of_not_lt hsize)] at h
  rcases h with h | h
  · cases h
  · cases h

/-- A tree in which every operand stands further on in the table has no cycles. -/
theorem acyclic_of_rising (h : ∀ t < c.tokens.size, ∀ u ∈ operandStack (c.token t), t < u) : c.Acyclic := by
  have hlt : ∀ t u, c.HasOperand t u → t < u :=
    fun t u hu => h t (lt_size_of_hasOperand hu) u (mem_operandStack.2 hu)
  intro t ht
  have hpath : ∀ u, Relation.TransGen c.HasOperand t u → t < u := by
    intro u hu
    induction hu with
    | single hu => exact hlt _ _ hu
    | tail _ hu ih => exact ih.trans (hlt _ _ hu)
  exact Nat.lt_irrefl t (hpath t ht)

/-- What is called is the first operand of the call. -/
theorem operand1_of_formOf_eq_call {fn : TokenId} (h : c.formOf t = .call fn) : (c.token t).operand1 = some fn := by
  revert h
  fun_cases formOf c t
  all_goals grind

/-- The operand of a unary operation is its first operand. -/
theorem operand1_of_formOf_eq_unary {operand : TokenId} (h : c.formOf t = .unary operand) :
    (c.token t).operand1 = some operand := by
  revert h
  fun_cases formOf c t
  all_goals grind

/-- The operands of a binary operation are its first and its second. -/
theorem operands_of_formOf_eq_binary {left right : TokenId} (h : c.formOf t = .binary left right) :
    (c.token t).operand1 = some left ∧ (c.token t).operand2 = some right := by
  revert h
  fun_cases formOf c t
  all_goals grind

/-- What is collected below tokens that are reachable is reachable. -/
theorem transGen_of_mem_collectArguments {pending : List (Nat × Option TokenId)} {found : List TokenId}
    (hpending : ∀ p ∈ pending, ∀ u ∈ p.2, Relation.TransGen c.HasOperand t u)
    (hfound : ∀ u ∈ found, Relation.TransGen c.HasOperand t u) :
    ∀ u ∈ c.collectArguments pending found, Relation.TransGen c.HasOperand t u := by
  fun_induction collectArguments c pending found with
  | case1 found => simpa using hfound
  | case2 found _ rest ih => exact ih (List.forall_mem_cons.1 hpending).2 hfound
  | case3 found u rest ih =>
    obtain ⟨hu, hrest⟩ := List.forall_mem_cons.1 hpending
    refine ih hrest ?_
    split
    · exact hfound
    · exact List.forall_mem_cons.2 ⟨hu u rfl, hfound⟩
  | case4 found allowance u rest hcomma ih =>
    obtain ⟨hu, hrest⟩ := List.forall_mem_cons.1 hpending
    refine ih ?_ hfound
    refine List.forall_mem_cons.2 ⟨fun v hv => ?_, List.forall_mem_cons.2 ⟨fun v hv => ?_, hrest⟩⟩
    · exact (hu u rfl).tail (Or.inl hv)
    · exact (hu u rfl).tail (Or.inr hv)
  | case5 found allowance u rest hcomma ih =>
    obtain ⟨hu, hrest⟩ := List.forall_mem_cons.1 hpending
    exact ih hrest (List.forall_mem_cons.2 ⟨hu u rfl, hfound⟩)

/-- The arguments of a call are below it. -/
theorem transGen_of_mem_callArguments (h : o ∈ c.callArguments (c.token t)) : Relation.TransGen c.HasOperand t o := by
  unfold callArguments at h
  split at h
  · refine transGen_of_mem_collectArguments ?_ (by simp) o h
    simp only [List.mem_singleton, forall_eq]
    exact fun u hu => .single (Or.inr hu)
  · cases h

/-- What the node of a token is made from stands below the token. -/
theorem transGen_of_mem_followed (h : some o ∈ c.followed t) : Relation.TransGen c.HasOperand t o := by
  unfold followed at h
  cases hform : c.formOf t with
  | literal | name | unmodelled => simp [hform] at h
  | cast =>
    simp only [hform, List.mem_singleton] at h
    exact .single (Or.inl h.symm)
  | call fn =>
    simp only [hform, List.mem_append, List.mem_map, Option.some.injEq, exists_eq_right] at h
    rcases h with h | h
    · exact transGen_of_mem_callArguments h
    · split at h
      · cases h
      · obtain rfl := Option.some.inj (List.mem_singleton.1 h)
        exact .single (Or.inl (operand1_of_formOf_eq_call hform))
  | subscript =>
    simp only [hform, List.mem_cons, List.not_mem_nil, or_false] at h
    exact .single (h.imp Eq.symm Eq.symm)
  | member name =>
    simp only [hform] at h
    split at h
    · simp only [List.mem_map, Option.mem_toList, Option.some.injEq, exists_eq_right] at h
      exact .single (Or.inl h)
    · cases h
  | conditional =>
    simp only [hform, List.mem_cons, List.not_mem_nil, or_false] at h
    rcases h with h | h
    · exact .single (Or.inl h.symm)
    · cases hbranches : (c.token t).operand2 with
      | none =>
        rw [hbranches, look_none] at h
        rcases h with h | h
        · cases h
        · cases h
      | some b =>
        rw [hbranches, look_some] at h
        exact .tail (.single (Or.inr hbranches)) (h.imp Eq.symm Eq.symm)
  | unary operand =>
    simp only [hform, List.mem_singleton, Option.some.injEq] at h
    subst h
    exact .single (Or.inl (operand1_of_formOf_eq_unary hform))
  | binary left right =>
    obtain ⟨hleft, hright⟩ := operands_of_formOf_eq_binary hform
    simp only [hform, List.mem_cons, List.not_mem_nil, or_false, Option.some.injEq] at h
    rcases h with rfl | rfl
    · exact .single (Or.inl hleft)
    · exact .single (Or.inr hright)

/-- The tokens of a tree without cycles have ranks that are at most the size of the table and fall on the way down. The rank of a
token counts the tokens of the table that are reachable from it. -/
theorem Acyclic.exists_rank (h : c.Acyclic) :
    ∃ rank : TokenId → Nat, (∀ t, rank t ≤ c.tokens.size) ∧ ∀ t o, some o ∈ c.followed t → rank o < rank t := by
  classical
  refine ⟨fun t => ((Finset.range c.tokens.size).filter (c.Reachable t)).card, fun t => ?_, fun t o ho => ?_⟩
  · exact (Finset.card_filter_le _ _).trans (Finset.card_range _).le
  · have hbelow := transGen_of_mem_followed ho
    refine Finset.card_lt_card (Finset.ssubset_iff_of_subset ?_ |>.2 ⟨t, ?_, ?_⟩)
    · intro u hu
      rw [Finset.mem_filter] at hu ⊢
      exact ⟨hu.1, hbelow.to_reflTransGen.trans hu.2⟩
    · rw [Finset.mem_filter, Finset.mem_range]
      obtain ⟨u, hu, -⟩ := Relation.TransGen.head'_iff.1 hbelow
      exact ⟨lt_size_of_hasOperand hu, Relation.ReflTransGen.refl⟩
    · rw [Finset.mem_filter]
      rintro ⟨-, hback⟩
      exact h t (hbelow.trans_left hback)

end Configuration

namespace Source

open Expression

variable {s : Source}

/-- A way to make expressions follows every tree to its end: for each token it is the rule for that token, with itself below. -/
def Unlimited (s : Source) (lower : Below Numbering) : Prop :=
  lower none = liftM (.error .nothingToSpan : Except Fault Expression) ∧ ∀ t, lower (some t) = s.level lower t

section Congruence

variable {m : Type → Type} [Monad m] {below below' : Below m}

/-- Items are made alike if the levels below agree on them. -/
theorem mapList_congr {as : List TokenId} (h : ∀ a ∈ as, below (some a) = below' (some a)) :
    mapList (fun a => below (some a)) as = mapList (fun a => below' (some a)) as := by
  induction as with
  | nil => rfl
  | cons a as ih =>
    obtain ⟨ha, has⟩ := List.forall_mem_cons.1 h
    simp only [mapList, ha, ih has]

variable [MonadLiftT (Except Fault) m] [Making m]

/-- A callee is made alike if the levels below agree on it, unless it is a name. -/
theorem calleeOf_congr {fn : TokenId} (h : (s.config.token fn).isName = false → below (some fn) = below' (some fn)) :
    s.calleeOf below fn = s.calleeOf below' fn := by
  unfold calleeOf
  dsimp only
  cases hname : (s.config.token fn).isName with
  | true => rfl
  | false => rw [h hname]

/-- The node of a token depends on what is made of the places that it follows, and on nothing else below. -/
theorem ofForm_congr {t : TokenId} {e : Extent} {location stop : Location}
    (h : ∀ o ∈ s.config.followed t, below o = below' o) :
    s.ofForm below t e location stop (s.config.formOf t) = s.ofForm below' t e location stop (s.config.formOf t) := by
  unfold Configuration.followed at h
  cases hform : s.config.formOf t with
  | literal | name | unmodelled => rfl
  | cast =>
    simp only [hform, List.mem_singleton, forall_eq] at h
    simp only [ofForm, ofCast, h]
  | call fn =>
    simp only [hform, List.mem_append, List.mem_map, or_imp, forall_and, forall_exists_index, and_imp, forall_apply_eq_imp_iff₂]
      at h
    have hcallee : s.config.isCastKeyword fn = false → s.calleeOf below fn = s.calleeOf below' fn :=
      fun hkeyword => calleeOf_congr (fun hname => h.2 _ (by simp [hkeyword, hname]))
    simp only [ofForm, ofCall, mapList_congr h.1]
    congr 1
    funext arguments
    split
    · rfl
    · rw [hcallee (Bool.eq_false_iff.2 ‹_›)]
  | subscript =>
    simp only [hform, List.mem_cons, List.not_mem_nil, or_false, forall_eq_or_imp, forall_eq] at h
    simp only [ofForm, ofPair, h]
  | member name =>
    simp only [hform] at h
    simp only [ofForm, ofMember]
    split
    · rename_i o hobject
      rw [h (some o) ?_]
      split at hobject
      · rename_i hname
        rw [if_pos hname, hobject]
        exact List.mem_singleton.2 rfl
      · cases hobject
    · rfl
  | conditional =>
    simp only [hform, List.mem_cons, List.not_mem_nil, or_false, forall_eq_or_imp, forall_eq] at h
    simp only [ofForm, h]
  | unary operand =>
    simp only [hform, List.mem_singleton, forall_eq] at h
    simp only [ofForm, ofUnary, h]
  | binary left right =>
    simp only [hform, List.mem_cons, List.not_mem_nil, or_false, forall_eq_or_imp, forall_eq] at h
    simp only [ofForm, ofPair, h]

/-- A level depends on the levels below only at the operands that it follows. -/
theorem level_congr {t : TokenId} (h : ∀ o ∈ s.config.followed t, below o = below' o) :
    s.level below t = s.level below' t := by
  unfold level
  simp only [ofTokenNode_eq, ofForm_congr h]

end Congruence

/-- A missing token is a fault at every depth. -/
theorem ofTokenWithin_none (s : Source) (steps : Nat) :
    s.ofTokenWithin (m := Numbering) steps none = liftM (.error .nothingToSpan : Except Fault Expression) := by
  cases steps with
  | zero => rfl
  | succ steps => rfl

section Ranked

variable {rank : TokenId → Nat} (hrank : ∀ t o, some o ∈ s.config.followed t → rank o < rank t)

include hrank

/-- With more levels than the rank of a token, the number of levels does not matter. -/
theorem ofTokenWithin_eq_of_lt {m n : Nat} {t : TokenId} (hm : rank t < m) (hn : rank t < n) :
    s.ofTokenWithin (m := Numbering) m (some t) = s.ofTokenWithin n (some t) := by
  induction m generalizing n t with
  | zero => omega
  | succ m ih =>
    obtain ⟨n, rfl⟩ : ∃ n', n = n' + 1 := ⟨n - 1, by omega⟩
    rw [ofTokenWithin_succ, ofTokenWithin_succ]
    refine level_congr (fun o ho => ?_)
    cases o with
    | none => rw [ofTokenWithin_none, ofTokenWithin_none]
    | some o =>
      have := hrank t o ho
      exact ih (by omega) (by omega)

/-- With more levels than the rank of a token, its expression is that of every way that follows trees to their end. -/
theorem Unlimited.eq_ofTokenWithin {lower : Below Numbering} (h : s.Unlimited lower) {n : Nat} {t : TokenId} (hn : rank t < n) :
    lower (some t) = s.ofTokenWithin n (some t) := by
  induction n generalizing t with
  | zero => omega
  | succ n ih =>
    rw [ofTokenWithin_succ, h.2 t]
    refine level_congr (fun o ho => ?_)
    cases o with
    | none => rw [h.1, ofTokenWithin_none]
    | some o =>
      have := hrank t o ho
      exact ih (by omega)

end Ranked

/-- In a tree without cycles there is one way to follow it to its end: with more levels than there are tokens. -/
theorem unlimited_iff (hacyclic : s.config.Acyclic) {lower : Below Numbering} {n : Nat} (hn : s.config.tokens.size < n) :
    s.Unlimited lower ↔ lower = s.ofTokenWithin n := by
  obtain ⟨rank, hsize, hrank⟩ := hacyclic.exists_rank
  have hlt : ∀ t, rank t < n := fun t => (hsize t).trans_lt hn
  constructor
  · intro h
    funext t
    cases t with
    | none => rw [h.1, ofTokenWithin_none]
    | some t => exact h.eq_ofTokenWithin hrank (hlt t)
  · rintro rfl
    refine ⟨ofTokenWithin_none s n, fun t => ?_⟩
    rw [← ofTokenWithin_succ]
    exact ofTokenWithin_eq_of_lt hrank (hlt t) ((hlt t).trans (Nat.lt_succ_self n))

/-- The expression that a way to make expressions gives for a token, its nodes numbered from zero on. -/
def expressionBy (lower : Below Numbering) (t : Option TokenId) : Logged Fault Expression := do
  let (e, _) ← (lower t).run 0
  pure e

/-- The expression of a token, cut off below a given depth. -/
def expressionWithin (s : Source) (limit : Nat) : Option TokenId → Logged Fault Expression :=
  expressionBy (s.ofTokenWithin (limit + 1))

/-- What is made with some levels is the tree of the token with its nodes numbered. -/
theorem expressionBy_ofTokenWithin_eq_ok_iff {steps : Nat} {t : Option TokenId} {e : Expression} :
    (expressionBy (s.ofTokenWithin steps) t).result = .ok e ↔ ∃ x, (s.treeWithin steps t).result = .ok x ∧ e = x.numbered := by
  rw [expressionBy, numbers_ofTokenWithin, bind_map_left]
  simp only [Logged.bind_result_eq_ok, Logged.result_pure, Except.ok.injEq, eq_comm (b := e)]
  rfl

/-- The numbered tree of a token can be judged. -/
theorem composed_numbered_ofTokenWithin {steps : Nat} {t : Option TokenId} {e : Expression}
    (h : (s.treeWithin steps t).result = .ok e) : e.numbered.Composed :=
  composed_of_formed ((everywhere_numberFrom formed_numberFrom 0 e).2 (formed_ofTokenWithin h))

/-- With more levels an expression that was judged constant is judged so again. -/
theorem judgedConstant_of_le {m n : Nat} (hmn : m ≤ n) {t : Option TokenId} {e e' : Expression}
    (he : (expressionBy (s.ofTokenWithin m) t).result = .ok e) (he' : (expressionBy (s.ofTokenWithin n) t).result = .ok e')
    (hconstant : e.JudgedConstant) : e'.JudgedConstant := by
  obtain ⟨x, hx, rfl⟩ := expressionBy_ofTokenWithin_eq_ok_iff.1 he
  obtain ⟨x', hx', rfl⟩ := expressionBy_ofTokenWithin_eq_ok_iff.1 he'
  rw [judgedConstant_iff (composed_numbered_ofTokenWithin hx), constant_numbered] at hconstant
  rw [judgedConstant_iff (composed_numbered_ofTokenWithin hx'), constant_numbered]
  exact (deepens_ofTokenWithin hmn t x x' hx hx').constant hconstant

/-- Following a tree further down never turns the verdict that an expression is constant into the opposite: neither under a higher
limit nor, in a tree without cycles, under none. There is exactly one way to follow such a tree to its end. -/
theorem constant_kept_below_limit (s : Source) (hacyclic : s.config.Acyclic) :
    (∀ limit limit', limit ≤ limit' → ∀ t e e', (s.expressionWithin limit t).result = .ok e →
      (s.expressionWithin limit' t).result = .ok e' → e.JudgedConstant → e'.JudgedConstant) ∧
    (∃! lower, s.Unlimited lower) ∧
    ∀ lower, s.Unlimited lower → ∀ t e e', (s.expression t).result = .ok e → (expressionBy lower t).result = .ok e' →
      e.JudgedConstant → e'.JudgedConstant := by
  refine ⟨?_, ?_, ?_⟩
  · intro limit limit' hlimit t e e' he he' hconstant
    exact judgedConstant_of_le (Nat.succ_le_succ hlimit) he he' hconstant
  · refine ⟨s.ofTokenWithin (s.config.tokens.size + 1), (unlimited_iff hacyclic (Nat.lt_succ_self _)).2 rfl, ?_⟩
    exact fun lower h => (unlimited_iff hacyclic (Nat.lt_succ_self _)).1 h
  · intro lower h t e e' he he' hconstant
    -- enough levels for the whole tree, and not fewer than under the limit
    have hn : s.config.tokens.size < s.config.tokens.size + depthLimit + 1 := by omega
    rw [(unlimited_iff hacyclic hn).1 h] at he'
    exact judgedConstant_of_le (by omega) he he' hconstant

namespace CutSelector

/-- The choice `!flag ? "a" : "b"`. -/
def config : Configuration :=
  { tokens := #[{ text := "?", operand1 := some 1, operand2 := some 3 }, { text := "!", operand1 := some 2 },
      { text := "flag", isName := true }, { text := ":", operand1 := some 4, operand2 := some 5 },
      { text := "\"a\"", isString := true }, { text := "\"b\"", isString := true }]
    tokenList := [1, 2, 0, 4, 3, 5] }

/-- The choice with what stands below its selector. -/
def choice (operand : Expression) : Expression :=
  .node { id := 4, kind := .conditional, stop := some {} }
    [.node { id := 1, kind := .unary, op := "!", stop := some {} } [operand] none,
     .leaf { id := 2, kind := .literal, text := "\"a\"", stop := some {} },
     .leaf { id := 3, kind := .literal, text := "\"b\"", stop := some {} }] none

/-- What stands below the selector: the opaque node of the first level that is cut off, or the name. -/
def flag (kind : Kind) : Expression :=
  .leaf { id := 0, kind, text := "flag", stop := some {} }

theorem acyclic : config.Acyclic :=
  Configuration.acyclic_of_rising (by decide)

end CutSelector

/-- The operand of the selector is cut off under the limit 1; the choice is constant there, and so it is without a limit. -/
theorem cut_selector_constant : CutSelector.config.Acyclic ∧
    (CutSelector.config.source.expressionWithin 1 (some 0)).result = .ok (CutSelector.choice (CutSelector.flag .unknown)) ∧
    (CutSelector.config.source.expressionWithin 2 (some 0)).result = .ok (CutSelector.choice (CutSelector.flag .ident)) ∧
    (CutSelector.choice (CutSelector.flag .unknown)).JudgedConstant ∧
    (CutSelector.choice (CutSelector.flag .ident)).JudgedConstant := by
  have hcut : (CutSelector.config.source.expressionWithin 1 (some 0)).result =
      .ok (CutSelector.choice (CutSelector.flag .unknown)) := by cbv
  have hwhole : (CutSelector.config.source.expressionWithin 2 (some 0)).result =
      .ok (CutSelector.choice (CutSelector.flag .ident)) := by cbv
  have hconstant : (CutSelector.choice (CutSelector.flag .unknown)).JudgedConstant := ⟨_, rfl⟩
  exact ⟨CutSelector.acyclic, hcut, hwhole, hconstant,
    (constant_kept_below_limit CutSelector.config.source CutSelector.acyclic).1 1 2 (by decide) _ _ _ hcut hwhole hconstant⟩

end Source

end FormatAudit
