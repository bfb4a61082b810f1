import FormatAudit.Proofs.Coverage
import FormatAudit.Proofs.Reporting

/-!
# Where an expression cannot be made

The expression of a token is made by following the tree: a node follows the operands that its form needs (`followed`). Whatever
a token and its neighbours look like, only two things stop it: an operand that is needed and missing, as in `a ?: b`
(`Incomplete`), and a name whose symbol cannot be read. An expression is made exactly if no token that is followed, down to the
depth limit, has such a gap (`Gapped`). A gap below a callee or below a format ends the examination of the whole configuration:
all its findings give way to one that tells of the failure.
-/

namespace FormatAudit

namespace Configuration

variable {c : Configuration} {t u : TokenId}

/-- The places below a token that its node is made from. -/
def followed (c : Configuration) (id : TokenId) : List (Option TokenId) :=
  match c.formOf id with
  | .cast => [(c.token id).operand1]
  | .call fn =>
    (c.callArguments (c.token id)).map some ++ if c.isCastKeyword fn || (c.token fn).isName then [] else [some fn]
  | .subscript => [(c.token id).operand1, (c.token id).operand2]
  | .member name => if (c.token id).operand2 = some name then (c.token id).operand1.toList.map some else []
  | .conditional =>
    [(c.token id).operand1, (c.look (c.token id).operand2).operand1, (c.look (c.token id).operand2).operand2]
  | .unary operand => [some operand]
  | .binary left right => [some left, some right]
  | .literal | .name | .unmodelled => []

/-- The names whose symbols the node of a token needs. -/
def namesAt (c : Configuration) (id : TokenId) : List TokenId :=
  match c.formOf id with
  | .name => [id]
  | .member name => [name]
  | .call fn => if !c.isCastKeyword fn && (c.token fn).isName then [fn] else []
  | _ => []

/-- A token lacks an operand that it needs: a cast without its operand, or a conditional without its selector or one of its
branches. -/
def Incomplete (c : Configuration) (id : TokenId) : Prop :=
  (c.token id).isLiteral = false ∧
    ((c.token id).text = "(" ∧ (c.token id).isCast = true ∧ (c.token id).operand1 = none ∧ (c.token id).operand2 ≠ none ∨
      (c.token id).text = "?" ∧ (c.look (c.token id).operand2).text = ":" ∧
        ((c.token id).operand1 = none ∨ (c.look (c.token id).operand2).operand1 = none ∨
          (c.look (c.token id).operand2).operand2 = none))

instance (c : Configuration) (id : TokenId) : Decidable (c.Incomplete id) :=
  inferInstanceAs (Decidable (_ ∧ (_ ∨ _)))

/-- A token is followed from another one in a number of steps. -/
inductive FollowedIn (c : Configuration) : Nat → TokenId → TokenId → Prop where
  | here {t : TokenId} : FollowedIn c 0 t t
  | step {n : Nat} {t o u : TokenId} : some o ∈ c.followed t → FollowedIn c n o u → FollowedIn c (n + 1) t u

/-- A token has all the operands and symbols that its node needs. -/
def Whole (c : Configuration) (t : TokenId) : Prop :=
  ¬c.Incomplete t ∧ ∀ name ∈ c.namesAt t, c.Resolvable name

/-- There is a gap below a token: one that is followed from it, down to the depth limit, is not whole. -/
def Gapped (c : Configuration) (t : TokenId) : Prop :=
  ∃ n u, n ≤ depthLimit ∧ c.FollowedIn n t u ∧ ¬c.Whole u

/-- A place that is followed is empty exactly if the token lacks an operand. -/
theorem none_mem_followed_iff : none ∈ c.followed t ↔ c.Incomplete t := by
  have hcast := formOf_eq_cast_iff (c := c) (t := t)
  have hconditional := formOf_eq_conditional_iff (c := c) (t := t)
  have hsubscript := operands_of_formOf_eq_subscript (c := c) (t := t)
  unfold followed Incomplete
  cases hform : c.formOf t with
  | _ => grind

/-- Whether a name can be resolved does not depend on whether it is called. -/
theorem resolve_isOk_of_isOk {name : Token} {symbol : Option Symbol} {called : Bool} (h : c.resolve name called = .ok symbol)
    (called' : Bool) : ∃ symbol', c.resolve name called' = .ok symbol' := by
  unfold resolve at h ⊢
  grind

end Configuration

namespace Logged

variable {ε α β : Type} {x : Logged ε α} {f : α → Logged ε β}

/-- A computation meets no fault. -/
def Succeeds (x : Logged ε α) : Prop :=
  ∃ a, x.result = .ok a

@[simp]
theorem succeeds_pure (a : α) : (pure a : Logged ε α).Succeeds :=
  ⟨a, rfl⟩

theorem succeeds_of_eq_ok {y : Except ε α} {a : α} (h : y = .ok a) : (liftM y : Logged ε α).Succeeds :=
  ⟨a, h⟩

/-- A sequence meets no fault exactly if its first part meets none and what is done with the result meets none. -/
theorem succeeds_bind_iff {P : Prop} (h : ∀ a, x.result = .ok a → ((f a).Succeeds ↔ P)) :
    (x >>= f).Succeeds ↔ x.Succeeds ∧ P := by
  constructor
  · rintro ⟨b, hb⟩
    obtain ⟨a, ha, hb⟩ := bind_result_eq_ok.1 hb
    exact ⟨⟨a, ha⟩, (h a ha).1 ⟨b, hb⟩⟩
  · rintro ⟨⟨a, ha⟩, hP⟩
    obtain ⟨b, hb⟩ := (h a ha).2 hP
    exact ⟨b, bind_result_eq_ok.2 ⟨a, ha, hb⟩⟩

/-- A mapped computation succeeds if the computation does. -/
theorem succeeds_map_iff {g : α → β} : (x >>= fun a => pure (g a)).Succeeds ↔ x.Succeeds := by
  rw [succeeds_bind_iff (P := True) (fun a _ => by simp), and_true]

/-- Making a node meets no fault. -/
theorem succeeds_make_iff {y : Logged Fault α} {n : α → Node} {operands : α → List Expression} {callee : α → Option Expression} :
    (y >>= fun a => make (n a) (operands a) (callee a)).Succeeds ↔ y.Succeeds :=
  succeeds_map_iff

/-- Items are all done exactly if each of them is. -/
theorem succeeds_mapList_iff {as : List α} : (mapList f as).Succeeds ↔ ∀ a ∈ as, (f a).Succeeds := by
  induction as with
  | nil => simp [mapList]
  | cons a as ih =>
    rw [mapList, succeeds_bind_iff fun b _ => succeeds_map_iff, ih, List.forall_mem_cons]

end Logged

open FormatAudit.Configuration Logged

namespace Source

variable {s : Source} {below : Below (Logged Fault)} {x : Expression}

section Located

variable (hloc : s.config.Located)
include hloc

/-- In a located configuration every token has a key. -/
theorem key_isOk (t : TokenId) : ∃ k, s.key t = .ok k := by
  obtain ⟨l, hl⟩ := hloc t
  simp only [Token.location, except_bind_eq_ok] at hl
  obtain ⟨line, hline, column, hcolumn, -⟩ := hl
  unfold key
  cases s.order.position? t with
  | some p => exact ⟨_, rfl⟩
  | none => exact ⟨.loose line column, by rw [hline, hcolumn]; rfl⟩

/-- Every token has an extent. -/
theorem extent_isOk (t : TokenId) : ∃ e, s.extent (some t) = .ok e := by
  obtain ⟨e, he, -⟩ := extent_eq_ok (s := s) t (fun u _ => key_isOk hloc u)
  exact ⟨e, he⟩

/-- An opaque node can always be made. -/
theorem succeeds_opaqueNode (e : Extent) : (s.opaqueNode e : Logged Fault Expression).Succeeds := by
  obtain ⟨l, hl⟩ := hloc e.first
  obtain ⟨l', hl'⟩ := hloc e.last
  exact ⟨_, by rw [opaqueNode, hl, hl']; rfl⟩

/-- An expression can always be put into parentheses. -/
theorem succeeds_enclose (count : Nat) (before after : Option TokenId) (x : Expression) :
    (s.enclose count before after x : Logged Fault Expression).Succeeds := by
  fun_induction enclose (m := Logged Fault) s count before after x with
  | case1 count before after x hgroup ih =>
    obtain ⟨l, hl⟩ := hloc before
    obtain ⟨l', hl'⟩ := hloc after
    rw [hl, hl']
    exact ih (.node { kind := .paren, location := l, stop := some l' } [x] none)
  | case2 count before after x hgroup => exact ⟨x, rfl⟩
  | case3 => exact ⟨_, rfl⟩

theorem succeeds_inParens (e : Extent) (x : Expression) : (s.inParens e x : Logged Fault Expression).Succeeds :=
  succeeds_enclose hloc _ _ _ x

/-- A token has a location, and a missing one the empty location. -/
theorem locationOrEmpty_isOk (t : Option TokenId) : ∃ l, s.locationOrEmpty t = .ok l := by
  cases t with
  | none => exact ⟨_, rfl⟩
  | some t => exact hloc t

end Located

/-- Parentheses change the kind of a node to `paren`, or leave the node as it is. -/
theorem enclose_cases {count : Nat} {before after : Option TokenId} {x y : Expression}
    (h : (s.enclose count before after x : Logged Fault Expression).result = .ok y) : y = x ∨ y.kind = .paren := by
  fun_induction enclose (m := Logged Fault) s count before after x with
  | case1 count before after x hgroup ih =>
    simp only [bind_result_eq_ok, make_eq, pure_bind] at h
    obtain ⟨l, -, l', -, h⟩ := h
    rcases ih _ h with rfl | hkind
    · exact Or.inr rfl
    · exact Or.inr hkind
  | case2 count before after x hgroup => exact Or.inl (Except.ok.inj h).symm
  | case3 => exact Or.inl (Except.ok.inj h).symm

/-- What is known of an expression below that is a member access without a symbol: the name on its right was resolved. -/
def NamesMembers (s : Source) (below : Below (Logged Fault)) : Prop :=
  ∀ fn x, (below (some fn)).result = .ok x → x.kind = .member → x.symbol = none →
    ∃ symbol, s.config.resolve (s.config.look (s.config.token fn).operand2) false = .ok symbol

/-- A member access is made of a token of that form only, and resolves its name. -/
theorem ofForm_member {t : TokenId} {e : Extent} {location stop : Location} {form : Form}
    (h : (s.ofForm below t e location stop form).result = .ok x) (hkind : x.kind = .member) :
    ∃ name, form = .member name ∧ s.config.resolve (s.config.token name) false = .ok x.symbol := by
  have hkinds := kind_mem_kinds h
  rw [hkind] at hkinds
  cases form with
  | member name =>
    obtain ⟨operands, symbol, -, hsymbol, rfl⟩ := ofMember_eq_ok_iff.1 h
    exact ⟨name, rfl, hsymbol⟩
  | _ => simp [Form.kinds] at hkinds

/-- A member access is made if its object is and its name can be resolved. -/
theorem succeeds_ofMember_iff {t : Token} {name : TokenId} {n : Node} : (s.ofMember below t name n).Succeeds ↔
    (∀ o ∈ if t.operand2 = some name then t.operand1.toList.map some else [], (below o).Succeeds) ∧
      s.config.Resolvable name := by
  rw [← succeeds_mapList_iff]
  constructor
  · rintro ⟨x, hx⟩
    obtain ⟨operands, symbol, hoperands, hsymbol, -⟩ := ofMember_eq_ok_iff.1 hx
    exact ⟨⟨operands, hoperands⟩, symbol, hsymbol⟩
  · rintro ⟨⟨operands, hoperands⟩, symbol, hsymbol⟩
    exact ⟨_, ofMember_eq_ok_iff.2 ⟨operands, symbol, hoperands, hsymbol, rfl⟩⟩

/-- A unary operation is made if its operand is. -/
theorem succeeds_ofUnary_iff (hloc : s.config.Located) {t operand : TokenId} {n : Node} :
    (s.ofUnary below t operand n).Succeeds ↔ (below (some operand)).Succeeds := by
  rw [ofUnary, succeeds_bind_iff (P := True), and_true]
  intro inner _
  rw [iff_true]
  split
  · exact succeeds_pure _
  · obtain ⟨k, hk⟩ := key_isOk hloc operand
    obtain ⟨k', hk'⟩ := key_isOk hloc t
    exact (succeeds_bind_iff fun _ _ => succeeds_make_iff).2 ⟨⟨k, hk⟩, k', hk'⟩

/-- A callee is made exactly if its name can be resolved or, where it is no name, if its expression can be made. -/
theorem succeeds_calleeOf_iff (hloc : s.config.Located) (hmembers : s.NamesMembers below) (fn : TokenId) :
    (s.calleeOf below fn).Succeeds ↔
      if (s.config.token fn).isName then s.config.Resolvable fn else (below (some fn)).Succeeds := by
  unfold calleeOf
  dsimp only
  split
  · rw [succeeds_bind_iff (P := True)]
    · rw [and_true]
      constructor
      · rintro ⟨symbol, hsymbol⟩
        exact resolve_isOk_of_isOk hsymbol false
      · rintro ⟨symbol, hsymbol⟩
        exact resolve_isOk_of_isOk hsymbol true
    · intro symbol _
      obtain ⟨l, hl⟩ := hloc fn
      obtain ⟨y, hy⟩ := succeeds_inParens hloc ⟨fn, fn⟩ (.ident (s.config.token fn).text symbol l)
      simp only [iff_true]
      exact ⟨y, bind_result_eq_ok.2 ⟨l, hl, hy⟩⟩
  · rw [succeeds_bind_iff (P := True), and_true]
    intro x hx
    rw [iff_true]
    split
    · rename_i hmember
      simp only [Bool.and_eq_true, decide_eq_true_eq, Option.isNone_iff_eq_none] at hmember
      obtain ⟨symbol, hsymbol⟩ := hmembers fn x hx hmember.1 hmember.2
      obtain ⟨symbol', hsymbol'⟩ := resolve_isOk_of_isOk hsymbol true
      exact succeeds_map_iff.2 ⟨symbol', hsymbol'⟩
    · exact succeeds_pure x

/-- A call is made exactly if its arguments are and, unless it is a cast by a keyword, its callee. -/
theorem succeeds_ofCall_iff (hloc : s.config.Located) (t : Token) (fn : TokenId) (location stop : Location) :
    (s.ofCall below t fn location stop).Succeeds ↔
      (∀ a ∈ s.config.callArguments t, (below (some a)).Succeeds) ∧
        (s.config.isCastKeyword fn = true ∨ (s.calleeOf below fn).Succeeds) := by
  rw [ofCall, succeeds_bind_iff, succeeds_mapList_iff]
  intro arguments _
  dsimp only
  split
  · rename_i hkeyword
    simp only [isCastKeyword, hkeyword, true_or, iff_true]
    split
    · exact succeeds_pure _
    · obtain ⟨l, hl⟩ := hloc fn
      exact succeeds_map_iff.2 ⟨l, hl⟩
  · rename_i hkeyword
    rw [succeeds_make_iff, isCastKeyword, or_iff_right hkeyword]

/-- The node of a token is made exactly if the expressions at all places that it follows can be made, and the names that it
needs can be resolved. -/
theorem succeeds_ofForm_iff (hloc : s.config.Located) (hmembers : s.NamesMembers below) (t : TokenId) (e : Extent)
    (location stop : Location) :
    (s.ofForm below t e location stop (s.config.formOf t)).Succeeds ↔
      (∀ o ∈ s.config.followed t, (below o).Succeeds) ∧ ∀ name ∈ s.config.namesAt t, s.config.Resolvable name := by
  unfold followed namesAt
  cases s.config.formOf t with
  | literal => simp [ofForm]
  | unmodelled => simp [ofForm, succeeds_opaqueNode hloc e]
  | name =>
    rw [ofForm, succeeds_make_iff]
    simp [Resolvable, Succeeds]
  | cast =>
    obtain ⟨l, hl⟩ := locationOrEmpty_isOk hloc (s.config.token t).next
    simp only [ofForm, ofCast, make_eq, pure_bind]
    rw [succeeds_bind_iff fun _ _ => succeeds_map_iff]
    simp [succeeds_of_eq_ok hl]
  | call fn =>
    rw [ofForm, succeeds_ofCall_iff hloc, succeeds_calleeOf_iff hloc hmembers]
    cases hkeyword : s.config.isCastKeyword fn <;> cases hname : (s.config.token fn).isName <;>
      simp [hkeyword, hname, or_imp, forall_and]
  | subscript =>
    rw [ofForm, ofPair, succeeds_bind_iff fun _ _ => succeeds_make_iff]
    simp
  | member name =>
    rw [ofForm, succeeds_ofMember_iff]
    simp
  | conditional =>
    rw [ofForm, succeeds_bind_iff fun _ _ => succeeds_bind_iff fun _ _ => succeeds_make_iff]
    simp
  | unary operand =>
    rw [ofForm, succeeds_ofUnary_iff hloc]
    simp
  | binary left right =>
    rw [ofForm, ofPair, succeeds_bind_iff fun _ _ => succeeds_make_iff]
    simp

/-- A member access that has no symbol names its member in the second operand, and that name was resolved. -/
theorem namesMembers_ofTokenWithin (s : Source) (steps : Nat) : s.NamesMembers (s.treeWithin steps) := by
  intro fn x hx hkind hsymbol
  cases steps with
  | zero =>
    simp only [treeWithin, ofTokenWithin, opaqueNode, bind_result_eq_ok, make_eq, result_pure, Except.ok.injEq] at hx
    obtain ⟨e, -, _, -, _, -, node, ⟨_, -, _, -, rfl⟩, hx⟩ := hx
    rcases enclose_cases hx with rfl | hparen
    · cases hkind
    · rw [hparen] at hkind
      cases hkind
  | succ steps =>
    obtain ⟨e, location, stop, node, -, -, -, hnode, hx⟩ := ofTokenWithin_succ_eq_ok_iff.1 hx
    rcases enclose_cases hx with rfl | hparen
    · obtain ⟨name, hform, hresolve⟩ := ofForm_member hnode hkind
      -- a leading scope operator has its name on the left, and nothing on the right
      rcases operand2_of_formOf_eq_member hform with hname | hnone
      · rw [hname]
        exact ⟨_, hresolve⟩
      · rw [hnone]
        exact ⟨none, rfl⟩
    · rw [hparen] at hkind
      cases hkind

/-- An expression with at least one level left is made exactly if the expressions that it follows are, and the names that it
needs can be resolved. -/
theorem succeeds_ofTokenWithin_succ_iff (hloc : s.config.Located) (steps : Nat) (t : TokenId) :
    (s.treeWithin (steps + 1) (some t)).Succeeds ↔
      (∀ o ∈ s.config.followed t, (s.treeWithin steps o).Succeeds) ∧
        ∀ name ∈ s.config.namesAt t, s.config.Resolvable name := by
  obtain ⟨e, he⟩ := extent_isOk hloc t
  obtain ⟨location, hlocation⟩ := hloc e.first
  obtain ⟨stop, hstop⟩ := hloc e.last
  rw [← succeeds_ofForm_iff hloc (namesMembers_ofTokenWithin s steps) t e location stop]
  constructor
  · rintro ⟨x, hx⟩
    obtain ⟨e', location', stop', node, he', hlocation', hstop', hnode, -⟩ := ofTokenWithin_succ_eq_ok_iff.1 hx
    obtain rfl := Except.ok.inj (he.symm.trans he')
    obtain rfl := Except.ok.inj (hlocation.symm.trans hlocation')
    obtain rfl := Except.ok.inj (hstop.symm.trans hstop')
    exact ⟨node, hnode⟩
  · rintro ⟨node, hnode⟩
    obtain ⟨x, hx⟩ := succeeds_inParens hloc e node
    exact ⟨x, ofTokenWithin_succ_eq_ok_iff.2 ⟨e, location, stop, node, he, hlocation, hstop, hnode, hx⟩⟩

/-- Nothing is made of a missing token. -/
theorem not_succeeds_ofTokenWithin_none (steps : Nat) : ¬(s.treeWithin steps none).Succeeds := by
  rintro ⟨x, hx⟩
  cases steps with
  | zero => cases hx
  | succ steps => cases hx

/-- At the limit a token is made opaque. -/
theorem succeeds_ofTokenWithin_zero (hloc : s.config.Located) (t : TokenId) : (s.treeWithin 0 (some t)).Succeeds := by
  obtain ⟨e, he⟩ := extent_isOk hloc t
  obtain ⟨l, hl⟩ := hloc e.first
  obtain ⟨x, hx⟩ := succeeds_opaqueNode hloc e
  obtain ⟨y, hy⟩ := succeeds_inParens hloc e x
  refine ⟨y, ?_⟩
  simp only [treeWithin, ofTokenWithin, Making.note_eq, result_bind, Logged.result_liftM, he, hl, hx, hy, except_ok_bind,
    result_note]

/-- Within some levels an expression is made exactly if every token that is followed in fewer steps is whole. -/
theorem succeeds_ofTokenWithin_iff (hloc : s.config.Located) (steps : Nat) (t : TokenId) :
    (s.treeWithin steps (some t)).Succeeds ↔ ∀ n u, n < steps → s.config.FollowedIn n t u → s.config.Whole u := by
  induction steps generalizing t with
  | zero => simp [succeeds_ofTokenWithin_zero hloc t]
  | succ steps ih =>
    rw [succeeds_ofTokenWithin_succ_iff hloc]
    constructor
    · rintro ⟨hfollowed, hnames⟩ n u hn hpath
      cases hpath with
      | here =>
        refine ⟨fun hincomplete => ?_, hnames⟩
        exact not_succeeds_ofTokenWithin_none steps (hfollowed none (none_mem_followed_iff.2 hincomplete))
      | step ho hrest => exact (ih _).1 (hfollowed _ ho) _ u (by omega) hrest
    · intro hwhole
      have hself := hwhole 0 t (by omega) .here
      refine ⟨fun o ho => ?_, hself.2⟩
      cases o with
      | none => exact absurd (none_mem_followed_iff.1 ho) hself.1
      | some o => exact (ih o).2 fun n u hn hpath => hwhole (n + 1) u (by omega) (.step ho hpath)

/-- An expression is made exactly if there is no gap below its token. -/
theorem succeeds_expression_iff (hloc : s.config.Located) (t : TokenId) :
    (s.expression (some t)).Succeeds ↔ ¬s.config.Gapped t := by
  rw [expression_eq, succeeds_map_iff, succeeds_ofTokenWithin_iff hloc, Gapped]
  constructor
  · rintro hwhole ⟨n, u, hn, hpath, hu⟩
    exact hu (hwhole n u (by omega) hpath)
  · intro hgap n u hn hpath
    by_contra hu
    exact hgap ⟨n, u, by omega, hpath, hu⟩

end Source

namespace Auditor

variable {a : Auditor} {t o : TokenId}

/-- A call makes the walk look at a token: it is the callee, or it is the format that the call passes to a callee which takes
one. -/
def LooksAt (a : Auditor) (t o : TokenId) : Prop :=
  (a.source.config.token t).operand1 = some o ∨
    ∃ callee symbol, ∃ place : Nat, (a.source.expression (a.source.config.token t).operand1).result = .ok callee ∧
      (callee.kind = .ident ∨ callee.kind = .member) ∧ a.source.config.calledSymbol (a.source.config.token t) = .ok symbol ∧
      a.table.slot? a.source.config symbol = place ∧
      (a.source.config.callArguments (a.source.config.token t))[place]? = some o ∧
      (a.settings.skipBareCalls = true → place + 1 < (a.source.config.callArguments (a.source.config.token t)).length)

/-- A call whose site is decided made the expressions that it looks at. -/
theorem succeeds_of_siteOf {r : Forwarding} (h : (a.siteOf r t).Succeeds) (hlooks : a.LooksAt t o) :
    (a.source.expression (some o)).Succeeds := by
  obtain ⟨site, h⟩ := h
  unfold siteOf at h
  obtain ⟨callee, hcallee, h⟩ := bind_result_eq_ok.1 h
  rcases hlooks with ho | ⟨callee', symbol, place, hcallee', hkind, hsymbol, hplace, ho, hmore⟩
  · rw [ho] at hcallee
    exact ⟨callee, hcallee⟩
  · obtain rfl := Except.ok.inj (hcallee.symm.trans hcallee')
    have hnonneg : ¬a.table.slot? a.source.config symbol < 0 := by omega
    rw [if_pos (by simpa using hkind)] at h
    obtain ⟨symbol', hsymbol', h⟩ := bind_result_eq_ok.1 h
    obtain rfl := Except.ok.inj (hsymbol.symm.trans hsymbol')
    rw [if_neg hnonneg, hplace] at h
    obtain ⟨found, hfound, h⟩ := bind_result_eq_ok.1 h
    obtain rfl := Except.ok.inj (hfound.symm.trans (formatArgument_eq_some_iff.2 ⟨ho, hmore⟩))
    obtain ⟨argument, hargument, -⟩ := bind_result_eq_ok.1 h
    exact ⟨argument, hargument⟩

/-- A walk that comes to its end made the expressions that every plain call of its list looks at. -/
theorem succeeds_of_reaches {tokens : List TokenId} {w : Walk} (h : Progress.Reaches a.step {} tokens w) (ht : t ∈ tokens)
    (hplain : a.source.config.IsPlainCall t) (hlooks : a.LooksAt t o) : (a.source.expression (some o)).Succeeds := by
  obtain ⟨before, after, rfl⟩ := List.append_of_mem ht
  obtain ⟨m, -, hrest⟩ := Progress.reaches_append.1 h
  obtain ⟨m', hstep, -⟩ := Progress.reaches_cons.1 hrest
  obtain ⟨hb, hassign, hcall⟩ := hplain
  rcases step_cases hstep with ⟨scope, _, hopens, -⟩ | ⟨hb', -⟩ | ⟨-, hassign', -⟩ | ⟨-, -, -, site, hsite, -⟩ |
    ⟨-, -, hcall', -⟩
  · exact absurd hopens.isBoundary hb
  · exact absurd hb' hb
  · exact absurd hassign' hassign
  · exact succeeds_of_siteOf ⟨site, hsite⟩ hlooks
  · exact absurd hcall hcall'

end Auditor

/-- An examination that does not succeed reports nothing but its failure. -/
theorem reported_of_not_ok {settings : Settings} {c : Configuration}
    (h : ∀ fs, ((formatChecker settings).examine c).result ≠ .ok fs) :
    ∃ fault, ∀ rules, ((formatChecker settings).examine c).reported formatCheckerName rules =
      [failureFinding formatCheckerName fault] := by
  cases hresult : ((formatChecker settings).examine c).result with
  | ok fs => exact absurd hresult (h fs)
  | error fault => exact ⟨fault, fun rules => by rw [Examination.reported, hresult]⟩

/-- In a configuration whose lines and columns are numbers, the expression of a token is made exactly if there is no gap below
it, and a gap below a callee or a format of the token list makes the checker report nothing but its own failure. -/
theorem expression_made_iff_no_gap (c : Configuration) (hloc : c.Located) :
    (∀ t, (∃ e, (c.source.expression (some t)).result = .ok e) ↔ ¬c.Gapped t) ∧
    ∀ settings t o, t ∈ c.tokenList → c.IsPlainCall t → (Auditor.ofSettings settings c).LooksAt t o → c.Gapped o →
      ∃ fault, ∀ rules, ((formatChecker settings).examine c).reported formatCheckerName rules =
        [failureFinding formatCheckerName fault] := by
  refine ⟨fun t => Source.succeeds_expression_iff hloc t, ?_⟩
  intro settings t o ht hplain hlooks hgap
  apply reported_of_not_ok
  intro fs hfs
  obtain ⟨-, w, hw, -⟩ := examine_eq_ok_iff.1 hfs
  exact (Source.succeeds_expression_iff hloc o).1 (Auditor.succeeds_of_reaches hw ht hplain hlooks) hgap

namespace ShortConditional

/-- The call `printf(v ?: "x")`: the conditional has no first branch. -/
def config : Configuration :=
  { tokens := #[{ text := "(", operand1 := some 1, operand2 := some 2 }, { text := "printf", isName := true },
      { text := "?", operand1 := some 3, operand2 := some 4 }, { text := "v", isName := true, variableRef := some 0 },
      { text := ":", operand2 := some 5 }, { text := "\"x\"", isString := true }]
    tokenList := [0]
    variableDecls := #[{ name := "v" }] }

theorem located : config.Located :=
  Configuration.located_of_forall_mem (by decide)

theorem gapped : config.Gapped 2 :=
  ⟨0, 2, by decide, .here, fun hwhole => hwhole.1 (by decide)⟩

theorem isPlainCall : config.IsPlainCall 0 := by
  decide

theorem looksAt : (Auditor.ofSettings {} config).LooksAt 0 2 := by
  have hcallee : (config.source.expression (some 1)).result =
      .ok (.leaf { kind := .ident, text := "printf", stop := some {} }) := by cbv
  have hroot : (config.callArguments (config.token 0))[0]? = some 2 := by cbv
  refine Or.inr ⟨_, some (.ofLibraryFunction "printf"), 0, hcallee, Or.inl rfl, rfl, rfl, hroot, ?_⟩
  intro h
  cases h

end ShortConditional

/-- The call `printf(v ?: "x")` makes the checker report nothing but its own failure. -/
theorem short_conditional_only_reports_failure : ShortConditional.config.Located ∧
    ∃ fault, ∀ rules, ((formatChecker {}).examine ShortConditional.config).reported formatCheckerName rules =
      [failureFinding formatCheckerName fault] :=
  ⟨ShortConditional.located, (expression_made_iff_no_gap ShortConditional.config ShortConditional.located).2 {} 0 2
    (by decide) ShortConditional.isPlainCall ShortConditional.looksAt ShortConditional.gapped⟩

/-- Lines and columns are numbers, and yet the expression of a conditional without its first branch is not made. -/
theorem short_conditional_has_no_expression : ShortConditional.config.Located ∧
    (ShortConditional.config.source.expression (some 2)).result = .error .nothingToSpan :=
  ⟨ShortConditional.located, by cbv⟩

end FormatAudit
