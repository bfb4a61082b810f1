import FormatAudit.Expression.OfToken
import FormatAudit.Proofs.Steps

/-!
# The forms of tokens

Which kind of node a token becomes is decided by the token and its operands alone, before anything below it is looked at. The
decision is a value of its own here (`Form`), and the node of a token is made by its form (`ofTokenNode_eq`), so that a statement
about all nodes needs one case for each form.

That holds for every way to make nodes. The plainest of them gives no identities; what it makes of a token is the tree of the
token (`treeWithin`), about which most statements are.
-/

namespace FormatAudit

/-- What a token of the syntax tree stands for. -/
inductive Form where
  | literal
  | name
  | cast
  | call (callee : TokenId)
  | subscript
  | member (name : TokenId)
  | conditional
  | unary (operand : TokenId)
  | binary (left right : TokenId)
  | unmodelled
  deriving DecidableEq, Repr

/-- The kinds of the nodes that a form makes. -/
def Form.kinds : Form → List Kind
  | .literal => [.literal]
  | .name => [.ident]
  | .cast => [.call]
  | .call _ => [.call, .typeAssert]
  | .subscript => [.index]
  | .member _ => [.member]
  | .conditional => [.conditional]
  | .unary _ => [.deref, .unary]
  | .binary _ _ => [.binary]
  | .unmodelled => [.unknown]

/-- The form of a token. -/
def Configuration.formOf (c : Configuration) (id : TokenId) : Form :=
  let t := c.token id
  if t.isLiteral then .literal
  else if t.operand1.isNone && t.operand2.isNone then if t.isName then .name else .unmodelled
  else if t.text = "(" then
    if t.isCast then .cast
    else
      match t.operand1 with
      | some fn => .call fn
      | none => .unmodelled
  else if t.text = "[" && t.operand1.isSome && t.operand2.isSome then .subscript
  else
    match t.memberName.filter (fun name => (c.token name).isName) with
    | some name => .member name
    | none =>
      if t.text = "?" && (c.look t.operand2).text = ":" then .conditional
      else
        match t.operand1, t.operand2 with
        | some operand, none => if unaryOperators.contains t.text then .unary operand else .unmodelled
        | some left, some right => if binaryOperators.contains t.text then .binary left right else .unmodelled
        | none, _ => .unmodelled

namespace Configuration

variable {c : Configuration} {t : TokenId}

/-- Every line and column of a configuration is a number. -/
def Located (c : Configuration) : Prop :=
  ∀ t, ∃ l, (c.token t).location = .ok l

/-- The symbol of a name can be read. -/
def Resolvable (c : Configuration) (name : TokenId) : Prop :=
  ∃ symbol, c.resolve (c.token name) false = .ok symbol

/-- Whether a called name is the keyword of a cast. -/
def isCastKeyword (c : Configuration) (fn : TokenId) : Bool :=
  castKeywords.contains (c.token fn).text || checkedCastKeywords.contains (c.token fn).text

/-- It is enough to look at the tokens of the table. -/
theorem located_of_forall_mem (h : ∀ x ∈ c.tokens.toList, x.location.isOk = true) : c.Located := by
  have hok : ∀ x : Token, x.location.isOk = true → ∃ l, x.location = .ok l := by
    intro x hx
    cases hl : x.location with
    | ok l => exact ⟨l, rfl⟩
    | error fault =>
      rw [hl] at hx
      cases hx
  intro t
  apply hok
  unfold Configuration.token
  rw [Array.getD_eq_getD_getElem?]
  cases ht : c.tokens[t]? with
  | none => rfl
  | some x => exact h x (Array.mem_toList_iff.2 (Array.mem_of_getElem? ht))

/-- A token is a conditional if it is a question mark with a colon below it on the right. -/
theorem formOf_eq_conditional_iff : c.formOf t = .conditional ↔
    (c.token t).isLiteral = false ∧ (c.token t).text = "?" ∧ (c.look (c.token t).operand2).text = ":" := by
  fun_cases formOf c t
  all_goals grind [look, Token.memberName, Option.isNone_iff_eq_none]

/-- A token is a cast if it is a parenthesis that is marked as one and has an operand. -/
theorem formOf_eq_cast_iff : c.formOf t = .cast ↔
    (c.token t).isLiteral = false ∧ (c.token t).text = "(" ∧ (c.token t).isCast = true ∧
      ((c.token t).operand1 ≠ none ∨ (c.token t).operand2 ≠ none) := by
  fun_cases formOf c t
  all_goals grind [Option.isNone_iff_eq_none]

/-- A subscript has both operands. -/
theorem operands_of_formOf_eq_subscript (h : c.formOf t = .subscript) :
    (c.token t).operand1 ≠ none ∧ (c.token t).operand2 ≠ none := by
  revert h
  fun_cases formOf c t
  all_goals grind

/-- The name of a member access is its second operand, unless that is missing. -/
theorem operand2_of_formOf_eq_member {name : TokenId} (h : c.formOf t = .member name) :
    (c.token t).operand2 = some name ∨ (c.token t).operand2 = none := by
  revert h
  fun_cases formOf c t
  all_goals grind [Token.memberName, Option.filter_eq_some_iff, Option.or_eq_some_iff]

end Configuration

/-- Nodes without identities, made of what they are given. -/
instance : Making (Logged Fault) where
  make n operands callee := pure (.node n operands callee)
  note := Logged.note

/-- The plainest way to make a node gives it no identity. -/
@[simp]
theorem make_eq (n : Node) (operands : List Expression) (callee : Option Expression) :
    (make n operands callee : Logged Fault Expression) = pure (.node n operands callee) := rfl

@[simp]
theorem Making.note_eq (r : LogRecord) : (Making.note r : Logged Fault Unit) = Logged.note r := rfl

namespace Source

section Making

variable {m : Type → Type} [Monad m] [MonadLiftT (Except Fault) m] [Making m]

/-- The node of a token by its form; `location` and `stop` are those of its first and its last token. -/
def ofForm (s : Source) (below : Below m) (id : TokenId) (e : Extent) (location stop : Location) : Form → m Expression
  | .literal => make { kind := .literal, text := (s.config.token id).text, location, stop := some stop } [] none
  | .name => do
    let symbol ← s.config.resolve (s.config.token id) false
    make { kind := .ident, text := (s.config.token id).text, symbol, location, stop := some stop } [] none
  | .cast => s.ofCast below (s.config.token id) location stop
  | .call fn => s.ofCall below (s.config.token id) fn location stop
  | .subscript =>
    ofPair below { kind := .index, location, stop := some stop } (s.config.token id).operand1 (s.config.token id).operand2
  | .member name => s.ofMember below (s.config.token id) name { kind := .unknown, location, stop := some stop }
  | .conditional => do
    let branches := s.config.look (s.config.token id).operand2
    let selector ← below (s.config.token id).operand1
    let first ← below branches.operand1
    let second ← below branches.operand2
    make { kind := .conditional, location, stop := some stop } [selector, first, second] none
  | .unary operand => s.ofUnary below id operand { kind := .unknown, location, stop := some stop }
  | .binary left right =>
    ofPair below { kind := .binary, op := (s.config.token id).text, location, stop := some stop } (some left) (some right)
  | .unmodelled => s.opaqueNode e

/-- The node of a token is made by its form. -/
theorem ofTokenNode_eq (s : Source) (below : Below m) (id : TokenId) (e : Extent) :
    s.ofTokenNode below id e = (do
      let location ← (s.config.token e.first).location
      let stop ← (s.config.token e.last).location
      s.ofForm below id e location stop (s.config.formOf id)) := by
  unfold ofTokenNode Configuration.formOf
  dsimp only
  congr 1
  funext location
  congr 1
  funext stop
  split
  · rfl
  split
  · split
    · rfl
    · rfl
  split
  · split
    · rfl
    · cases (s.config.token id).operand1 with
      | none => rfl
      | some fn => rfl
  split
  · rfl
  cases Option.filter (fun name => (s.config.token name).isName) (s.config.token id).memberName with
  | some name => rfl
  | none =>
    dsimp only
    split
    · rfl
    cases (s.config.token id).operand1 with
    | none => rfl
    | some left =>
      cases (s.config.token id).operand2 with
      | none =>
        dsimp only
        split
        · rfl
        · rfl
      | some right =>
        dsimp only
        split
        · rfl
        · rfl

/-- The expression of a token, given how the tokens below it are turned into expressions. -/
def level (s : Source) (below : Below m) (t : TokenId) : m Expression := do
  let e ← s.extent (some t)
  let node ← s.ofTokenNode below t e
  s.inParens e node

/-- One more level is the rule for the token, with the other levels below. -/
theorem ofTokenWithin_succ (s : Source) (steps : Nat) (t : TokenId) :
    s.ofTokenWithin (m := m) (steps + 1) (some t) = s.level (s.ofTokenWithin steps) t := rfl

end Making

/-- The tree of a token: its expression, without identities, followed for at most `steps` levels. -/
abbrev treeWithin (s : Source) (steps : Nat) : Below (Logged Fault) :=
  s.ofTokenWithin steps

variable {s : Source} {below : Below (Logged Fault)} {x : Expression}

/-- The expression of a token is the node of its form, in the parentheses around its extent. -/
theorem level_eq_ok_iff {t : TokenId} :
    (s.level below t).result = .ok x ↔
      ∃ e location stop node, s.extent (some t) = .ok e ∧ (s.config.token e.first).location = .ok location ∧
        (s.config.token e.last).location = .ok stop ∧
        (s.ofForm below t e location stop (s.config.formOf t)).result = .ok node ∧
        (s.inParens e node : Logged Fault Expression).result = .ok x := by
  simp only [level, ofTokenNode_eq, Logged.bind_result_eq_ok, Logged.result_liftM]
  constructor
  · rintro ⟨e, he, node, ⟨location, hlocation, stop, hstop, hnode⟩, hx⟩
    exact ⟨e, location, stop, node, he, hlocation, hstop, hnode, hx⟩
  · rintro ⟨e, location, stop, node, he, hlocation, hstop, hnode, hx⟩
    exact ⟨e, he, node, ⟨location, hlocation, stop, hstop, hnode⟩, hx⟩

/-- The expression of a token with at least one level left. -/
theorem ofTokenWithin_succ_eq_ok_iff {steps : Nat} {t : TokenId} :
    (s.treeWithin (steps + 1) (some t)).result = .ok x ↔
      ∃ e location stop node, s.extent (some t) = .ok e ∧ (s.config.token e.first).location = .ok location ∧
        (s.config.token e.last).location = .ok stop ∧
        (s.ofForm (s.treeWithin steps) t e location stop (s.config.formOf t)).result = .ok node ∧
        (s.inParens e node : Logged Fault Expression).result = .ok x := by
  rw [treeWithin, ofTokenWithin_succ, level_eq_ok_iff]

/-- A member access is made of its object, if that stands on the left, and of the symbol of its name. -/
theorem ofMember_eq_ok_iff {t : Token} {name : TokenId} {n : Node} :
    (s.ofMember below t name n).result = .ok x ↔
      ∃ operands symbol, (mapList below (if t.operand2 = some name then t.operand1.toList.map some else [])).result =
          .ok operands ∧ s.config.resolve (s.config.token name) false = .ok symbol ∧
        x = .node { n with kind := .member, op := if t.spelling = "" then t.text else t.spelling,
                           text := (s.config.token name).text, symbol } operands none := by
  have hobject : (if t.operand2 = some name then t.operand1.toList.map some else []) =
      (if t.operand2 = some name then t.operand1 else none).toList.map some := by
    split
    · rfl
    · rfl
  rw [hobject, ofMember]
  cases (if t.operand2 = some name then t.operand1 else none) with
  | none =>
    simp only [mapList, Logged.bind_result_eq_ok, make_eq, Logged.result_pure, Logged.result_liftM, Option.toList_none,
      List.map_nil, Except.ok.injEq]
    constructor
    · rintro ⟨_, rfl, symbol, hsymbol, rfl⟩
      exact ⟨[], symbol, rfl, hsymbol, rfl⟩
    · rintro ⟨_, symbol, rfl, hsymbol, rfl⟩
      exact ⟨[], rfl, symbol, hsymbol, rfl⟩
  | some o =>
    simp only [mapList, Logged.bind_result_eq_ok, make_eq, Logged.result_pure, Logged.result_liftM, Option.toList_some,
      List.map_cons, List.map_nil, Except.ok.injEq]
    constructor
    · rintro ⟨y, hy, _, rfl, symbol, hsymbol, rfl⟩
      exact ⟨[y], symbol, ⟨y, hy, [], rfl, rfl⟩, hsymbol, rfl⟩
    · rintro ⟨_, symbol, ⟨y, hy, _, rfl, rfl⟩, hsymbol, rfl⟩
      exact ⟨y, hy, [y], rfl, symbol, hsymbol, rfl⟩

/-- A form makes nodes of its kinds only. -/
theorem kind_mem_kinds {t : TokenId} {e : Extent} {location stop : Location} {form : Form}
    (h : (s.ofForm below t e location stop form).result = .ok x) : x.kind ∈ form.kinds := by
  cases form with
  | member name =>
    obtain ⟨operands, symbol, -, -, rfl⟩ := ofMember_eq_ok_iff.1 h
    exact List.mem_singleton.2 rfl
  | literal =>
    cases h
    exact List.mem_singleton.2 rfl
  | name =>
    simp only [ofForm, Logged.bind_result_eq_ok, make_eq, Logged.result_pure, Except.ok.injEq] at h
    obtain ⟨_, -, rfl⟩ := h
    exact List.mem_singleton.2 rfl
  | conditional =>
    simp only [ofForm, Logged.bind_result_eq_ok, make_eq, Logged.result_pure, Except.ok.injEq] at h
    obtain ⟨_, -, _, -, _, -, rfl⟩ := h
    exact List.mem_singleton.2 rfl
  | subscript | binary =>
    simp only [ofForm, ofPair, Logged.bind_result_eq_ok, make_eq, Logged.result_pure, Except.ok.injEq] at h
    obtain ⟨_, -, _, -, rfl⟩ := h
    exact List.mem_singleton.2 rfl
  | cast =>
    simp only [ofForm, ofCast, Logged.bind_result_eq_ok, make_eq, pure_bind, Logged.result_pure, Except.ok.injEq] at h
    obtain ⟨_, -, _, -, rfl⟩ := h
    exact List.mem_singleton.2 rfl
  | call fn =>
    simp only [ofForm, ofCall, Logged.bind_result_eq_ok] at h
    obtain ⟨arguments, -, h⟩ := h
    split at h
    · split at h
      · cases h
        exact List.mem_cons_of_mem _ List.mem_cons_self
      · simp only [Logged.bind_result_eq_ok, make_eq, pure_bind, Logged.result_pure, Except.ok.injEq] at h
        obtain ⟨_, -, rfl⟩ := h
        exact List.mem_cons_self
    · simp only [Logged.bind_result_eq_ok, make_eq, Logged.result_pure, Except.ok.injEq] at h
      obtain ⟨_, -, rfl⟩ := h
      exact List.mem_cons_self
  | unary operand =>
    simp only [ofForm, ofUnary, Logged.bind_result_eq_ok] at h
    obtain ⟨inner, -, h⟩ := h
    split at h
    · cases h
      exact List.mem_cons_self
    · simp only [Logged.bind_result_eq_ok, make_eq, Logged.result_pure, Except.ok.injEq] at h
      obtain ⟨_, -, _, -, rfl⟩ := h
      exact List.mem_cons_of_mem _ List.mem_cons_self
  | unmodelled =>
    simp only [ofForm, opaqueNode, make_eq, Logged.bind_result_eq_ok, Logged.result_pure, Except.ok.injEq] at h
    obtain ⟨_, -, _, -, rfl⟩ := h
    exact List.mem_singleton.2 rfl

end Source

end FormatAudit
