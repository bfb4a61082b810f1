import FormatAudit.Proofs.Blame
import FormatAudit.Proofs.Identities

/-!
# What expressions of tokens are composed of

Every node of an expression that is made from tokens is `Formed`: it has as many operands as its kind asks for, and a call has a
callee. Besides, the locations that it refers to are those of tokens; whatever is true of these (`Configuration.Places`) is true
of them. Both together are `Made`. The proof has one lemma for each way to make a node. What holds of the expressions below a
token holds of the node of each form (`made_ofForm`) and of the node in parentheses (`made_enclose`), so it holds at every depth
(`made_ofTokenWithin`), and numbering the nodes keeps it (`made_numberFrom`).

A node that has at least the operands of its kind is `Complete`. A complete composite node has an operand to judge, so
expressions of complete nodes are `Composed` and the verdict on them says whether they are constant (`composed_of_complete`).
-/

namespace FormatAudit

namespace Expression

/-- A node has the operands that its kind asks for, and a call has a callee. A cast with the type in parentheses has one operand.
No token stands for a slice or for a key with its value. -/
def Formed (e : Expression) : Prop :=
  match e.kind with
  | .literal | .ident | .unknown => e.operands.length = 0
  | .paren | .unary | .deref | .typeAssert => e.operands.length = 1
  | .binary | .index => e.operands.length = 2
  | .conditional => e.operands.length = 3
  | .member => e.operands.length ≤ 1
  | .call => e.callee.isSome = true ∧ (e.info.cast = true → e.operands.length = 1)
  | .slice | .keyValue => False

/-- A node has at least the operands that its kind asks for, a slice one for each bound that its slots announce. -/
def Complete (e : Expression) : Prop :=
  match e.kind with
  | .literal | .ident | .unknown | .member | .call => True
  | .paren | .unary | .deref | .typeAssert => 1 ≤ e.operands.length
  | .binary | .index | .keyValue => 2 ≤ e.operands.length
  | .conditional => 3 ≤ e.operands.length
  | .slice => 1 + [e.info.slots.1, e.info.slots.2.1, e.info.slots.2.2].count true ≤ e.operands.length

/-- A node with just the operands of its kind has enough of them. -/
theorem Formed.complete {e : Expression} (h : e.Formed) : e.Complete := by
  revert h
  unfold Formed Complete
  cases e.kind with
  | literal | ident | unknown | member | call => exact fun _ => trivial
  | paren | unary | deref | typeAssert | binary | index | conditional => exact fun hlength => Nat.le_of_eq hlength.symm
  | slice | keyValue =>
    intro h
    cases h

/-- The locations that a node refers to: where it stands and where its symbol is declared. -/
def places (e : Expression) : List Location :=
  e.location :: (e.symbol.bind Symbol.declaredAt).toList

/-- A node is formed, and the locations that it refers to have a property. -/
def Made (L : Location → Prop) (e : Expression) : Prop :=
  e.Formed ∧ ∀ l ∈ e.places, L l

/-- Whether a node has the operands of its kind does not depend on its number. -/
theorem formed_numberFrom (e : Expression) (start : Nat) : (e.numberFrom start).1.Formed ↔ e.Formed := by
  obtain ⟨info, operands, callee⟩ := e
  have hcallee : (numberOption (numberList start operands).2 callee).1.isSome = callee.isSome := by
    cases callee with
    | none => rfl
    | some f => rfl
  simp only [Formed, numberFrom, Expression.kind, Expression.info, Expression.operands, Expression.callee, length_numberList,
    hcallee]

/-- The locations of a node do not depend on its number. -/
theorem made_numberFrom (L : Location → Prop) (e : Expression) (start : Nat) : (e.numberFrom start).1.Made L ↔ e.Made L := by
  have hplaces : (e.numberFrom start).1.places = e.places := by
    obtain ⟨info, operands, callee⟩ := e
    rfl
  rw [Made, Made, formed_numberFrom, hplaces]

/-- What follows from a property of nodes holds everywhere if the property does. -/
theorem Everywhere.imp {P Q : Expression → Prop} {e : Expression} (h : Everywhere P e) (hPQ : ∀ n, P n → Q n) :
    Everywhere Q e := by
  induction h with
  | node here _ _ ihoperands ihcallee => exact .node (hPQ _ here) ihoperands ihcallee

/-- What holds everywhere in an expression holds everywhere in the nodes that are judged with it. -/
theorem Everywhere.judged {P : Expression → Prop} {e n : Expression} (h : Everywhere P e) (hn : Judged e n) : Everywhere P n := by
  induction hn with
  | self e => exact h
  | @operand e m n hm _ ih =>
    obtain ⟨info, operands, callee⟩ := e
    exact ih ((everywhere_node.1 h).2.1 m (judgedPart_subset _ _ hm))

/-- What holds everywhere in an expression holds of the nodes that are judged with it. -/
theorem Everywhere.of_judged {P : Expression → Prop} {e n : Expression} (h : Everywhere P e) (hn : Judged e n) : P n := by
  obtain ⟨here, -, -⟩ := h.judged hn
  exact here

/-- A complete composite node has an operand to judge. -/
theorem Complete.judgedOperands_ne_nil {e : Expression} (h : e.Complete) (hcomb : e.kind.combines = true) :
    e.judgedOperands ≠ [] := by
  revert h hcomb
  unfold Complete judgedOperands judgedPart
  cases e.kind with
  | literal | ident | member | index | call | unknown =>
    intro _ hcomb
    cases hcomb
  | binary | paren | unary | deref | typeAssert | slice | keyValue =>
    intro hlength _ hnil
    dsimp only at hlength hnil
    rw [hnil, List.length_nil] at hlength
    omega
  | conditional =>
    intro hlength _ hnil
    dsimp only at hlength
    have htail := congrArg List.length hnil
    rw [List.length_tail, List.length_nil] at htail
    omega

/-- A tree of complete nodes can be judged: its composite nodes have operands. -/
theorem composed_of_complete {e : Expression} (h : Everywhere Complete e) : e.Composed :=
  fun _ hn => (h.of_judged hn).judgedOperands_ne_nil

theorem composed_of_formed {e : Expression} (h : Everywhere Formed e) : e.Composed :=
  composed_of_complete (h.imp fun _ => Formed.complete)

end Expression

/-- The locations of the tokens of a configuration have a property. -/
def Configuration.Places (c : Configuration) (L : Location → Prop) : Prop :=
  ∀ t l, (c.token t).location = .ok l → L l

/-- A token that is looked at, missing or not, has a location with the property. -/
theorem Configuration.Places.look {c : Configuration} {L : Location → Prop} (h : c.Places L) {t : Option TokenId} {l : Location}
    (hl : (c.look t).location = .ok l) : L l := by
  cases t with
  | some t => exact h t l hl
  | none =>
    -- a missing token is blank, as is the first one past the table
    exact h c.tokens.size l (by rwa [Configuration.token_of_size_le (Nat.le_refl _)])

/-- The location of a token that may be missing has the property. -/
theorem Configuration.Places.locationOf {c : Configuration} {L : Location → Prop} (h : c.Places L) {t : Option TokenId}
    {place : Option Location} (hplace : c.locationOf? t = .ok place) : ∀ l ∈ place, L l := by
  cases t with
  | none =>
    cases hplace
    simp
  | some t =>
    obtain ⟨l, hl, hpure⟩ := except_bind_eq_ok.1 hplace
    cases hpure
    simpa using h t l hl

/-- A name is declared where a token stands, if anywhere. -/
theorem Configuration.Places.resolve {c : Configuration} {L : Location → Prop} (h : c.Places L) {t : Token} {called : Bool}
    {symbol : Option Symbol} (hsymbol : c.resolve t called = .ok symbol) : ∀ l ∈ symbol.bind Symbol.declaredAt, L l := by
  unfold Configuration.resolve at hsymbol
  split at hsymbol
  · cases hsymbol
    simp
  split at hsymbol
  · rename_i v
    obtain ⟨decl, hdecl, rfl⟩ := except_map_eq_ok.1 hsymbol
    obtain ⟨_, -, hdecl⟩ := except_bind_eq_ok.1 hdecl
    obtain ⟨place, hplace, hdecl⟩ := except_bind_eq_ok.1 hdecl
    cases hdecl
    exact h.locationOf hplace
  · rename_i f _
    obtain ⟨decl, hdecl, rfl⟩ := except_map_eq_ok.1 hsymbol
    obtain ⟨place, hplace, hdecl⟩ := except_bind_eq_ok.1 hdecl
    cases hdecl
    exact h.locationOf hplace
  · -- types, library functions and enumerators have no place of declaration
    have hnone : symbol.bind Symbol.declaredAt = none := by
      repeat' split at hsymbol
      all_goals
        cases hsymbol
        rfl
    simp [hnone]

namespace Source

open Expression

variable {s : Source} {below : Below (Logged Fault)} {e : Expression} {L : Location → Prop}

/-- The expressions below a node are made of nodes with a property of their locations. -/
def MadeBelow (L : Location → Prop) (below : Below (Logged Fault)) : Prop :=
  ∀ t e, (below t).result = .ok e → Everywhere (Made L) e

/-- A node is made of places with the property if it stands at one and its symbol is declared at one. -/
theorem made_of_declared (hformed : e.Formed) (hsymbol : ∀ l ∈ e.symbol.bind Symbol.declaredAt, L l) (hlocation : L e.location) :
    e.Made L :=
  ⟨hformed, List.forall_mem_cons.2 ⟨hlocation, fun l hl => hsymbol l (Option.mem_toList.1 hl)⟩⟩

/-- A node without a symbol refers to its own location only. -/
theorem made_of_symbol_eq_none (hformed : e.Formed) (hsymbol : e.symbol = none) (hlocation : L e.location) : e.Made L :=
  made_of_declared hformed (by simp [hsymbol]) hlocation

/-- The name of a type is declared nowhere. -/
theorem made_typeName {text : String} {location : Location} (hlocation : L location) :
    Everywhere (Made L) (.ident text (some (Symbol.ofType text)) location) :=
  everywhere_leaf (made_of_declared rfl (by rintro l ⟨⟩) hlocation)

section Making

variable (hL : s.config.Places L)

include hL

/-- A name stands where its token does and is declared where a token stands. -/
theorem made_name {t : Token} {called : Bool} {symbol : Option Symbol} (hsymbol : s.config.resolve t called = .ok symbol)
    {text : String} {location : Location} {stop : Option Location} (hlocation : L location) :
    Everywhere (Made L) (.leaf { kind := .ident, text, symbol, location, stop }) :=
  everywhere_leaf (made_of_declared rfl (hL.resolve hsymbol) hlocation)

/-- An opaque node stands where its first token does. -/
theorem made_opaqueNode {x : Extent} (h : (s.opaqueNode x : Logged Fault Expression).result = .ok e) :
    Everywhere (Made L) e := by
  simp only [opaqueNode, make_eq, Logged.bind_result_eq_ok, Logged.result_liftM, Logged.result_pure, Except.ok.injEq] at h
  obtain ⟨_, hlocation, _, -, rfl⟩ := h
  exact everywhere_leaf (made_of_symbol_eq_none rfl rfl (hL _ _ hlocation))

/-- Each pair of parentheses is a node with one operand. -/
theorem made_enclose {count : Nat} {before after : Option TokenId} {inner : Expression} (hinner : Everywhere (Made L) inner)
    (h : (s.enclose count before after inner : Logged Fault Expression).result = .ok e) : Everywhere (Made L) e := by
  fun_induction enclose (m := Logged Fault) s count before after inner with
  | case1 count before after inner hgroup ih =>
    simp only [make_eq, pure_bind, Logged.bind_result_eq_ok, Logged.result_liftM] at h
    obtain ⟨location, hlocation, stop, -, h⟩ := h
    refine ih _ ?_ h
    exact everywhere_node.2 ⟨made_of_symbol_eq_none rfl rfl (hL _ _ hlocation), by simpa using hinner, by simp⟩
  | case2 =>
    cases h
    exact hinner
  | case3 =>
    cases h
    exact hinner

end Making

/-- What is made of each item of a list is made of places with the property. -/
theorem made_mapList {α : Type} {f : α → Option TokenId} (hbelow : MadeBelow L below) {as : List α} {es : List Expression}
    (h : (mapList (fun a => below (f a)) as).result = .ok es) : ∀ e ∈ es, Everywhere (Made L) e := by
  induction as generalizing es with
  | nil =>
    cases h
    simp
  | cons a as ih =>
    simp only [mapList, Logged.bind_result_eq_ok, Logged.result_pure, Except.ok.injEq] at h
    obtain ⟨e, he, es, hes, rfl⟩ := h
    exact List.forall_mem_cons.2 ⟨hbelow _ _ he, ih hes⟩

/-- There is one result for each item. -/
theorem length_of_mapList {α β : Type} {f : α → Logged Fault β} {as : List α} {bs : List β}
    (h : (mapList f as).result = .ok bs) : bs.length = as.length := by
  induction as generalizing bs with
  | nil =>
    cases h
    rfl
  | cons a as ih =>
    simp only [mapList, Logged.bind_result_eq_ok, Logged.result_pure, Except.ok.injEq] at h
    obtain ⟨b, -, bs, hbs, rfl⟩ := h
    rw [List.length_cons, ih hbs, List.length_cons]

/-- A subscript or an operation with two operands has the property that its operands have. -/
theorem made_ofPair (hbelow : MadeBelow L below) {n : Node} {left right : Option TokenId}
    (hkind : n.kind = .index ∨ n.kind = .binary) (hsymbol : n.symbol = none) (hlocation : L n.location)
    (h : (ofPair below n left right).result = .ok e) : Everywhere (Made L) e := by
  simp only [ofPair, make_eq, Logged.bind_result_eq_ok, Logged.result_pure, Except.ok.injEq] at h
  obtain ⟨l, hl, r, hr, rfl⟩ := h
  refine everywhere_node.2 ⟨?_, by simpa using ⟨hbelow _ _ hl, hbelow _ _ hr⟩, by simp⟩
  refine made_of_symbol_eq_none ?_ hsymbol hlocation
  rcases hkind with hkind | hkind
  · simp [Formed, Expression.kind, Expression.info, hkind, Expression.operands]
  · simp [Formed, Expression.kind, Expression.info, hkind, Expression.operands]

/-- So has an operation with one operand. -/
theorem made_ofUnary (hbelow : MadeBelow L below) {t operand : TokenId} {n : Node} (hsymbol : n.symbol = none)
    (hlocation : L n.location) (h : (s.ofUnary below t operand n).result = .ok e) : Everywhere (Made L) e := by
  unfold ofUnary at h
  obtain ⟨inner, hinner, h⟩ := Logged.bind_result_eq_ok.1 h
  have hoperands : ∀ m ∈ [inner], Everywhere (Made L) m := by simpa using hbelow _ _ hinner
  split at h
  · cases h
    exact everywhere_node.2 ⟨made_of_symbol_eq_none rfl hsymbol hlocation, hoperands, by simp⟩
  · obtain ⟨_, -, h⟩ := Logged.bind_result_eq_ok.1 h
    obtain ⟨_, -, h⟩ := Logged.bind_result_eq_ok.1 h
    cases h
    exact everywhere_node.2 ⟨made_of_symbol_eq_none rfl hsymbol hlocation, hoperands, by simp⟩

section Making

variable (hL : s.config.Places L)

include hL

/-- A cast is a call of the name of a type, which is declared nowhere. -/
theorem made_ofCast (hbelow : MadeBelow L below) {t : Token} {location stop : Location} (hlocation : L location)
    (h : (s.ofCast below t location stop).result = .ok e) : Everywhere (Made L) e := by
  simp only [ofCast, make_eq, pure_bind, Logged.bind_result_eq_ok, Logged.result_liftM, Logged.result_pure,
    Except.ok.injEq] at h
  obtain ⟨place, hplace, operand, hoperand, rfl⟩ := h
  refine everywhere_node.2 ⟨made_of_symbol_eq_none ⟨rfl, fun _ => rfl⟩ rfl hlocation, by simpa using hbelow _ _ hoperand, ?_⟩
  rintro _ ⟨⟩
  exact made_typeName (hL.look hplace)

/-- A callee is a name in parentheses or the expression of its token, maybe with another symbol. -/
theorem made_calleeOf (hbelow : MadeBelow L below) {fn : TokenId} (h : (s.calleeOf below fn).result = .ok e) :
    Everywhere (Made L) e := by
  unfold calleeOf at h
  dsimp only at h
  split at h
  · obtain ⟨symbol, hsymbol, h⟩ := Logged.bind_result_eq_ok.1 h
    obtain ⟨location, hlocation, h⟩ := Logged.bind_result_eq_ok.1 h
    exact made_enclose hL (made_name hL hsymbol (hL fn _ hlocation)) h
  · obtain ⟨callee, hresult, h⟩ := Logged.bind_result_eq_ok.1 h
    have hmade := hbelow _ _ hresult
    split at h
    · obtain ⟨symbol, hsymbol, h⟩ := Logged.bind_result_eq_ok.1 h
      cases h
      obtain ⟨⟨hformed, hplaces⟩, hoperands, hcallee⟩ := hmade
      have hlocation := (List.forall_mem_cons.1 hplaces).1
      exact everywhere_node.2 ⟨made_of_declared hformed (hL.resolve hsymbol) hlocation, hoperands, hcallee⟩
    · cases h
      exact hmade

/-- A call has the property that its arguments and its callee have. -/
theorem made_ofCall (hbelow : MadeBelow L below) {t : Token} {fn : TokenId} {location stop : Location} (hlocation : L location)
    (h : (s.ofCall below t fn location stop).result = .ok e) : Everywhere (Made L) e := by
  unfold ofCall at h
  obtain ⟨arguments, harguments, h⟩ := Logged.bind_result_eq_ok.1 h
  have hoperands : ∀ m ∈ arguments, Everywhere (Made L) m := made_mapList hbelow harguments
  dsimp only at h
  split at h
  · split at h
    · rename_i hchecked
      simp only [Bool.and_eq_true, beq_iff_eq] at hchecked
      cases h
      exact everywhere_node.2 ⟨made_of_symbol_eq_none hchecked.2 rfl hlocation, hoperands, by simp⟩
    · obtain ⟨place, hplace, h⟩ := Logged.bind_result_eq_ok.1 h
      cases h
      refine everywhere_node.2 ⟨made_of_symbol_eq_none ⟨rfl, Bool.noConfusion⟩ rfl hlocation, hoperands, ?_⟩
      rintro _ ⟨⟩
      exact made_typeName (hL fn _ hplace)
  · obtain ⟨callee, hcallee, h⟩ := Logged.bind_result_eq_ok.1 h
    cases h
    refine everywhere_node.2 ⟨made_of_symbol_eq_none ⟨rfl, Bool.noConfusion⟩ rfl hlocation, hoperands, ?_⟩
    simpa using made_calleeOf hL hbelow hcallee

/-- A member access has the property that its object has, and its name is resolved. -/
theorem made_ofMember (hbelow : MadeBelow L below) {t : Token} {name : TokenId} {n : Node} (hlocation : L n.location)
    (h : (s.ofMember below t name n).result = .ok e) : Everywhere (Made L) e := by
  obtain ⟨operands, symbol, hoperands, hsymbol, rfl⟩ := ofMember_eq_ok_iff.1 h
  have hlength : operands.length ≤ 1 := by
    rw [length_of_mapList hoperands]
    split
    · cases t.operand1 with
      | none => simp
      | some o => simp
    · simp
  exact everywhere_node.2 ⟨made_of_declared hlength (hL.resolve hsymbol) hlocation,
    made_mapList (f := id) hbelow hoperands, by simp⟩

/-- The node of each form is formed, and refers to locations of tokens, if the expressions below it are and do. -/
theorem made_ofForm (hbelow : MadeBelow L below) {t : TokenId} {x : Extent} {location stop : Location} {form : Form}
    (hlocation : L location) (h : (s.ofForm below t x location stop form).result = .ok e) : Everywhere (Made L) e := by
  cases form with
  | literal =>
    cases h
    exact everywhere_leaf (made_of_symbol_eq_none rfl rfl hlocation)
  | name =>
    obtain ⟨symbol, hsymbol, h⟩ := Logged.bind_result_eq_ok.1 h
    cases h
    exact made_name hL hsymbol hlocation
  | cast => exact made_ofCast hL hbelow hlocation h
  | call fn => exact made_ofCall hL hbelow hlocation h
  | subscript => exact made_ofPair hbelow (Or.inl rfl) rfl hlocation h
  | member name => exact made_ofMember hL hbelow hlocation h
  | conditional =>
    obtain ⟨selector, hselector, h⟩ := Logged.bind_result_eq_ok.1 h
    obtain ⟨first, hfirst, h⟩ := Logged.bind_result_eq_ok.1 h
    obtain ⟨second, hsecond, h⟩ := Logged.bind_result_eq_ok.1 h
    cases h
    have hoperands : ∀ m ∈ [selector, first, second], Everywhere (Made L) m := by
      simpa using ⟨hbelow _ _ hselector, hbelow _ _ hfirst, hbelow _ _ hsecond⟩
    exact everywhere_node.2 ⟨made_of_symbol_eq_none rfl rfl hlocation, hoperands, by simp⟩
  | unary operand => exact made_ofUnary hbelow rfl hlocation h
  | binary left right => exact made_ofPair hbelow (Or.inr rfl) rfl hlocation h
  | unmodelled => exact made_opaqueNode hL h

/-- At the depth limit there is an opaque node; above it, the node of a form over what is made already. -/
theorem made_ofTokenWithin (steps : Nat) : MadeBelow L (s.treeWithin steps) := by
  induction steps with
  | zero =>
    intro t e h
    unfold treeWithin ofTokenWithin at h
    obtain ⟨_, -, h⟩ := Logged.bind_result_eq_ok.1 h
    obtain ⟨_, -, h⟩ := Logged.bind_result_eq_ok.1 h
    obtain ⟨_, -, h⟩ := Logged.bind_result_eq_ok.1 h
    obtain ⟨node, hnode, h⟩ := Logged.bind_result_eq_ok.1 h
    exact made_enclose hL (made_opaqueNode hL hnode) h
  | succ steps ih =>
    intro t e h
    cases t with
    | none => cases h
    | some t =>
      obtain ⟨_, _, _, node, -, hlocation, -, hnode, h⟩ := ofTokenWithin_succ_eq_ok_iff.1 h
      exact made_enclose hL (made_ofForm hL ih (hL _ _ hlocation) hnode) h

/-- The expression of a token is a tree with numbered nodes, and the tree is made of formed nodes at places of tokens. -/
theorem made_expression {t : Option TokenId} (h : (s.expression t).result = .ok e) : Everywhere (Made L) e := by
  rw [expression_eq] at h
  obtain ⟨inner, hinner, h⟩ := Logged.bind_result_eq_ok.1 h
  cases h
  exact (everywhere_numberFrom (made_numberFrom L) 0 inner).2 (made_ofTokenWithin hL _ _ _ hinner)

end Making

/-- The nodes of the tree of a token have the operands of their kinds. -/
theorem formed_ofTokenWithin {steps : Nat} {t : Option TokenId} (h : (s.treeWithin steps t).result = .ok e) :
    Everywhere Formed e :=
  (made_ofTokenWithin (L := fun _ => True) (fun _ _ _ => trivial) steps t e h).imp fun _ hmade => hmade.1

/-- The nodes of an expression have the operands of their kinds. -/
theorem formed_expression {t : Option TokenId} (h : (s.expression t).result = .ok e) : Everywhere Formed e :=
  (made_expression (L := fun _ => True) (fun _ _ _ => trivial) h).imp fun _ hmade => hmade.1

/-- Every expression that is made from a token is composed. -/
theorem composed_expression {t : Option TokenId} (h : (s.expression t).result = .ok e) : e.Composed :=
  composed_of_formed (formed_expression h)

end Source

end FormatAudit
