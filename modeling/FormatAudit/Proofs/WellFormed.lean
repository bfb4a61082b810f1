import FormatAudit.Proofs.Composition
import Mathlib

/-!
# Expressions of tokens are well formed

The tokens of a dump form an arbitrary graph: operands may be shared, and the graph may have cycles. The expression of a token is
a tree whose nodes all have an identity of their own (`ids_numberFrom`) and as many operands as their kind asks for
(`Source.formed_expression`). This is what rendering and judging rely on.

* An expression of complete nodes has a text (`render_isOk_of_complete`): the rule for each kind finds the operands that it asks
  for.
* The judged nodes are among the nodes (`judgedNodes_subperm`), so none is judged twice. With `Composed` that gives the
  description of the culprits in terms of the blamed nodes, and nothing is blamed exactly in constant expressions.
-/

namespace FormatAudit

namespace Expression

/-! ## All nodes and their identities -/

mutual

/-- The nodes of an expression in the order in which they are made: those of its operands, those of its callee, the node. -/
def nodes : Expression → List Expression
  | .node info operands callee => nodesList operands ++ (nodesOption callee ++ [.node info operands callee])

/-- The nodes of expressions. -/
def nodesList : List Expression → List Expression
  | [] => []
  | e :: es => nodes e ++ nodesList es

/-- The nodes of an expression that may be missing. -/
def nodesOption : Option Expression → List Expression
  | none => []
  | some e => nodes e

end

/-- The nodes of expressions are those of each of them. -/
theorem nodesList_eq (es : List Expression) : nodesList es = es.flatMap nodes := by
  induction es with
  | nil => rfl
  | cons e es ih => rw [nodesList, ih, List.flatMap_cons]

/-- The nodes of an expression are those of its operands, those of its callee and the expression itself. -/
theorem nodes_eq (e : Expression) : e.nodes = e.operands.flatMap nodes ++ (nodesOption e.callee ++ [e]) := by
  obtain ⟨info, operands, callee⟩ := e
  rw [nodes, nodesList_eq]
  rfl

mutual

/-- Numbering gives the nodes consecutive identities, and what is left begins after the last of them. -/
theorem ids_numberFrom (start : Nat) : (e : Expression) →
    (e.numberFrom start).1.nodes.map id = List.range' start e.nodes.length ∧
      (e.numberFrom start).2 = start + e.nodes.length
  | .node info operands callee => by
    obtain ⟨hoperands, hnext⟩ := ids_numberList start operands
    obtain ⟨hcallee, hlast⟩ := ids_numberOption (numberList start operands).2 callee
    rw [hnext] at hcallee hlast
    constructor
    · simp only [numberFrom, nodes, List.map_append, List.length_append, hnext, hoperands, hcallee]
      rw [← List.range'_append_1, ← List.range'_append_1, hlast]
      rfl
    · simp only [numberFrom, nodes, List.length_append, List.length_singleton, hnext, hlast]
      omega

/-- Numbered expressions have consecutive identities. -/
theorem ids_numberList (start : Nat) : (es : List Expression) →
    (nodesList (numberList start es).1).map id = List.range' start (nodesList es).length ∧
      (numberList start es).2 = start + (nodesList es).length
  | [] => ⟨rfl, rfl⟩
  | e :: es => by
    obtain ⟨hhead, hnext⟩ := ids_numberFrom start e
    obtain ⟨htail, hlast⟩ := ids_numberList (e.numberFrom start).2 es
    rw [hnext] at htail hlast
    constructor
    · simp only [numberList, nodesList, List.map_append, List.length_append, hnext, hhead, htail, List.range'_append_1]
    · simp only [numberList, nodesList, List.length_append, hnext, hlast]
      omega

/-- So does a numbered callee. -/
theorem ids_numberOption (start : Nat) : (e : Option Expression) →
    (nodesOption (numberOption start e).1).map id = List.range' start (nodesOption e).length ∧
      (numberOption start e).2 = start + (nodesOption e).length
  | none => ⟨rfl, rfl⟩
  | some e => ids_numberFrom start e

end

/-- Numbered nodes are told apart by their identities, also where they come from one token. -/
theorem nodup_ids_numbered (e : Expression) : (e.numbered.nodes.map id).Nodup := by
  rw [numbered, (ids_numberFrom 0 e).1]
  exact List.nodup_range'

/-- What holds everywhere in an expression holds of its nodes. -/
theorem Everywhere.of_mem_nodes {P : Expression → Prop} {e : Expression} (h : Everywhere P e) : ∀ n ∈ e.nodes, P n := by
  induction h with
  | @node info operands callee here _ _ ihoperands ihcallee =>
    intro n hn
    rw [nodes_eq, List.mem_append, List.mem_append, List.mem_flatMap, List.mem_singleton] at hn
    rcases hn with ⟨m, hm, hn⟩ | hn | rfl
    · exact ihoperands m hm n hn
    · cases callee with
      | none => cases hn
      | some f => exact ihcallee f rfl n hn
    · exact here

/-- Fewer items with fewer results each give fewer results. -/
theorem subperm_flatMap {α β : Type} {f g : α → List β} {as bs : List α} (hsub : as.Sublist bs)
    (h : ∀ a ∈ as, (f a).Subperm (g a)) : (as.flatMap f).Subperm (bs.flatMap g) := by
  induction hsub with
  | slnil => exact List.Subperm.refl _
  | cons b _ ih => exact (ih h).trans (List.sublist_append_right (g b) _).subperm
  | cons_cons a _ ih =>
    exact (h a List.mem_cons_self).append (ih (fun a' ha' => h a' (List.mem_cons_of_mem _ ha')))

/-- The judged nodes are nodes, each taken once. -/
theorem judgedNodes_subperm (e : Expression) : e.judgedNodes.Subperm e.nodes := by
  induction e using judgedInduction with
  | step e ih =>
    have hoperands : (e.judgedOperands.flatMap judgedNodes).Subperm (e.operands.flatMap nodes) :=
      subperm_flatMap (judgedPart_sublist e e.operands) ih
    rw [judgedNodes_eq, nodes_eq]
    exact hoperands.append (List.sublist_append_right _ [e]).subperm

/-- An expression whose nodes have distinct identities is distinct. -/
theorem distinct_of_nodup {e : Expression} (h : (e.nodes.map id).Nodup) : e.Distinct := by
  obtain ⟨kept, hperm, hsub⟩ := judgedNodes_subperm e
  exact (hperm.map id).nodup_iff.1 (h.sublist (hsub.map id))

/-! ## Rendering -/

/-- Expressions are shown one by one. -/
theorem renderList_eq (es : List Expression) : renderList es = es.map render := by
  induction es with
  | nil => rfl
  | cons e es ih => rw [renderList, ih, List.map_cons]

section Rendering

variable {operands : List Expression} (hoperands : ∀ x ∈ operands, ∃ text, x.render = .ok text)

include hoperands

/-- An operand that is there is shown. -/
theorem operandAt_isOk {i : Nat} (hi : i < operands.length) : ∃ text, operandAt (renderList operands) i = .ok text := by
  obtain ⟨text, htext⟩ := hoperands operands[i] (List.getElem_mem hi)
  refine ⟨text, ?_⟩
  rw [operandAt, renderList_eq, List.getD_eq_getElem?_getD, List.getElem?_map, List.getElem?_eq_getElem hi, Option.map_some,
    htext, Option.getD_some]

/-- The arguments of a call are shown. -/
theorem joinArguments_isOk : ∃ text, joinArguments (renderList operands) = .ok text := by
  have htexts : ∃ texts, allTexts (renderList operands) = .ok texts := by
    induction operands with
    | nil => exact ⟨[], rfl⟩
    | cons x xs ih =>
      obtain ⟨hx, hxs⟩ := List.forall_mem_cons.1 hoperands
      obtain ⟨text, htext⟩ := hx
      obtain ⟨texts, htexts⟩ := ih hxs
      refine ⟨text :: texts, ?_⟩
      rw [renderList, allTexts, htext, htexts]
      rfl
  obtain ⟨texts, htexts⟩ := htexts
  exact ⟨", ".intercalate texts, by rw [joinArguments, htexts]; rfl⟩

/-- The bounds of a slice are found if there is an operand for each slot that announces one. -/
theorem sliceBounds_isOk {slots : List Bool} (hlength : slots.count true ≤ operands.length) :
    ∃ texts, sliceBounds slots (renderList operands) = .ok texts := by
  induction slots generalizing operands with
  | nil => exact ⟨[], by rw [sliceBounds]⟩
  | cons slot slots ih =>
    cases slot with
    | false =>
      obtain ⟨texts, htexts⟩ := ih hoperands (by simpa using hlength)
      exact ⟨"" :: texts, by rw [sliceBounds, htexts]; rfl⟩
    | true =>
      rw [List.count_cons_self] at hlength
      cases operands with
      | nil => simp at hlength
      | cons x xs =>
        obtain ⟨hx, hxs⟩ := List.forall_mem_cons.1 hoperands
        obtain ⟨text, htext⟩ := hx
        obtain ⟨texts, htexts⟩ := ih hxs (by simpa using hlength)
        exact ⟨text :: texts, by rw [renderList, sliceBounds, htext, htexts]; rfl⟩

/-- The rule for the kind of a complete node finds the operands that it asks for. -/
theorem layout_isOk {info : Node} {callee : Option Expression} (hcomplete : (Expression.node info operands callee).Complete)
    (hcallee : ∃ text, renderOption callee = .ok text) :
    ∃ text, layout info (renderList operands) (renderOption callee) = .ok text := by
  have hat := @operandAt_isOk operands hoperands
  unfold Complete at hcomplete
  unfold layout
  simp only [Expression.kind, Expression.info, Expression.operands] at hcomplete
  cases hkind : info.kind with
  | literal | ident | unknown => exact ⟨info.text, rfl⟩
  | paren | unary | deref | typeAssert =>
    rw [hkind] at hcomplete
    dsimp only at hcomplete
    obtain ⟨operand, hoperand⟩ := hat (show 0 < operands.length by omega)
    exact ⟨_, by rw [hoperand]; rfl⟩
  | binary | index | keyValue =>
    rw [hkind] at hcomplete
    dsimp only at hcomplete
    obtain ⟨first, hfirst⟩ := hat (show 0 < operands.length by omega)
    obtain ⟨second, hsecond⟩ := hat (show 1 < operands.length by omega)
    exact ⟨_, by rw [hfirst, hsecond]; rfl⟩
  | conditional =>
    rw [hkind] at hcomplete
    dsimp only at hcomplete
    obtain ⟨selector, hselector⟩ := hat (show 0 < operands.length by omega)
    obtain ⟨first, hfirst⟩ := hat (show 1 < operands.length by omega)
    obtain ⟨second, hsecond⟩ := hat (show 2 < operands.length by omega)
    exact ⟨_, by rw [hselector, hfirst, hsecond]; rfl⟩
  | member =>
    cases operands with
    | nil => exact ⟨_, rfl⟩
    | cons object rest =>
      obtain ⟨text, htext⟩ := hat (Nat.zero_lt_succ rest.length)
      exact ⟨_, by rw [htext]; rfl⟩
  | call =>
    obtain ⟨arguments, harguments⟩ := joinArguments_isOk hoperands
    obtain ⟨function, hfunction⟩ := hcallee
    exact ⟨_, by rw [harguments, hfunction]; rfl⟩
  | slice =>
    rcases hslots : info.slots with ⟨low, high, cap⟩
    rw [hkind, hslots] at hcomplete
    dsimp only at hcomplete ⊢
    cases operands with
    | nil => simp at hcomplete
    | cons container bounds =>
      obtain ⟨text, htext⟩ := hat (Nat.zero_lt_succ bounds.length)
      rw [List.length_cons, Nat.add_comm 1, Nat.add_le_add_iff_right] at hcomplete
      obtain ⟨texts, htexts⟩ := sliceBounds_isOk (List.forall_mem_cons.1 hoperands).2 hcomplete
      rw [renderList] at htext ⊢
      exact ⟨_, by rw [List.tail_cons, htexts, htext]; rfl⟩

end Rendering

/-- An expression whose nodes have enough operands is shown. -/
theorem render_isOk_of_complete {e : Expression} (h : Everywhere Complete e) : ∃ text, e.render = .ok text := by
  induction h with
  | @node info operands callee here _ _ ihoperands ihcallee =>
    have hcallee : ∃ text, renderOption callee = .ok text := by
      cases callee with
      | none => exact ⟨"", rfl⟩
      | some f => exact ihcallee f rfl
    rw [render]
    exact layout_isOk ihoperands here hcallee

/-- So is one whose nodes have just the operands of their kinds. -/
theorem render_isOk {e : Expression} (h : Everywhere Formed e) : ∃ text, e.render = .ok text :=
  render_isOk_of_complete (h.imp fun _ => Formed.complete)

/-! ## Judging -/

/-- Judged on its own, an expression leaves culprits exactly if it is not constant. -/
theorem judge_fresh {e : Expression} (hcomposed : e.Composed) (hdistinct : e.Distinct) :
    (e.judge {}).1 = true ↔ (e.judge {}).2.members = [] := by
  have hmembers : (e.judge {}).2.members = e.blamedNodes := judge_members hcomposed hdistinct {} (fun _ _ => rfl)
  rw [judge_verdict hcomposed, hmembers, hdistinct.blamedNodes_eq_nil_iff hcomposed]

end Expression

open Expression

/-- Whatever graph the tokens form, the expression of a token has distinct nodes, each with the operands of its kind. So it has a
text, and judging it from no culprits ends, with the verdict that it is constant exactly if there still are none. -/
theorem expression_well_formed (s : Source) (t : Option TokenId) (e : Expression) (h : (s.expression t).result = .ok e) :
    (e.nodes.map Expression.id).Nodup ∧ (∀ n ∈ e.nodes, n.Formed) ∧ (∃ text, e.render = .ok text) ∧
      ∃ verdict culprits, (e.judgeLogged render {}).result = .ok (verdict, culprits) ∧
        (verdict = true ↔ culprits.members = []) := by
  have hformed : Everywhere Formed e := Source.formed_expression h
  have hnodup : (e.nodes.map Expression.id).Nodup := by
    rw [Source.expression_eq] at h
    obtain ⟨inner, -, hinner⟩ := Logged.bind_result_eq_ok.1 h
    cases hinner
    exact nodup_ids_numbered inner
  refine ⟨hnodup, hformed.of_mem_nodes, render_isOk hformed, (e.judge {}).1, (e.judge {}).2, ?_, ?_⟩
  · exact judgeLogged_result render_of_unknown e {}
  · exact judge_fresh (composed_of_formed hformed) (distinct_of_nodup hnodup)

namespace SharedOperand

/-- The sum `v + v`, both operands of which are one token. -/
def config : Configuration :=
  { tokens := #[{ text := "+", operand1 := some 1, operand2 := some 1 }, { text := "v", isName := true }]
    tokenList := [0, 1] }

/-- The name `v` as the node with the given identity. -/
def name (id : Nat) : Expression :=
  .leaf { id, kind := .ident, text := "v", stop := some {} }

def sum : Expression :=
  .node { id := 2, kind := .binary, op := "+", stop := some {} } [name 0, name 1] none

end SharedOperand

/-- One token that is an operand twice becomes two nodes with identities of their own. -/
theorem shared_operand_well_formed :
    (SharedOperand.config.source.expression (some 0)).result = .ok SharedOperand.sum ∧
      (SharedOperand.sum.nodes.map Expression.id).Nodup ∧ (∀ n ∈ SharedOperand.sum.nodes, n.Formed) ∧
      (∃ text, SharedOperand.sum.render = .ok text) ∧
      ∃ verdict culprits, (SharedOperand.sum.judgeLogged render {}).result = .ok (verdict, culprits) ∧
        (verdict = true ↔ culprits.members = []) := by
  have hresult : (SharedOperand.config.source.expression (some 0)).result = .ok SharedOperand.sum := by cbv
  exact ⟨hresult, expression_well_formed SharedOperand.config.source (some 0) SharedOperand.sum hresult⟩

end FormatAudit
