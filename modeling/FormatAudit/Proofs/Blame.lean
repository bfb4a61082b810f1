import FormatAudit.Blame.Judge
import FormatAudit.Expression.Render
import FormatAudit.Proofs.Steps
import Mathlib.Data.List.Nodup
import Mathlib.Data.List.Pairwise

/-!
# The nodes that a judgement blames

A judgement adds nodes to the culprits and takes some of them back on the way up. What is left in the end has a description of
its own, in terms of the nodes that are judged at all (`Judged`, listed in post-order by `judgedNodes`). An expression is
constant if all its judged leaves are fixed (`Constant`). A judged node is blamed (`Blamed`) if it is not constant, unless it
is composite and has a constant operand, or a composite node without constant operands stands right above it.

The description needs that no node is judged twice and that every composite node has an operand to judge (`Composed`).
-/

namespace FormatAudit

/-- The kinds whose verdict is combined from the verdicts of operands. -/
def Kind.combines : Kind → Bool
  | .binary | .paren | .unary | .deref | .typeAssert | .slice | .keyValue | .conditional => true
  | .literal | .ident | .member | .index | .call | .unknown => false

namespace Culprits

/-- A node is no member if its identity is that of no member. -/
theorem has_eq_false_iff {cs : Culprits} {e : Expression} : cs.has e = false ↔ ∀ m ∈ cs.members, m.id ≠ e.id := by
  simp [has]

/-- A node with a new identity goes to the end. -/
theorem add_members_of_fresh {cs : Culprits} {e : Expression} (h : cs.has e = false) :
    (cs.add e).members = cs.members ++ [e] := by
  rw [add, h]
  rfl

/-- Discarding nodes keeps, in their order, the members with another identity. -/
theorem discardAll_members (es : List Expression) (cs : Culprits) :
    (cs.discardAll es).members = cs.members.filter (fun n => es.all (fun e => n.id != e.id)) := by
  induction es generalizing cs with
  | nil => simp [discardAll]
  | cons e es ih =>
    have h := ih (cs.discard e)
    simp only [discardAll, List.foldl_cons, discard, List.filter_filter] at h ⊢
    rw [h]
    exact List.filter_congr (fun n _ => by rw [List.all_cons, Bool.and_comm])

end Culprits

namespace Judgement

/-- Verdicts taken one after the other, where each is known whatever the culprits are. -/
theorem inTurn_verdicts {P : Expression → Prop} (es : List Expression)
    (h : ∀ m ∈ es, ∀ cs, (m.judge cs).1 = true ↔ P m) (cs : Culprits) :
    ((inTurn (es.map Expression.judge) cs).1.all id = true ↔ ∀ m ∈ es, P m) ∧
      ((inTurn (es.map Expression.judge) cs).1.any id = true ↔ ∃ m ∈ es, P m) := by
  induction es generalizing cs with
  | nil => simp [inTurn]
  | cons m es ih =>
    obtain ⟨hall, hany⟩ := ih (fun m' hm' => h m' (List.mem_cons_of_mem _ hm')) (m.judge cs).2
    have hm := h m List.mem_cons_self cs
    simp only [List.map_cons, inTurn, List.all_cons, List.any_cons, id_eq, Bool.and_eq_true, Bool.or_eq_true,
      List.forall_mem_cons, List.exists_mem_cons_iff, hall, hany, hm, and_self]

end Judgement

namespace Expression

/-- Of a list with one item for each operand, the items of the operands that are judged: all operands of a composite node but
the selector of a conditional, and the single operand of a conversion. -/
def judgedPart {α : Type} (e : Expression) (items : List α) : List α :=
  match e.kind with
  | .binary | .paren | .unary | .deref | .typeAssert | .slice | .keyValue => items
  | .conditional => items.tail
  | .call => if items.length == 1 && e.isConversion then items else []
  | .literal | .ident | .member | .index | .unknown => []

/-- The operands of a node that are judged with it. -/
def judgedOperands (e : Expression) : List Expression :=
  e.judgedPart e.operands

/-- The nodes that are judged with an expression. -/
inductive Judged : Expression → Expression → Prop where
  | self (e : Expression) : Judged e e
  | operand {e m n : Expression} : m ∈ e.judgedOperands → Judged m n → Judged e n

/-- A leaf that is constant by itself: a literal, or a name that stands for a declared constant. -/
def isFixedLeaf (e : Expression) : Bool :=
  match e.kind with
  | .literal => true
  | .ident | .member => e.isConstantName
  | _ => false

/-- Every judged node without judged operands is fixed. -/
def Constant (e : Expression) : Prop :=
  ∀ n, Judged e n → n.judgedOperands = [] → n.isFixedLeaf = true

/-- Every composite node that is judged has an operand that is judged. -/
def Composed (e : Expression) : Prop :=
  ∀ n, Judged e n → n.kind.combines = true → n.judgedOperands ≠ []

/-- A composite node takes the blame from its operands: none of them is constant. -/
def TakesBlame (p : Expression) : Prop :=
  p.kind.combines = true ∧ ∀ m ∈ p.judgedOperands, ¬m.Constant

/-- A judged node is left among the culprits. -/
def Blamed (root n : Expression) : Prop :=
  ¬n.Constant ∧ ¬(n.kind.combines = true ∧ ∃ m ∈ n.judgedOperands, m.Constant) ∧
    ¬∃ p, Judged root p ∧ p.TakesBlame ∧ ∃ m ∈ p.judgedOperands, m.id = n.id

mutual

/-- The judged nodes of an expression in post-order: those of its operands from the first to the last, then the node itself. -/
def judgedNodes : Expression → List Expression
  | .node info operands callee =>
    ((Expression.node info operands callee).judgedPart (judgedNodesList operands)).flatten ++ [.node info operands callee]

/-- The judged nodes of expressions. -/
def judgedNodesList : List Expression → List (List Expression)
  | [] => []
  | e :: es => judgedNodes e :: judgedNodesList es

end

/-! ## Judged nodes -/

/-- Which operands are judged does not depend on what is known about them. -/
theorem judgedPart_map {α β : Type} (e : Expression) (f : α → β) (items : List α) :
    e.judgedPart (items.map f) = (e.judgedPart items).map f := by
  unfold judgedPart
  cases e.kind <;> simp only [List.map_tail, List.map_nil, List.length_map]
  split <;> rfl

/-- The operands that are judged are in their order. -/
theorem judgedPart_sublist {α : Type} (e : Expression) (items : List α) : (e.judgedPart items).Sublist items := by
  unfold judgedPart
  cases e.kind <;> simp only [List.nil_sublist, List.Sublist.refl, List.tail_sublist]
  split
  · exact List.Sublist.refl _
  · exact List.nil_sublist _

theorem judgedPart_subset {α : Type} (e : Expression) (items : List α) : e.judgedPart items ⊆ items :=
  (judgedPart_sublist e items).subset

/-- The judged nodes of expressions are those of each of them. -/
theorem judgedNodesList_eq (es : List Expression) : judgedNodesList es = es.map judgedNodes := by
  induction es with
  | nil => rfl
  | cons e es ih => rw [judgedNodesList, ih, List.map_cons]

/-- The judged nodes are those of the judged operands, and then the node. -/
theorem judgedNodes_eq (e : Expression) : e.judgedNodes = e.judgedOperands.flatMap judgedNodes ++ [e] := by
  obtain ⟨info, operands, callee⟩ := e
  rw [judgedNodes, judgedNodesList_eq, judgedPart_map, ← List.flatMap_def]
  rfl

/-- What holds of a node whenever it holds of its operands holds of every expression. -/
theorem operandInduction {P : Expression → Prop} (step : ∀ e, (∀ m ∈ e.operands, P m) → P e) : ∀ e, P e
  | .node info operands callee => step _ (fun m (_ : m ∈ operands) => operandInduction step m)

/-- The same with the judged operands alone. -/
theorem judgedInduction {P : Expression → Prop} (step : ∀ e, (∀ m ∈ e.judgedOperands, P m) → P e) (e : Expression) : P e :=
  operandInduction (fun e ih => step e (fun m hm => ih m (judgedPart_subset e _ hm))) e

/-- The list of judged nodes has exactly the nodes that are judged. -/
theorem mem_judgedNodes_iff {e n : Expression} : n ∈ e.judgedNodes ↔ Judged e n := by
  constructor
  · induction e using judgedInduction with
    | step e ih =>
      intro hn
      rw [judgedNodes_eq, List.mem_append, List.mem_flatMap, List.mem_singleton] at hn
      rcases hn with ⟨m, hm, hn⟩ | rfl
      · exact .operand hm (ih m hm hn)
      · exact .self n
  · intro h
    induction h with
    | self e => simp [judgedNodes_eq e]
    | @operand e m n hm _ ih =>
      rw [judgedNodes_eq, List.mem_append, List.mem_flatMap]
      exact Or.inl ⟨m, hm, ih⟩

/-- A node is judged with an expression if it is the expression or is judged with one of its judged operands. -/
theorem judged_iff {e n : Expression} : Judged e n ↔ n = e ∨ ∃ m ∈ e.judgedOperands, Judged m n := by
  rw [← mem_judgedNodes_iff, judgedNodes_eq, List.mem_append, List.mem_flatMap, List.mem_singleton, or_comm]
  simp only [mem_judgedNodes_iff]

/-- A node is constant if its judged operands are, and it is fixed where it has none. -/
theorem constant_iff {e : Expression} :
    e.Constant ↔ (e.judgedOperands = [] → e.isFixedLeaf = true) ∧ ∀ m ∈ e.judgedOperands, m.Constant := by
  constructor
  · intro h
    exact ⟨h e (.self e), fun m hm n hn => h n (.operand hm hn)⟩
  · rintro ⟨hleaf, hoperands⟩ n hn
    rcases judged_iff.1 hn with rfl | ⟨m, hm, hn⟩
    · exact hleaf
    · exact hoperands m hm n hn

/-- What is judged in a composed expression is composed. -/
theorem Composed.of_mem {e m : Expression} (h : e.Composed) (hm : m ∈ e.judgedOperands) : m.Composed :=
  fun n hn => h n (.operand hm hn)

instance (e : Expression) : Decidable e.Constant :=
  decidable_of_iff (∀ n ∈ e.judgedNodes, n.judgedOperands.isEmpty = true → n.isFixedLeaf = true)
    (by simp only [mem_judgedNodes_iff, List.isEmpty_iff, Constant])

instance (e : Expression) : Decidable e.Composed :=
  decidable_of_iff (∀ n ∈ e.judgedNodes, n.kind.combines = true → n.judgedOperands.isEmpty = false)
    (by simp only [mem_judgedNodes_iff, List.isEmpty_eq_false_iff, Composed])

instance (p : Expression) : Decidable p.TakesBlame :=
  inferInstanceAs (Decidable (_ ∧ _))

instance (root n : Expression) : Decidable (root.Blamed n) :=
  decidable_of_iff (¬n.Constant ∧ ¬(n.kind.combines = true ∧ ∃ m ∈ n.judgedOperands, m.Constant) ∧
      ¬∃ p ∈ root.judgedNodes, p.TakesBlame ∧ ∃ m ∈ p.judgedOperands, m.id = n.id)
    (by simp only [mem_judgedNodes_iff, Blamed])

/-! ## The verdict -/

/-- The judgements of expressions are those of each of them. -/
theorem judgeList_eq (es : List Expression) : judgeList es = es.map judge := by
  induction es with
  | nil => rfl
  | cons e es ih => rw [judgeList, ih, List.map_cons]

/-- An expression is judged by the rule of its node, from the judgements of its operands. -/
theorem judge_eq (e : Expression) : e.judge = Judgement.ofNode e (e.operands.map judge) := by
  obtain ⟨info, operands, callee⟩ := e
  rw [judge, judgeList_eq]
  rfl

/-- The three ways to judge a node: combine the judged operands of a composite node, convert the one operand of a conversion, or
look at a leaf by itself. -/
theorem judge_cases (e : Expression) :
    (e.kind.combines = true ∧ e.judge = Judgement.combine e e.judgedOperands (e.judgedOperands.map judge)) ∨
    (e.kind.combines = false ∧ ∃ m, e.judgedOperands = [m] ∧ e.judge = Judgement.convert e m.judge) ∨
    (e.kind.combines = false ∧ e.judgedOperands = [] ∧
      e.judge = if e.isFixedLeaf = true then Judgement.constant else Judgement.blame e) := by
  rw [judge_eq]
  unfold Judgement.ofNode judgedOperands judgedPart isFixedLeaf
  cases e.kind with
  | binary | paren | unary | deref | typeAssert | slice | keyValue => exact Or.inl ⟨rfl, rfl⟩
  | conditional => exact Or.inl ⟨rfl, by simp only [List.map_tail]⟩
  | literal | ident | member | index | unknown => exact Or.inr (Or.inr ⟨rfl, rfl, by simp⟩)
  | call =>
    right
    rcases hops : e.operands with _ | ⟨m, _ | ⟨m', rest⟩⟩
    · exact Or.inr ⟨rfl, by simp, by simp⟩
    · cases hconv : e.isConversion
      · exact Or.inr ⟨rfl, by simp, by simp⟩
      · exact Or.inl ⟨rfl, m, by simp, by simp⟩
    · exact Or.inr ⟨rfl, by simp, by simp⟩

/-- The verdict says whether the expression is constant. It does not depend on the culprits. -/
theorem judge_verdict {e : Expression} (h : e.Composed) (cs : Culprits) : (e.judge cs).1 = true ↔ e.Constant := by
  induction e using judgedInduction generalizing cs with
  | step e ih =>
    have ih : ∀ m ∈ e.judgedOperands, ∀ cs, (m.judge cs).1 = true ↔ m.Constant :=
      fun m hm cs => ih m hm (h.of_mem hm) cs
    rw [constant_iff]
    rcases judge_cases e with ⟨hcomb, hjudge⟩ | ⟨-, m, hoperands, hjudge⟩ | ⟨-, hoperands, hjudge⟩
    · rw [hjudge]
      simp only [Judgement.combine, (Judgement.inTurn_verdicts _ ih cs).1]
      exact ⟨fun hall => ⟨fun hnil => absurd hnil (h e (.self e) hcomb), hall⟩, fun hc => hc.2⟩
    · rw [hjudge, hoperands]
      have hm := ih m (by simp [hoperands]) cs
      simp only [Judgement.convert]
      split
      · simpa using hm.1 ‹_›
      · simpa using mt hm.2 ‹_›
    · rw [hjudge, hoperands]
      split
      · simp [Judgement.constant, *]
      · simp [Judgement.blame, *]

/-! ## The culprits -/

/-- No two judged nodes have one identity. -/
def Distinct (e : Expression) : Prop :=
  (e.judgedNodes.map id).Nodup

instance (e : Expression) : Decidable e.Distinct :=
  inferInstanceAs (Decidable (List.Nodup _))

/-- The judged nodes that are left among the culprits, in post-order. -/
def blamedNodes (e : Expression) : List Expression :=
  e.judgedNodes.filter (fun n => decide (e.Blamed n))

/-- Judging reaches through the nodes on the way. -/
theorem Judged.trans {a b c : Expression} (hab : Judged a b) (hbc : Judged b c) : Judged a c := by
  induction hab with
  | self => exact hbc
  | operand hm _ ih => exact .operand hm (ih hbc)

/-- An operand of a judged node stands below one of the operands at the top. -/
theorem Judged.exists_operand {e p c : Expression} (hp : Judged e p) (hc : c ∈ p.judgedOperands) :
    ∃ m ∈ e.judgedOperands, Judged m c := by
  cases hp with
  | self => exact ⟨c, hc, .self c⟩
  | operand hm hp => exact ⟨_, hm, hp.trans (.operand hc (.self c))⟩

section Distinct

variable {e : Expression} (h : e.Distinct)

include h

/-- The nodes below an expression with distinct identities have distinct identities. -/
theorem Distinct.nodup_operands : ((e.judgedOperands.flatMap judgedNodes).map id).Nodup := by
  rw [Distinct, judgedNodes_eq, List.map_append] at h
  exact (List.nodup_append.1 h).1

/-- An operand of an expression with distinct identities has distinct identities. -/
theorem Distinct.of_mem {m : Expression} (hm : m ∈ e.judgedOperands) : m.Distinct := by
  have hnodup := h.nodup_operands
  rw [List.map_flatMap, List.nodup_flatMap] at hnodup
  exact hnodup.1 m hm

/-- The node at the top shares its identity with no node below it. -/
theorem Distinct.id_ne {m n : Expression} (hm : m ∈ e.judgedOperands) (hn : Judged m n) : n.id ≠ e.id := by
  rw [Distinct, judgedNodes_eq, List.map_append] at h
  exact (List.nodup_append.1 h).2.2 n.id
    (List.mem_map_of_mem (List.mem_flatMap.2 ⟨m, hm, mem_judgedNodes_iff.2 hn⟩)) e.id (by simp)

/-- Nodes with one identity stand below one operand. -/
theorem Distinct.operand_unique {m m' n n' : Expression} (hm : m ∈ e.judgedOperands) (hm' : m' ∈ e.judgedOperands)
    (hn : Judged m n) (hn' : Judged m' n') (hid : n.id = n'.id) : m = m' := by
  have hnodup := h.nodup_operands
  rw [List.map_flatMap, List.nodup_flatMap] at hnodup
  have hsymm : Std.Symm (Function.onFun List.Disjoint fun m : Expression => m.judgedNodes.map id) :=
    ⟨fun _ _ hdisjoint _ hn hn' => hdisjoint hn' hn⟩
  by_contra hne
  have hdisjoint := hnodup.2.forall hm hm' hne
  exact hdisjoint (List.mem_map_of_mem (mem_judgedNodes_iff.2 hn)) (hid ▸ List.mem_map_of_mem (mem_judgedNodes_iff.2 hn'))

/-- Below an operand, the node above takes away the blame of the operands themselves and of nothing else. -/
theorem Distinct.blamed_iff {m n : Expression} (hm : m ∈ e.judgedOperands) (hn : Judged m n) :
    e.Blamed n ↔ m.Blamed n ∧ ¬(e.TakesBlame ∧ ∃ c ∈ e.judgedOperands, c.id = n.id) := by
  have habove : (∃ p, Judged e p ∧ p.TakesBlame ∧ ∃ c ∈ p.judgedOperands, c.id = n.id) ↔
      (e.TakesBlame ∧ ∃ c ∈ e.judgedOperands, c.id = n.id) ∨
        ∃ p, Judged m p ∧ p.TakesBlame ∧ ∃ c ∈ p.judgedOperands, c.id = n.id := by
    constructor
    · rintro ⟨p, hp, htakes, c, hc, hid⟩
      rcases judged_iff.1 hp with rfl | ⟨m', hm', hp⟩
      · exact Or.inl ⟨htakes, c, hc, hid⟩
      · have hbelow : Judged m' c := hp.trans (.operand hc (.self c))
        obtain rfl := h.operand_unique hm' hm hbelow hn hid
        exact Or.inr ⟨p, hp, htakes, c, hc, hid⟩
    · rintro (⟨htakes, hc⟩ | ⟨p, hp, hrest⟩)
      · exact ⟨e, .self e, htakes, hc⟩
      · exact ⟨p, .operand hm hp, hrest⟩
  unfold Blamed
  rw [habove, not_or]
  tauto

/-- Nothing stands above the node at the top, so it keeps its own blame. -/
theorem Distinct.blamed_self_iff :
    e.Blamed e ↔ ¬e.Constant ∧ ¬(e.kind.combines = true ∧ ∃ m ∈ e.judgedOperands, m.Constant) := by
  constructor
  · rintro ⟨hconstant, hshares, -⟩
    exact ⟨hconstant, hshares⟩
  · rintro ⟨hconstant, hshares⟩
    refine ⟨hconstant, hshares, ?_⟩
    rintro ⟨p, hp, -, c, hc, hid⟩
    obtain ⟨m, hm, hbelow⟩ := hp.exists_operand hc
    exact h.id_ne hm hbelow hid

/-- The blamed nodes of an expression from those of its operands. -/
theorem Distinct.blamedNodes_eq :
    e.blamedNodes = (e.judgedOperands.flatMap blamedNodes).filter
        (fun n => decide ¬(e.TakesBlame ∧ ∃ c ∈ e.judgedOperands, c.id = n.id)) ++
      if e.Blamed e then [e] else [] := by
  have hoperand : ∀ m ∈ e.judgedOperands, m.judgedNodes.filter (fun n => decide (e.Blamed n)) =
      m.blamedNodes.filter (fun n => decide ¬(e.TakesBlame ∧ ∃ c ∈ e.judgedOperands, c.id = n.id)) := by
    intro m hm
    rw [blamedNodes, List.filter_filter]
    refine List.filter_congr (fun n hn => ?_)
    rw [← Bool.decide_and, decide_eq_decide, and_comm]
    exact h.blamed_iff hm (mem_judgedNodes_iff.1 hn)
  unfold blamedNodes at hoperand ⊢
  rw [judgedNodes_eq, List.filter_append, List.filter_flatMap, List.filter_flatMap, List.filter_singleton]
  congr 1
  · exact List.flatMap_congr hoperand
  · exact Bool.cond_decide _ _ _

/-- A node that does not take the blame leaves the culprits of its operands as they are. -/
theorem Distinct.blamedNodes_of_not_takesBlame (hno : ¬e.TakesBlame) :
    e.blamedNodes = e.judgedOperands.flatMap blamedNodes ++ if e.Blamed e then [e] else [] := by
  rw [h.blamedNodes_eq, List.filter_eq_self.2]
  intro n _
  exact decide_eq_true (fun htakes => hno htakes.1)

/-- A node that takes the blame is itself blamed, in place of its operands. -/
theorem Distinct.blamedNodes_of_takesBlame (htakes : e.TakesBlame) (hne : e.judgedOperands ≠ []) :
    e.blamedNodes =
      (e.judgedOperands.flatMap blamedNodes).filter (fun n => e.judgedOperands.all (fun c => n.id != c.id)) ++ [e] := by
  obtain ⟨m, hm⟩ := List.exists_mem_of_ne_nil _ hne
  have hself : e.Blamed e :=
    h.blamed_self_iff.2 ⟨fun hconstant => htakes.2 m hm ((constant_iff.1 hconstant).2 m hm),
      fun hshares => by obtain ⟨c, hc, hconstant⟩ := hshares.2; exact htakes.2 c hc hconstant⟩
  rw [h.blamedNodes_eq, if_pos hself]
  congr 1
  refine List.filter_congr (fun n _ => ?_)
  rw [Bool.eq_iff_iff, decide_eq_true_eq, List.all_eq_true]
  constructor
  · intro hnot c hc
    exact bne_iff_ne.2 (fun hid => hnot ⟨htakes, c, hc, hid.symm⟩)
  · rintro hall ⟨-, c, hc, hid⟩
    exact bne_iff_ne.1 (hall c hc) hid.symm

/-- A node that is not composite is blamed unless it is constant, and so are its operands. -/
theorem Distinct.blamedNodes_of_not_combines (hcomb : e.kind.combines = false) :
    e.blamedNodes = e.judgedOperands.flatMap blamedNodes ++ if e.Constant then [] else [e] := by
  have hblamed : e.Blamed e ↔ ¬e.Constant := by simp [h.blamed_self_iff, hcomb]
  rw [h.blamedNodes_of_not_takesBlame (fun htakes => Bool.false_ne_true (hcomb.symm.trans htakes.1))]
  simp only [hblamed, ite_not]

/-- Nothing is blamed in a constant expression, and something is in any other one: the blame that a composite node leaves on an
operand, because another operand is constant, is found below. -/
theorem Distinct.blamedNodes_eq_nil_iff (hcomposed : e.Composed) : e.blamedNodes = [] ↔ e.Constant := by
  constructor
  · induction e using judgedInduction with
    | step e ih =>
      intro hnil
      by_contra hconstant
      by_cases hshares : e.kind.combines = true ∧ ∃ m ∈ e.judgedOperands, m.Constant
      · obtain ⟨hcomb, c, hc, hcconstant⟩ := hshares
        have hno : ¬e.TakesBlame := fun htakes => htakes.2 c hc hcconstant
        rw [h.blamedNodes_of_not_takesBlame hno, List.append_eq_nil_iff, List.flatMap_eq_nil_iff] at hnil
        refine hconstant (constant_iff.2 ⟨fun hleaf => absurd hleaf (hcomposed e (.self e) hcomb), fun m hm => ?_⟩)
        exact ih m hm (h.of_mem hm) (hcomposed.of_mem hm) (hnil.1 m hm)
      · have hself : e ∈ e.blamedNodes :=
          List.mem_filter.2 ⟨mem_judgedNodes_iff.2 (.self e), decide_eq_true (h.blamed_self_iff.2 ⟨hconstant, hshares⟩)⟩
        rw [hnil] at hself
        cases hself
  · intro hconstant
    refine List.filter_eq_nil_iff.2 (fun n hn hblamed => ?_)
    have hjudged : Judged e n := mem_judgedNodes_iff.1 hn
    exact (of_decide_eq_true hblamed).1 (fun n' hn' => hconstant n' (hjudged.trans hn'))

end Distinct

end Expression

namespace Judgement

/-- Operands judged one after the other: if each adds its own blamed nodes to culprits that have none of its judged nodes, then
together they add theirs in their order. -/
theorem inTurn_members (es : List Expression) (hnodup : ((es.flatMap Expression.judgedNodes).map Expression.id).Nodup)
    (h : ∀ m ∈ es, ∀ cs : Culprits, (∀ n, m.Judged n → cs.has n = false) →
      (m.judge cs).2.members = cs.members ++ m.blamedNodes)
    (cs : Culprits) (hfresh : ∀ m ∈ es, ∀ n, m.Judged n → cs.has n = false) :
    (inTurn (es.map Expression.judge) cs).2.members = cs.members ++ es.flatMap Expression.blamedNodes := by
  induction es generalizing cs with
  | nil => simp [inTurn]
  | cons m es ih =>
    rw [List.flatMap_cons, List.map_append, List.nodup_append] at hnodup
    have hm := h m List.mem_cons_self cs (hfresh m List.mem_cons_self)
    have hfresh' : ∀ m' ∈ es, ∀ n, m'.Judged n → (m.judge cs).2.has n = false := by
      intro m' hm' n hn
      rw [Culprits.has_eq_false_iff, hm, List.forall_mem_append]
      refine ⟨Culprits.has_eq_false_iff.1 (hfresh m' (List.mem_cons_of_mem _ hm') n hn), fun k hk => ?_⟩
      exact hnodup.2.2 k.id (List.mem_map_of_mem (List.mem_of_mem_filter hk)) n.id
        (List.mem_map_of_mem (List.mem_flatMap.2 ⟨m', hm', Expression.mem_judgedNodes_iff.2 hn⟩))
    have hrest := ih hnodup.2.1 (fun m' hm' => h m' (List.mem_cons_of_mem _ hm')) (m.judge cs).2 hfresh'
    simp only [List.map_cons, inTurn, hrest, hm, List.flatMap_cons, List.append_assoc]

end Judgement

namespace Expression

/-- A node is added at the end of culprits that come from before its judgement or from its operands. -/
theorem Distinct.add_members {e : Expression} (h : e.Distinct) {cs ds : Culprits} (hfresh : cs.has e = false)
    (hds : ds.members ⊆ cs.members ++ e.judgedOperands.flatMap blamedNodes) : (ds.add e).members = ds.members ++ [e] := by
  refine Culprits.add_members_of_fresh (Culprits.has_eq_false_iff.2 (fun n hn => ?_))
  rcases List.mem_append.1 (hds hn) with hn | hn
  · exact Culprits.has_eq_false_iff.1 hfresh n hn
  · obtain ⟨m, hm, hn⟩ := List.mem_flatMap.1 hn
    exact h.id_ne hm (mem_judgedNodes_iff.1 (List.mem_of_mem_filter hn))

/-- A composite node, judged after its operands have added their blamed nodes: it takes the blame if none of them is constant. -/
theorem combine_members {e : Expression} (hcomb : e.kind.combines = true) (hcomposed : e.Composed) (hdistinct : e.Distinct)
    {cs : Culprits} (hfresh : ∀ n, Judged e n → cs.has n = false)
    (hoperands : (Judgement.inTurn (e.judgedOperands.map judge) cs).2.members =
      cs.members ++ e.judgedOperands.flatMap blamedNodes) :
    (Judgement.combine e e.judgedOperands (e.judgedOperands.map judge) cs).2.members = cs.members ++ e.blamedNodes := by
  have hany := (Judgement.inTurn_verdicts e.judgedOperands (fun m hm cs => judge_verdict (hcomposed.of_mem hm) cs) cs).2
  simp only [Judgement.combine]
  split
  · obtain ⟨m, hm, hconstant⟩ := hany.1 ‹_›
    have hblamed : ¬e.Blamed e := fun hblamed => hblamed.2.1 ⟨hcomb, m, hm, hconstant⟩
    rw [hdistinct.blamedNodes_of_not_takesBlame (fun htakes => htakes.2 m hm hconstant), if_neg hblamed, List.append_nil,
      hoperands]
  · have htakes : e.TakesBlame := ⟨hcomb, fun m hm hconstant => absurd (hany.2 ⟨m, hm, hconstant⟩) ‹_›⟩
    have hkept : cs.members.filter (fun n => e.judgedOperands.all (fun c => n.id != c.id)) = cs.members := by
      refine List.filter_eq_self.2 (fun n hn => List.all_eq_true.2 (fun c hc => bne_iff_ne.2 ?_))
      exact Culprits.has_eq_false_iff.1 (hfresh c (.operand hc (.self c))) n hn
    have hadd := hdistinct.add_members (hfresh e (.self e))
      (hoperands ▸ Culprits.discardAll_members e.judgedOperands _ ▸ List.filter_subset_self _)
    rw [hadd, Culprits.discardAll_members, hoperands, List.filter_append, hkept,
      hdistinct.blamedNodes_of_takesBlame htakes (hcomposed e (.self e) hcomb), List.append_assoc]

/-- A judgement adds the blamed nodes of an expression to culprits that have none of its judged nodes. -/
theorem judge_members {e : Expression} (hcomposed : e.Composed) (hdistinct : e.Distinct) (cs : Culprits)
    (hfresh : ∀ n, Judged e n → cs.has n = false) : (e.judge cs).2.members = cs.members ++ e.blamedNodes := by
  induction e using judgedInduction generalizing cs with
  | step e ih =>
    have ih : ∀ m ∈ e.judgedOperands, ∀ cs : Culprits, (∀ n, Judged m n → cs.has n = false) →
        (m.judge cs).2.members = cs.members ++ m.blamedNodes :=
      fun m hm cs => ih m hm (hcomposed.of_mem hm) (hdistinct.of_mem hm) cs
    have hfresh' : ∀ m ∈ e.judgedOperands, ∀ n, Judged m n → cs.has n = false :=
      fun m hm n hn => hfresh n (.operand hm hn)
    rcases judge_cases e with ⟨hcomb, hjudge⟩ | ⟨hcomb, m, hoperands, hjudge⟩ | ⟨hcomb, hoperands, hjudge⟩
    · rw [hjudge]
      exact combine_members hcomb hcomposed hdistinct hfresh
        (Judgement.inTurn_members e.judgedOperands hdistinct.nodup_operands ih cs hfresh')
    · have hm : m ∈ e.judgedOperands := by simp [hoperands]
      have hconstant : e.Constant ↔ (m.judge cs).1 = true := by
        rw [judge_verdict (hcomposed.of_mem hm), constant_iff, hoperands]
        simp
      have hmembers := ih m hm cs (hfresh' m hm)
      have hadd : ((m.judge cs).2.add e).members = (m.judge cs).2.members ++ [e] :=
        hdistinct.add_members (hfresh e (.self e)) (by simp [hmembers, hoperands])
      rw [hdistinct.blamedNodes_of_not_combines hcomb, hoperands, hjudge, Judgement.convert]
      simp only [hconstant]
      split
      · simp [hmembers]
      · simp [hadd, hmembers]
    · have hconstant : e.Constant ↔ e.isFixedLeaf = true := by
        rw [constant_iff, hoperands]
        simp
      have hadd := hdistinct.add_members (hfresh e (.self e)) (List.subset_append_left _ _)
      rw [hdistinct.blamedNodes_of_not_combines hcomb, hoperands, hjudge]
      simp only [hconstant]
      split
      · simp [Judgement.constant]
      · simp [Judgement.blame, hadd]

/-! ## The judgement with its notes -/

/-- The opaque parts of expressions are those of each of them. -/
theorem opaquePartsList_eq (es : List Expression) : opaquePartsList es = es.map opaqueParts := by
  induction es with
  | nil => rfl
  | cons e es ih => rw [opaquePartsList, ih, List.map_cons]

/-- The opaque parts of a node are those of its judged operands, and the node itself if it is opaque. -/
theorem opaqueOfNode_eq (e : Expression) (items : List (List Expression)) :
    e.opaqueOfNode items = (e.judgedPart items).flatten ++ if e.kind = .unknown then [e] else [] := by
  unfold opaqueOfNode judgedPart
  cases e.kind <;> simp
  split <;> rfl

/-- The nodes that are noted are the judged nodes of unknown kind. -/
theorem opaqueParts_eq (e : Expression) : e.opaqueParts = e.judgedNodes.filter (fun n => decide (n.kind = .unknown)) := by
  induction e using judgedInduction with
  | step e ih =>
    have hparts : e.opaqueParts = e.opaqueOfNode (e.operands.map opaqueParts) := by
      obtain ⟨info, operands, callee⟩ := e
      rw [opaqueParts, opaquePartsList_eq]
      rfl
    rw [hparts, opaqueOfNode_eq, judgedPart_map, ← List.flatMap_def, judgedNodes_eq, List.filter_append,
      List.filter_flatMap, List.filter_singleton, Bool.cond_decide]
    exact congrArg (· ++ _) (List.flatMap_congr ih)

/-- Opaque parts that can be shown are noted without a failure. -/
theorem noteOpaque_result {printer : Printer} {es : List Expression} (h : ∀ e ∈ es, ∃ text, printer e = .ok text) :
    (noteOpaque printer es).result = .ok () := by
  induction es with
  | nil => rfl
  | cons e es ih =>
    obtain ⟨text, htext⟩ := h e List.mem_cons_self
    simp [noteOpaque, htext, ih (fun e' he' => h e' (List.mem_cons_of_mem _ he'))]

/-- A printer that has a text for the judged nodes of unknown kind does not stop the judgement. -/
theorem judgeLogged_result_of_judged {printer : Printer} {e : Expression}
    (h : ∀ n, Judged e n → n.kind = .unknown → ∃ text, printer n = .ok text) (cs : Culprits) :
    (e.judgeLogged printer cs).result = .ok (e.judge cs) := by
  have hnotes : (noteOpaque printer e.opaqueParts).result = .ok () := by
    refine noteOpaque_result (fun n hn => ?_)
    rw [opaqueParts_eq, List.mem_filter, decide_eq_true_eq] at hn
    exact h n (mem_judgedNodes_iff.1 hn.1) hn.2
  rw [judgeLogged, Logged.result_bind, hnotes]
  rfl

/-- A printer that has a text for nodes of unknown kind never stops a judgement. -/
theorem judgeLogged_result {printer : Printer} (h : ∀ n : Expression, n.kind = .unknown → ∃ text, printer n = .ok text)
    (e : Expression) (cs : Culprits) : (e.judgeLogged printer cs).result = .ok (e.judge cs) :=
  judgeLogged_result_of_judged (fun n _ => h n) cs

/-- A node of unknown kind has its text as its rendering. -/
theorem render_of_unknown (n : Expression) (h : n.kind = .unknown) : ∃ text, n.render = .ok text := by
  obtain ⟨info, operands, callee⟩ := n
  have hkind : info.kind = .unknown := h
  exact ⟨info.text, by simp [render, layout, hkind]⟩

/-- Judging an expression in which no node is judged twice and every composite node has a judged operand says whether all its
judged leaves are fixed. Culprits that have none of the judged nodes stay as they are, and after them come, in post-order, the
judged nodes that are not constant, are not composite with a constant operand, and are not an operand of a composite node that
takes the blame. -/
theorem judge_blames_exactly (printer : Printer)
    (hprinter : ∀ n : Expression, n.kind = .unknown → ∃ text, printer n = .ok text)
    (e : Expression) (cs : Culprits) (hcomposed : e.Composed) (hdistinct : e.Distinct)
    (hfresh : ∀ n, Judged e n → cs.has n = false) :
    ∃ verdict culprits, (e.judgeLogged printer cs).result = .ok (verdict, culprits) ∧
      (verdict = true ↔ ∀ n, Judged e n → n.judgedOperands = [] → n.isFixedLeaf = true) ∧
      culprits.members = cs.members ++ e.judgedNodes.filter (fun n => decide (e.Blamed n)) :=
  ⟨(e.judge cs).1, (e.judge cs).2, judgeLogged_result hprinter e cs, judge_verdict hcomposed cs,
    judge_members hcomposed hdistinct cs hfresh⟩

namespace Choice

/-- The expression `flag ? (v + "x") : w`. -/
def choice : Expression :=
  let name (id : Nat) (text : String) : Expression := leaf { id, kind := .ident, text }
  let sum : Expression := .node { id := 5, kind := .binary, op := "+" } [name 3 "v", leaf { id := 4, kind := .literal }] none
  .node { id := 1, kind := .conditional } [name 2 "flag", .node { id := 6, kind := .paren } [sum] none, name 7 "w"] none

/-- A culprit from before. -/
def earlier : Culprits :=
  { members := [leaf { id := 9, kind := .ident, text := "u" }] }

/-- The culprits that were there before have other identities than the nodes of the choice. -/
theorem choice_fresh : ∀ n, Judged choice n → earlier.has n = false := by
  intro n hn
  have hnodes : ∀ n ∈ choice.judgedNodes, earlier.has n = false := by decide
  exact hnodes n (mem_judgedNodes_iff.2 hn)

end Choice

/-- The whole choice takes the blame from its branches, but not from `v` inside the first one. The selector is not judged. -/
theorem choice_blames_variable_and_whole :
    Choice.choice.Composed ∧ Choice.choice.Distinct ∧ (∀ n, Judged Choice.choice n → Choice.earlier.has n = false) ∧
      ∃ culprits, (Choice.choice.judgeLogged render Choice.earlier).result = .ok (false, culprits) ∧
        culprits.members.map id = [9, 3, 1] := by
  have hcomposed : Choice.choice.Composed := by decide
  have hdistinct : Choice.choice.Distinct := by decide
  have hnot : ¬Choice.choice.Constant := by decide
  obtain ⟨verdict, culprits, hresult, hverdict, hculprits⟩ :=
    judge_blames_exactly render render_of_unknown Choice.choice Choice.earlier hcomposed hdistinct Choice.choice_fresh
  obtain rfl : verdict = false := Bool.eq_false_iff.2 (fun h => hnot (hverdict.1 h))
  refine ⟨hcomposed, hdistinct, Choice.choice_fresh, culprits, hresult, ?_⟩
  rw [hculprits]
  decide

end Expression

end FormatAudit
