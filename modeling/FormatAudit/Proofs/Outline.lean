import FormatAudit.Expression.Render
import Mathlib.Data.List.Basic

/-!
# Trees apart from identities and ranges

The nodes of an expression can be numbered, each after its operands and its callee (`numbered`). The outline of an expression is
its tree without the identities and the locations of its nodes. Numbering does not change it (`outline_numbered`), and the text of
an expression depends on nothing else (`render_outline`). `Everywhere` lifts a property of nodes to all nodes of a tree; `Nests` is
the property that the range of a node contains the ranges of its operands, and numbering does not change it either
(`everywhere_nests_numbered`).
-/

namespace FormatAudit

/-- One location comes before another one of the same file. -/
def Location.Before (l m : Location) : Prop :=
  l.file = m.file ∧ (l.line < m.line ∨ l.line = m.line ∧ l.column < m.column)

instance (l m : Location) : Decidable (l.Before m) :=
  inferInstanceAs (Decidable (_ ∧ _))

/-- Of two locations only one comes before the other. -/
theorem Location.Before.not_le {l m : Location} (h : l.Before m) : ¬(m = l ∨ m.Before l) := by
  rintro (rfl | h')
  · have := h.2
    omega
  · have := h.2
    have := h'.2
    omega

namespace Expression

/-! ## Numbering -/

mutual

/-- Gives the nodes of an expression consecutive identities from `start` on: its operands, then its callee, then the node. Also
gives the first identity that is left. -/
def numberFrom (start : Nat) : Expression → Expression × Nat
  | .node info operands callee =>
    let (operands, next) := numberList start operands
    let (callee, next) := numberOption next callee
    (.node { info with id := next } operands callee, next + 1)

/-- Numbers a list of expressions one after the other. -/
def numberList (start : Nat) : List Expression → List Expression × Nat
  | [] => ([], start)
  | e :: es =>
    let (e, next) := numberFrom start e
    let (es, next) := numberList next es
    (e :: es, next)

/-- Numbers an expression that may be missing. -/
def numberOption (start : Nat) : Option Expression → Option Expression × Nat
  | none => (none, start)
  | some e =>
    let (e, next) := numberFrom start e
    (some e, next)

end

/-- The expression with every node an identity of its own. -/
def numbered (e : Expression) : Expression :=
  (e.numberFrom 0).1

/-! ## Outlines -/

mutual

/-- The tree of an expression without the identities and the locations of its nodes. -/
def outline : Expression → Expression
  | .node info operands callee =>
    .node { info with id := 0, location := {}, stop := none } (outlineList operands) (outlineOption callee)

/-- The outlines of expressions. -/
def outlineList : List Expression → List Expression
  | [] => []
  | e :: es => e.outline :: outlineList es

/-- The outline of an expression that may be missing. -/
def outlineOption : Option Expression → Option Expression
  | none => none
  | some e => some e.outline

end

mutual

/-- Numbering an expression does not change its outline. -/
theorem outline_numberFrom (start : Nat) : (e : Expression) → (e.numberFrom start).1.outline = e.outline
  | .node info operands callee => by
    simp only [numberFrom, outline, outlineList_numberList, outlineOption_numberOption]

/-- Numbering expressions one after the other does not change their outlines. -/
theorem outlineList_numberList (start : Nat) : (es : List Expression) → outlineList (numberList start es).1 = outlineList es
  | [] => rfl
  | e :: es => by simp only [numberList, outlineList, outline_numberFrom, outlineList_numberList]

theorem outlineOption_numberOption (start : Nat) :
    (e : Option Expression) → outlineOption (numberOption start e).1 = outlineOption e
  | none => rfl
  | some e => by simp only [numberOption, outlineOption, outline_numberFrom]

end

/-- Numbering changes identities only. -/
@[simp]
theorem outline_numbered (e : Expression) : e.numbered.outline = e.outline :=
  outline_numberFrom 0 e

mutual

/-- The text of an expression depends on its outline only. -/
@[simp]
theorem render_outline : (e : Expression) → e.outline.render = e.render
  | .node info operands callee => by
    rw [outline, render, render, renderList_outlineList, renderOption_outlineOption]
    rfl

/-- Expressions and their outlines have the same texts. -/
theorem renderList_outlineList : (es : List Expression) → renderList (outlineList es) = renderList es
  | [] => rfl
  | e :: es => by rw [outlineList, renderList, renderList, render_outline, renderList_outlineList]

theorem renderOption_outlineOption : (e : Option Expression) → renderOption (outlineOption e) = renderOption e
  | none => rfl
  | some e => by rw [outlineOption, renderOption, renderOption, render_outline]

end

/-- The text of an expression is told by its outline. -/
theorem render_eq_of_outline_eq {e e' : Expression} (h : e.outline = e'.outline) : e.render = e'.render := by
  rw [← render_outline e, h, render_outline]

/-- Identities are not shown in the text of an expression. -/
@[simp]
theorem render_numbered (e : Expression) : e.numbered.render = e.render :=
  render_eq_of_outline_eq (outline_numbered e)

/-! ## All nodes -/

/-- A property holds of an expression, of its operands and its callee, and so on down the tree. -/
inductive Everywhere (P : Expression → Prop) : Expression → Prop where
  | node {info : Node} {operands : List Expression} {callee : Option Expression} (here : P (.node info operands callee))
      (hoperands : ∀ x ∈ operands, Everywhere P x) (hcallee : ∀ x ∈ callee, Everywhere P x) :
      Everywhere P (.node info operands callee)

/-- What holds everywhere in a node holds of the node, in its operands and in its callee. -/
theorem everywhere_node {P : Expression → Prop} {info : Node} {operands : List Expression} {callee : Option Expression} :
    Everywhere P (.node info operands callee) ↔
      P (.node info operands callee) ∧ (∀ x ∈ operands, Everywhere P x) ∧ ∀ x ∈ callee, Everywhere P x := by
  constructor
  · rintro ⟨here, hoperands, hcallee⟩
    exact ⟨here, hoperands, hcallee⟩
  · rintro ⟨here, hoperands, hcallee⟩
    exact .node here hoperands hcallee

theorem everywhere_leaf {P : Expression → Prop} {info : Node} (here : P (.node info [] none)) :
    Everywhere P (.node info [] none) :=
  .node here (by simp) (by simp)

mutual

/-- What numbering keeps at a node it keeps everywhere. -/
theorem everywhere_numberFrom {P : Expression → Prop} (hP : ∀ (e : Expression) (start : Nat), P (e.numberFrom start).1 ↔ P e)
    (start : Nat) : (e : Expression) → (Everywhere P (e.numberFrom start).1 ↔ Everywhere P e)
  | .node info operands callee => by
    have here := hP (.node info operands callee) start
    rw [numberFrom] at here ⊢
    rw [everywhere_node, everywhere_node, here, forall_everywhere_numberList hP, forall_everywhere_numberOption hP]

/-- A property that does not look at identities holds everywhere in numbered expressions if it does in the expressions. -/
theorem forall_everywhere_numberList {P : Expression → Prop}
    (hP : ∀ (e : Expression) (start : Nat), P (e.numberFrom start).1 ↔ P e) (start : Nat) : (es : List Expression) →
    ((∀ x ∈ (numberList start es).1, Everywhere P x) ↔ ∀ x ∈ es, Everywhere P x)
  | [] => Iff.rfl
  | e :: es => by
    simp only [numberList, List.forall_mem_cons, everywhere_numberFrom hP, forall_everywhere_numberList hP]

theorem forall_everywhere_numberOption {P : Expression → Prop}
    (hP : ∀ (e : Expression) (start : Nat), P (e.numberFrom start).1 ↔ P e) (start : Nat) : (e : Option Expression) →
    ((∀ x ∈ (numberOption start e).1, Everywhere P x) ↔ ∀ x ∈ e, Everywhere P x)
  | none => Iff.rfl
  | some e => by
    simp only [numberOption, Option.mem_def, Option.some.injEq, forall_eq', everywhere_numberFrom hP]

end

/-- The range of an expression lies in the range of another one. -/
def Within (x e : Expression) : Prop :=
  (e.location = x.location ∨ e.location.Before x.location) ∧
    (x.stopLocation = e.stopLocation ∨ x.stopLocation.Before e.stopLocation)

/-- The range of an expression contains the ranges of its operands. -/
def Nests (e : Expression) : Prop :=
  ∀ x ∈ e.operands, x.Within e

/-- Numbering does not move expressions into a range or out of it. -/
theorem forall_within_numberList {e e' : Expression} (hlocation : e'.location = e.location)
    (hstop : e'.stopLocation = e.stopLocation) (start : Nat) (es : List Expression) :
    (∀ x ∈ (numberList start es).1, x.Within e') ↔ ∀ x ∈ es, x.Within e := by
  induction es generalizing start with
  | nil => simp [numberList]
  | cons x es ih =>
    obtain ⟨info, operands, callee⟩ := x
    simp only [numberList, List.forall_mem_cons, ih]
    refine and_congr_left' ?_
    simp only [Within, hlocation, hstop]
    rfl

/-- Whether a node contains its operands does not depend on identities. -/
theorem nests_numberFrom (e : Expression) (start : Nat) : (e.numberFrom start).1.Nests ↔ e.Nests := by
  obtain ⟨info, operands, callee⟩ := e
  exact forall_within_numberList rfl rfl _ operands

/-- Numbering keeps ranges as they are. -/
@[simp]
theorem everywhere_nests_numbered (e : Expression) : Everywhere Nests e.numbered ↔ Everywhere Nests e :=
  everywhere_numberFrom nests_numberFrom 0 e

end Expression

end FormatAudit
