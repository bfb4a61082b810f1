import FormatAudit.Proofs.Forms
import FormatAudit.Proofs.Outline

/-!
# Identities

A program run gives a node its identity when it makes it. The expression it makes of a token is the tree of the token with its
nodes numbered in the order in which they are made (`expression_eq`): operands first, then the callee, then the node. So what is
said of trees carries over to expressions, and that no two nodes of an expression have the same identity is a fact about
numbering (`Expression.nodup_ids_numbered`).
-/

namespace FormatAudit

open Expression

/-- A numbering computation does what a plain one does and numbers what it gives. -/
def Numbers {α : Type} (number : Nat → α → α × Nat) (x : Numbering α) (y : Logged Fault α) : Prop :=
  ∀ start, x.run start = number start <$> y

/-- What follows is given the numbered value and the first identity that is left. -/
theorem Numbers.run_bind {α β : Type} {number : Nat → α → α × Nat} {x : Numbering α} {y : Logged Fault α}
    (h : Numbers number x y) (f : α → Numbering β) (start : Nat) :
    (x >>= f).run start = y >>= fun a => (f (number start a).1).run (number start a).2 := by
  rw [StateT.run_bind, h start, bind_map_left]

/-- What is only read takes no identity. -/
theorem run_liftM_bind {α β : Type} (x : Except Fault α) (f : α → Numbering β) (start : Nat) :
    ((liftM x : Numbering α) >>= f).run start = (liftM x : Logged Fault α) >>= fun a => (f a).run start :=
  StateT.run_bind_lift _ f start

/-- A record takes no identity. -/
theorem run_note_bind {β : Type} (r : LogRecord) (f : Unit → Numbering β) (start : Nat) :
    ((Making.note r : Numbering Unit) >>= f).run start = Logged.note r >>= fun a => (f a).run start :=
  StateT.run_bind_lift _ f start

/-- Two expressions are numbered one after the other. -/
theorem numbers_mapList {α : Type} {f : α → Numbering Expression} {g : α → Logged Fault Expression}
    (h : ∀ a, Numbers numberFrom (f a) (g a)) (as : List α) : Numbers numberList (mapList f as) (mapList g as) := by
  induction as with
  | nil => intro start; rfl
  | cons a as ih =>
    intro start
    rw [mapList, mapList, (h a).run_bind, map_bind]
    refine bind_congr fun e => ?_
    rw [ih.run_bind, map_bind]
    rfl

/-- Numbering keeps the number of expressions. -/
theorem Expression.length_numberList (es : List Expression) (start : Nat) : (numberList start es).1.length = es.length := by
  induction es generalizing start with
  | nil => rfl
  | cons e es ih => exact congrArg (· + 1) (ih _)

namespace Source

variable {s : Source}

/-- An opaque node gets the next number. -/
theorem numbers_opaqueNode (e : Extent) : Numbers numberFrom (s.opaqueNode e) (s.opaqueNode e) := by
  intro start
  rw [opaqueNode, opaqueNode, run_liftM_bind, map_bind]
  refine bind_congr fun location => ?_
  rw [run_liftM_bind, map_bind]
  rfl

/-- Parentheses are numbered after what stands in them. -/
theorem run_enclose (count : Nat) (before after : Option TokenId) (e : Expression) (start : Nat) :
    (s.enclose (m := Numbering) count before after (e.numberFrom start).1).run (e.numberFrom start).2 =
      numberFrom start <$> s.enclose (m := Logged Fault) count before after e := by
  fun_induction enclose (m := Logged Fault) s count before after e with
  | case1 count before after e hgroup ih =>
    rw [enclose, if_pos hgroup, run_liftM_bind, map_bind]
    refine bind_congr fun location => ?_
    rw [run_liftM_bind, map_bind]
    refine bind_congr fun stop => ?_
    exact ih (.node { kind := .paren, location, stop := some stop } [e] none)
  | case2 count before after e hgroup =>
    rw [enclose, if_neg hgroup]
    rfl
  | case3 =>
    rw [enclose]
    · rfl
    · assumption

/-- The parentheses around an expression get their numbers after it, from the inside to the outside. -/
theorem run_inParens (extent : Extent) (e : Expression) (start : Nat) :
    (s.inParens (m := Numbering) extent (e.numberFrom start).1).run (e.numberFrom start).2 =
      numberFrom start <$> s.inParens (m := Logged Fault) extent e :=
  run_enclose _ _ _ e start

variable {below : Below Numbering} {tree : Below (Logged Fault)}

section Forms

variable (h : ∀ t, Numbers numberFrom (below t) (tree t))

include h

/-- The operands of a pair are numbered from left to right and before the node. -/
theorem numbers_ofPair (n : Node) (left right : Option TokenId) :
    Numbers numberFrom (ofPair below n left right) (ofPair tree n left right) := by
  intro start
  rw [ofPair, ofPair, (h left).run_bind, map_bind]
  refine bind_congr fun l => ?_
  rw [(h right).run_bind, map_bind]
  rfl

/-- A cast numbers what it converts, then the name of its type, then itself. -/
theorem numbers_ofCast (t : Token) (location stop : Location) :
    Numbers numberFrom (s.ofCast below t location stop) (s.ofCast tree t location stop) := by
  intro start
  rw [ofCast, ofCast, run_liftM_bind, map_bind]
  refine bind_congr fun place => ?_
  rw [(h t.operand1).run_bind, map_bind]
  rfl

/-- The symbol of a callee is looked up again without touching its identity. -/
theorem numbers_calleeOf (fn : TokenId) : Numbers numberFrom (s.calleeOf below fn) (s.calleeOf tree fn) := by
  intro start
  rw [calleeOf, calleeOf]
  split
  · rw [run_liftM_bind, map_bind]
    refine bind_congr fun symbol => ?_
    rw [run_liftM_bind, map_bind]
    refine bind_congr fun location => ?_
    exact run_inParens _ (.ident (s.config.token fn).text symbol location) start
  · rw [(h (some fn)).run_bind, map_bind]
    refine bind_congr fun callee => ?_
    -- a member without a symbol is resolved once more, as the name of what is called
    obtain ⟨info, operands, f⟩ := callee
    show ((if info.kind = .member && info.symbol.isNone then _ else _) : Numbering Expression).run _ =
      numberFrom start <$> (if info.kind = .member && info.symbol.isNone then _ else _)
    split
    · rw [run_liftM_bind, map_bind]
      rfl
    · rfl

/-- A call numbers its arguments, then what is called, then itself. -/
theorem numbers_ofCall (t : Token) (fn : TokenId) (location stop : Location) :
    Numbers numberFrom (s.ofCall below t fn location stop) (s.ofCall tree t fn location stop) := by
  intro start
  rw [ofCall, ofCall, (numbers_mapList (fun a => h (some a)) _).run_bind, map_bind]
  refine bind_congr fun arguments => ?_
  -- which cast a keyword stands for depends on how many arguments there are, and numbering keeps that
  rw [length_numberList]
  dsimp only
  split
  · split
    · rfl
    · rw [run_liftM_bind, map_bind]
      rfl
  · rw [(numbers_calleeOf h fn).run_bind, map_bind]
    rfl

/-- A member access numbers the object before itself. -/
theorem numbers_ofMember (t : Token) (name : TokenId) (n : Node) :
    Numbers numberFrom (s.ofMember below t name n) (s.ofMember tree t name n) := by
  intro start
  rw [ofMember, ofMember]
  cases (if t.operand2 = some name then t.operand1 else none) with
  | none =>
    rw [pure_bind, pure_bind, run_liftM_bind, map_bind]
    rfl
  | some o =>
    dsimp only
    rw [(h (some o)).run_bind, map_bind]
    refine bind_congr fun object => ?_
    rw [pure_bind, pure_bind, run_liftM_bind, map_bind]
    rfl

/-- A unary operation numbers its operand before itself. -/
theorem numbers_ofUnary (t operand : TokenId) (n : Node) :
    Numbers numberFrom (s.ofUnary below t operand n) (s.ofUnary tree t operand n) := by
  intro start
  rw [ofUnary, ofUnary, (h (some operand)).run_bind, map_bind]
  refine bind_congr fun inner => ?_
  split
  · rfl
  · rw [run_liftM_bind, map_bind]
    refine bind_congr fun operandKey => ?_
    rw [run_liftM_bind, map_bind]
    rfl

/-- Every form of token numbers what it makes as the tree is numbered. -/
theorem numbers_ofForm (t : TokenId) (e : Extent) (location stop : Location) (form : Form) :
    Numbers numberFrom (s.ofForm below t e location stop form) (s.ofForm tree t e location stop form) := by
  cases form with
  | literal => intro start; rfl
  | name =>
    intro start
    rw [ofForm, ofForm, run_liftM_bind, map_bind]
    rfl
  | cast => exact numbers_ofCast h _ _ _
  | call fn => exact numbers_ofCall h _ _ _ _
  | subscript => exact numbers_ofPair h _ _ _
  | member name => exact numbers_ofMember h _ _ _
  | conditional =>
    intro start
    rw [ofForm, ofForm, (h _).run_bind, map_bind]
    refine bind_congr fun selector => ?_
    rw [(h _).run_bind, map_bind]
    refine bind_congr fun first => ?_
    rw [(h _).run_bind, map_bind]
    rfl
  | unary operand => exact numbers_ofUnary h _ _ _
  | binary left right => exact numbers_ofPair h _ _ _
  | unmodelled => exact numbers_opaqueNode e

/-- If what stands below a token is numbered as it is made, so is the expression of the token. -/
theorem numbers_level (t : TokenId) : Numbers numberFrom (s.level below t) (s.level tree t) := by
  intro start
  rw [level, level, run_liftM_bind, map_bind]
  refine bind_congr fun e => ?_
  rw [ofTokenNode_eq, ofTokenNode_eq, bind_assoc, bind_assoc, run_liftM_bind, map_bind]
  refine bind_congr fun location => ?_
  rw [bind_assoc, bind_assoc, run_liftM_bind, map_bind]
  refine bind_congr fun stop => ?_
  rw [(numbers_ofForm h t e location stop _).run_bind, map_bind]
  exact bind_congr fun node => run_inParens e node start

end Forms

/-- At every depth nodes are numbered as they are made. -/
theorem numbers_ofTokenWithin (steps : Nat) (t : Option TokenId) :
    Numbers numberFrom (s.ofTokenWithin steps t) (s.treeWithin steps t) := by
  induction steps generalizing t with
  | zero =>
    intro start
    rw [treeWithin, ofTokenWithin, ofTokenWithin, run_liftM_bind, map_bind]
    refine bind_congr fun e => ?_
    rw [run_liftM_bind, map_bind]
    refine bind_congr fun location => ?_
    rw [run_note_bind, map_bind]
    refine bind_congr fun _ => ?_
    rw [(numbers_opaqueNode e).run_bind, map_bind]
    exact bind_congr fun node => run_inParens e node start
  | succ steps ih =>
    cases t with
    | none => intro start; rfl
    | some t => exact numbers_level ih t

/-- The expression of a token is its tree with the nodes numbered. -/
theorem expression_eq (s : Source) (t : Option TokenId) :
    s.expression t = (do
      let e ← s.treeWithin (depthLimit + 1) t
      pure e.numbered) := by
  rw [expression, numbers_ofTokenWithin, bind_map_left]
  rfl

end Source

end FormatAudit
