import FormatAudit.Proofs.DepthLimit
import FormatAudit.Proofs.PointerLevels
import FormatAudit.Proofs.Recovery

/-!
# Elements of arrays

The recorded type of an array counts the array itself as one level of pointers, so an array of depth `p` has elements with the
levels `0` to `p - 1`. The elements cannot change exactly if all of these are constant, but only level `0` is looked at: an array
is fixed exactly if the data at the end of its pointers is. What is judged follows from that. A name of the array and a
dereference of it, in any grouping parentheses, are constant exactly if the array counts as fixed.
-/

namespace FormatAudit

/-! ## Verdicts on names and dereferences -/

namespace Expression

/-- A node that is judged by a single operand is as constant as that. -/
theorem constant_iff_of_judgedOperands {e x : Expression} (h : e.judgedOperands = [x]) : e.Constant ↔ x.Constant := by
  rw [constant_iff, h]
  simp

end Expression

namespace Source

variable {s : Source} {x y : Expression}

/-- Parentheses do not change a verdict. -/
theorem constant_enclose {count : Nat} {before after : Option TokenId}
    (h : (s.enclose count before after x : Logged Fault Expression).result = .ok y) : y.Constant ↔ x.Constant := by
  fun_induction enclose (m := Logged Fault) s count before after x with
  | case1 count before after x hgroup ih =>
    simp only [make_eq, pure_bind, Logged.bind_result_eq_ok] at h
    obtain ⟨l, -, l', -, h⟩ := h
    rw [ih _ h]
    exact Expression.constant_iff_of_judgedOperands rfl
  | case2 | case3 => rw [Except.ok.inj h]

/-- An opaque node is not constant, in whatever parentheses. -/
theorem not_constant_of_ofTokenWithin_zero {t : Option TokenId} (h : (s.treeWithin 0 t).result = .ok x) : ¬x.Constant := by
  obtain ⟨e, node, -, hkind, henclose⟩ := ofTokenWithin_zero_eq_ok h
  have hoperands : node.judgedOperands = [] := by rw [Expression.judgedOperands, Expression.judgedPart, hkind]
  rw [constant_enclose henclose, Expression.constant_iff, hoperands]
  simp [Expression.isFixedLeaf, hkind]

/-- An expression is as constant as it is before its nodes are numbered. -/
theorem exists_of_expression {t : Option TokenId} (h : (s.expression t).result = .ok x) :
    ∃ y, (s.treeWithin (depthLimit + 1) t).result = .ok y ∧ (x.JudgedConstant ↔ y.Constant) := by
  have hcomposed := composed_expression h
  rw [expression_eq, Logged.bind_result_eq_ok] at h
  obtain ⟨y, hy, hpure⟩ := h
  obtain rfl := Except.ok.inj hpure
  exact ⟨y, hy, by rw [Expression.judgedConstant_iff hcomposed, Expression.constant_numbered]⟩

end Source

open Source Logged

namespace Configuration

variable {c : Configuration} {t : TokenId} {v : VariableId} {b : Bool} {n : Nat}

/-- A token is a name of a variable. -/
structure NamesVariable (c : Configuration) (v : VariableId) (t : TokenId) : Prop where
  name : (c.token t).isName = true
  notLiteral : (c.token t).isLiteral = false
  leaf : c.IsLeaf t
  refers : (c.token t).variableRef = some v

/-- A token is a name of a variable that is dereferenced some times. -/
inductive Dereferences (c : Configuration) (v : VariableId) : Nat → TokenId → Prop where
  | name {t : TokenId} (h : c.NamesVariable v t) : Dereferences c v 0 t
  | star {n : Nat} {star t : TokenId} (hheads : c.Heads star (some t) none) (htext : (c.token star).text = "*")
      (h : Dereferences c v n t) : Dereferences c v (n + 1) star

/-- A name of a variable stands for a constant exactly if the variable is fixed. -/
theorem NamesVariable.constantName_iff (h : c.NamesVariable v t) (hfixed : c.isFixed (c.variableAt v) = .ok b)
    {found : Option Symbol} (hresolve : c.resolve (c.token t) false = .ok found) :
    ∃ symbol, found = some symbol ∧ (symbol.kind = .constantName ↔ b = true) := by
  have hsymbol : (c.variableSymbol v).map some = .ok found := by
    simpa [Configuration.resolve, h.name, h.refers] using hresolve
  rw [variableSymbol, hfixed, except_ok_bind] at hsymbol
  cases hdeclared : c.locationOf? (c.variableAt v).nameToken with
  | error fault =>
    rw [hdeclared] at hsymbol
    cases hsymbol
  | ok declaredAt =>
    rw [hdeclared] at hsymbol
    refine ⟨_, (Except.ok.inj hsymbol).symm, ?_⟩
    cases b <;> simp

/-- A token that names a variable can be resolved. -/
theorem NamesVariable.resolvable (hloc : c.Located) (h : c.NamesVariable v t) (hfixed : c.isFixed (c.variableAt v) = .ok b) :
    c.Resolvable t := by
  obtain ⟨declaredAt, hdeclared⟩ : ∃ l, c.locationOf? (c.variableAt v).nameToken = .ok l := by
    cases (c.variableAt v).nameToken with
    | none => exact ⟨none, rfl⟩
    | some name =>
      obtain ⟨l, hl⟩ := hloc name
      exact ⟨some l, by rw [locationOf?, hl]; rfl⟩
  simp [Resolvable, Configuration.resolve, h.name, h.refers, variableSymbol, hfixed, hdeclared, except_ok_bind, Except.map]

/-- It has the form of a name. -/
theorem NamesVariable.formOf_eq (h : c.NamesVariable v t) : c.formOf t = .name :=
  formOf_eq_name h.name h.notLiteral h.leaf

/-- A name that is dereferenced some times is constant exactly if the variable is fixed and there are levels enough. -/
theorem Dereferences.constant_iff (h : c.Dereferences v n t) (hfixed : c.isFixed (c.variableAt v) = .ok b) {steps : Nat}
    {x : Expression} (hx : (c.source.treeWithin steps (some t)).result = .ok x) : x.Constant ↔ n < steps ∧ b = true := by
  induction h generalizing steps x with
  | name hname =>
    cases steps with
    | zero => simpa using Source.not_constant_of_ofTokenWithin_zero hx
    | succ steps =>
      obtain ⟨e, location, stop, node, -, -, -, hnode, hparens⟩ := ofTokenWithin_succ_eq_ok_iff.1 hx
      rw [source_config, hname.formOf_eq, ofForm, Logged.bind_result_eq_ok] at hnode
      obtain ⟨found, hresolve, hpure⟩ := hnode
      obtain ⟨symbol, rfl, hkind⟩ := hname.constantName_iff hfixed hresolve
      obtain rfl := Except.ok.inj hpure
      rw [constant_enclose hparens, Expression.constant_of_ident rfl, ← hkind]
      simp [Expression.isConstantName, Expression.symbol, Expression.info]
  | star hheads htext _ ih =>
    cases steps with
    | zero => simpa using Source.not_constant_of_ofTokenWithin_zero hx
    | succ steps =>
      obtain ⟨e, location, stop, node, -, -, -, hnode, hparens⟩ := ofTokenWithin_succ_eq_ok_iff.1 hx
      rw [source_config, formOf_eq_unary hheads (by rw [htext]; decide), ofForm, ofUnary, Logged.bind_result_eq_ok] at hnode
      obtain ⟨inner, hinner, hpure⟩ := hnode
      rw [source_config, htext, if_pos rfl] at hpure
      obtain rfl := Except.ok.inj hpure
      rw [constant_enclose hparens, Expression.constant_iff_of_judgedOperands rfl, ih hinner, Nat.succ_lt_succ_iff]

/-- Where all tokens have locations there is an expression for a name that is dereferenced some times. -/
theorem Dereferences.succeeds (hloc : c.Located) (h : c.Dereferences v n t) (hfixed : c.isFixed (c.variableAt v) = .ok b)
    (steps : Nat) : (c.source.treeWithin steps (some t)).Succeeds := by
  induction h generalizing steps with
  | name hname =>
    cases steps with
    | zero => exact succeeds_ofTokenWithin_zero hloc _
    | succ steps =>
      rw [succeeds_ofTokenWithin_succ_iff hloc, source_config, followed, namesAt, hname.formOf_eq]
      simpa using hname.resolvable hloc hfixed
  | star hheads htext _ ih =>
    cases steps with
    | zero => exact succeeds_ofTokenWithin_zero hloc _
    | succ steps =>
      rw [succeeds_ofTokenWithin_succ_iff hloc, source_config, followed, namesAt,
        formOf_eq_unary hheads (by rw [htext]; decide)]
      simpa using ih steps

/-! ## Arrays -/

/-- A variable, no parameter and not `constexpr`, is an array whose recorded type has the given depth and constness. -/
structure DeclaresArray (c : Configuration) (v : VariableDecl) (depth : Nat) (constness : Int) (vt : ValueType) : Prop where
  array : v.isArray = true
  notParameter : v.isArgument = false
  notConstexpr : "constexpr" ∉ c.declaredWords v
  type : c.RecordsType v depth constness vt
  deep : 1 ≤ depth

variable {k : Int} {vt : ValueType}

/-- Of the levels of the elements, only the data at the end of the pointers is looked at. -/
theorem DeclaresArray.isFixed_eq {v : VariableDecl} (h : c.DeclaresArray v n k vt) : c.isFixed v = .ok (k.testBit 0) := by
  rw [isFixed_of_recorded h.notParameter h.notConstexpr h.type, h.array, if_pos rfl, emod_two_beq_one]

/-- An array is fixed exactly if the data at the end of its pointers is constant. That is the rule "the elements are constant at
each of their levels" exactly if, where that data is constant, the pointers of the elements are too; with no pointers in the
elements it always is. A name of the array that is dereferenced some times is judged constant exactly if the array is fixed, down
to the depth to which expressions are followed. Where all tokens have locations there is an expression to judge. -/
theorem array_fixed_iff_data_constant {array : VariableDecl} (h : c.DeclaresArray array n k vt) :
    c.isFixed array = .ok (k.testBit 0) ∧
    (c.isFixed array = .ok (decide (∀ i < n, k.testBit i = true)) ↔
      (k.testBit 0 = true → ∀ i < n, 1 ≤ i → k.testBit i = true)) ∧
    ∀ v, c.variableAt v = array → ∀ m t, c.Dereferences v m t →
      (c.Located → ∃ x, (c.source.expression (some t)).result = .ok x) ∧
      ∀ x, (c.source.expression (some t)).result = .ok x → (x.JudgedConstant ↔ m ≤ depthLimit ∧ k.testBit 0 = true) := by
  have hfixed := h.isFixed_eq
  refine ⟨hfixed, ?_, ?_⟩
  · have hdeep := h.deep
    rw [hfixed, Except.ok.injEq, Bool.eq_iff_iff, decide_eq_true_iff]
    constructor
    · intro hagree hdata i hi _
      exact hagree.1 hdata i hi
    · intro hpointers
      refine ⟨fun hdata i hi => ?_, fun hall => hall 0 hdeep⟩
      rcases Nat.eq_zero_or_pos i with rfl | hpos
      · exact hdata
      · exact hpointers hdata i hi hpos
  · rintro v rfl m t ht
    constructor
    · intro hloc
      rw [expression_eq]
      exact succeeds_map_iff.2 (ht.succeeds hloc hfixed _)
    · intro x hx
      obtain ⟨y, hy, hconstant⟩ := exists_of_expression hx
      rw [hconstant, ht.constant_iff hfixed hy, Nat.lt_succ_iff]

namespace Names

/-- The type that is recorded for the array. -/
def recorded (constness : Int) : ValueType :=
  { pointer := .written "2", constness := .written (Number.intText constness) }

/-- The name of the array. -/
def name (constness : Int) : Token :=
  { text := "names", isName := true, variableRef := some 0, valueType := some (recorded constness) }

/-- The array, declared with all words and named after them. -/
def array (words : List String) : VariableDecl :=
  { nameToken := some words.length, typeStart := some 0, typeStop := some (words.length - 1), isArray := true }

/-- The declaration of `names` with the given words and the given constness, and then `*names`. -/
def config (words : List String) (constness : Int) : Configuration :=
  { inARow (words.map (fun word => { text := word }) ++
      [name constness, { text := "*", operand1 := some (words.length + 2) }, name constness]) with
    variableDecls := #[array words] }

/-- The words of `const char *const`. -/
def fixed : List String :=
  ["const", "char", "*", "const"]

/-- The words of `const char *`. -/
def loose : List String :=
  ["const", "char", "*"]

theorem fixed_declares : (config fixed 3).DeclaresArray (array fixed) 2 3 (recorded 3) :=
  ⟨rfl, rfl, by decide, ⟨by decide, rfl, rfl⟩, by decide⟩

theorem loose_declares : (config loose 1).DeclaresArray (array loose) 2 1 (recorded 1) :=
  ⟨rfl, rfl, by decide, ⟨by decide, rfl, rfl⟩, by decide⟩

theorem fixed_dereferences : (config fixed 3).Dereferences 0 1 5 :=
  .star (t := 6) ⟨by decide, by decide, by decide⟩ (by decide) (.name ⟨by decide, by decide, by decide, by decide⟩)

theorem loose_dereferences : (config loose 1).Dereferences 0 1 4 :=
  .star (t := 5) ⟨by decide, by decide, by decide⟩ (by decide) (.name ⟨by decide, by decide, by decide, by decide⟩)

theorem fixed_located : (config fixed 3).Located :=
  located_of_forall_mem (by decide)

theorem loose_located : (config loose 1).Located :=
  located_of_forall_mem (by decide)

end Names

/-- The elements of `const char *const names[]` cannot be changed, and `*names` is judged constant. -/
theorem dereferenced_fixed_array_constant :
    (Names.config Names.fixed 3).isFixed (Names.array Names.fixed) =
      .ok (decide (∀ i < (2 : Nat), Int.testBit 3 i = true)) ∧
    ∃ x, ((Names.config Names.fixed 3).source.expression (some 5)).result = .ok x ∧ x.JudgedConstant := by
  obtain ⟨-, hrule, hjudged⟩ := array_fixed_iff_data_constant Names.fixed_declares
  obtain ⟨hmade, hverdict⟩ := hjudged 0 rfl 1 5 Names.fixed_dereferences
  obtain ⟨x, hx⟩ := hmade Names.fixed_located
  exact ⟨hrule.2 (by decide), x, hx, (hverdict x hx).2 (by decide)⟩

/-- The elements of `const char *names[]` can be made to point elsewhere, and still the array is fixed and `*names` is judged
constant. -/
theorem dereferenced_loose_array_constant :
    (Names.config Names.loose 1).DeclaresArray (Names.array Names.loose) 2 1 (Names.recorded 1) ∧
    Int.testBit 1 1 = false ∧
    (Names.config Names.loose 1).isFixed (Names.array Names.loose) = .ok true ∧
    ∃ x, ((Names.config Names.loose 1).source.expression (some 4)).result = .ok x ∧ x.JudgedConstant := by
  have hfixed := Names.loose_declares.isFixed_eq
  obtain ⟨x, hx⟩ := Names.loose_dereferences.succeeds Names.loose_located hfixed (depthLimit + 1)
  have hmade : ((Names.config Names.loose 1).source.expression (some 4)).result = .ok x.numbered := by
    rw [expression_eq]
    exact bind_result_eq_ok.2 ⟨x, hx, rfl⟩
  obtain ⟨y, hy, hconstant⟩ := exists_of_expression hmade
  refine ⟨Names.loose_declares, by decide, hfixed, x.numbered, hmade, ?_⟩
  exact hconstant.2 ((Names.loose_dereferences.constant_iff hfixed hy).2 (by decide))

end Configuration

end FormatAudit
