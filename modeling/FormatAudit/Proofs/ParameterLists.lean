import FormatAudit.Proofs.Stream
import FormatAudit.Proofs.Wrappers
import Mathlib

/-!
# Parameter lists

A function takes variable arguments if its parameter list ends in an ellipsis, or if its last named parameter is a list of such
arguments. The end of the parameter list is not looked for: an ellipsis counts wherever it stands between the parentheses after
the name of the function (`takesEllipsis_iff`), and so does one that belongs to a parameter which is a function. A format is
declared, and wrappers are found, by this weaker rule (`format_declared_iff`).
-/

namespace FormatAudit

namespace Configuration

variable {c : Configuration} {f : FunctionDecl} {inside : List TokenId}

/-- A function has the given tokens between the parentheses after its name, and none if no parenthesis follows its name. -/
inductive ParameterList (c : Configuration) (f : FunctionDecl) : List TokenId → Prop where
  | missing (htext : (c.look (c.look f.nameToken).next).text ≠ "(") : ParameterList c f []
  | parens {opening closing : TokenId} {inside : List TokenId} (hnext : (c.look f.nameToken).next = some opening)
      (htext : (c.token opening).text = "(") (hlink : (c.token opening).link = some closing)
      (hclosing : (c.token closing).text = ")")
      (hchain : (opening :: (inside ++ [closing])).IsChain (fun t u => (c.token t).next = some u))
      (hnodup : (opening :: (inside ++ [closing])).Nodup) : ParameterList c f inside

/-- There is an ellipsis among some tokens. -/
def HasEllipsis (c : Configuration) (tokens : List TokenId) : Prop :=
  ∃ t ∈ tokens, (c.token t).text = "..."

instance (tokens : List TokenId) : Decidable (c.HasEllipsis tokens) :=
  inferInstanceAs (Decidable (∃ t ∈ tokens, _))

/-- The last one of some tokens is an ellipsis. -/
def EndsInEllipsis (c : Configuration) (tokens : List TokenId) : Prop :=
  ∃ t ∈ tokens.getLast?, (c.token t).text = "..."

instance (tokens : List TokenId) : Decidable (c.EndsInEllipsis tokens) :=
  inferInstanceAs (Decidable (∃ t ∈ tokens.getLast?, _))

/-- An ellipsis stands among some tokens and is not the last one of them. -/
def StrayEllipsis (c : Configuration) (tokens : List TokenId) : Prop :=
  c.HasEllipsis tokens.dropLast

instance (tokens : List TokenId) : Decidable (c.StrayEllipsis tokens) :=
  inferInstanceAs (Decidable (c.HasEllipsis _))

/-- The last named parameter of a function is a list of variable arguments. -/
def EndsInArgumentList (c : Configuration) (f : FunctionDecl) : Prop :=
  ∃ v ∈ f.parameters.getLast?, c.isArgumentList (c.variableAt v) = true

/-- An ellipsis stands at the end of a parameter list or is a stray one. -/
theorem hasEllipsis_iff (tokens : List TokenId) : c.HasEllipsis tokens ↔ c.EndsInEllipsis tokens ∨ c.StrayEllipsis tokens := by
  rcases List.eq_nil_or_concat tokens with rfl | ⟨init, last, rfl⟩
  · simp [HasEllipsis, EndsInEllipsis, StrayEllipsis]
  · simp [HasEllipsis, EndsInEllipsis, StrayEllipsis, or_and_right, exists_or, or_comm]

/-- An ellipsis is found exactly if there is one anywhere in the parameter list. -/
theorem takesEllipsis_iff (h : c.ParameterList f inside) : c.takesEllipsis f = true ↔ c.HasEllipsis inside := by
  cases h with
  | missing htext => simp [takesEllipsis, HasEllipsis, htext]
  | @parens opening closing inside hnext htext hlink hclosing hchain hnodup =>
    have hlast : (opening :: (inside ++ [closing])).getLast? = some closing := by
      rw [← List.cons_append, List.getLast?_concat]
    have hrange := (tokenRun_of_isChain hchain hnodup hlast).range_eq
    simp [takesEllipsis, HasEllipsis, hnext, htext, hlink, hrange, hclosing]

/-- A function has a format parameter exactly if it has parameters and an ellipsis is found, or it has a parameter before a list
of variable arguments. -/
theorem declaredSlot_nonneg_iff : 0 ≤ c.declaredSlot f ↔
    f.parameters ≠ [] ∧ c.takesEllipsis f = true ∨ 2 ≤ f.parameters.length ∧ c.EndsInArgumentList f := by
  have hlist : (f.parameters.getLast?.any fun v => c.isArgumentList (c.variableAt v)) = true ↔ c.EndsInArgumentList f := by
    rw [Option.any_eq_true]
    rfl
  have hpos : f.parameters ≠ [] ↔ 0 < f.parameters.length := List.length_pos_iff.symm
  unfold declaredSlot
  dsimp only
  split
  · rename_i hellipsis
    rw [hpos]
    simp only [hellipsis, and_true]
    omega
  · rename_i hellipsis
    simp only [hellipsis, Bool.false_eq_true, and_false, false_or]
    split
    · rename_i hcond
      rw [Bool.and_eq_true, decide_eq_true_iff, hlist] at hcond
      exact iff_of_true (by omega) hcond
    · rename_i hcond
      rw [Bool.and_eq_true, decide_eq_true_iff, hlist] at hcond
      exact iff_of_false (by decide) hcond

/-- A function has a format parameter exactly if it has parameters and an ellipsis, at the end of its parameter list or astray in
it, or if it has a parameter before a list of variable arguments. So the rule "its parameter list ends in an ellipsis, or its last
named parameter is a list of variable arguments" fails only for functions that have an ellipsis astray and neither of these.
Every function that is found to be a wrapper has an ellipsis of one of the two sorts or ends in a list of variable arguments. -/
theorem format_declared_iff (c : Configuration) :
    (∀ f inside, c.ParameterList f inside →
      (0 ≤ c.declaredSlot f ↔ f.parameters ≠ [] ∧ (c.EndsInEllipsis inside ∨ c.StrayEllipsis inside) ∨
        2 ≤ f.parameters.length ∧ c.EndsInArgumentList f) ∧
      ((0 ≤ c.declaredSlot f → c.EndsInEllipsis inside ∨ c.EndsInArgumentList f) ↔
        f.parameters = [] ∨ ¬c.StrayEllipsis inside ∨ c.EndsInEllipsis inside ∨ c.EndsInArgumentList f)) ∧
    ∀ (table : FormatTable), ∀ s ∈ (table.findWrappers c).state.found, ∃ scope ∈ c.functionScopes, ∃ id,
      scope.function = some id ∧ c.functionSymbol id "" = .ok s ∧ ∀ inside, c.ParameterList (c.functionAt id) inside →
        c.EndsInEllipsis inside ∨ c.StrayEllipsis inside ∨ c.EndsInArgumentList (c.functionAt id) := by
  have hdeclared : ∀ f inside, c.ParameterList f inside → (0 ≤ c.declaredSlot f ↔
      f.parameters ≠ [] ∧ (c.EndsInEllipsis inside ∨ c.StrayEllipsis inside) ∨
        2 ≤ f.parameters.length ∧ c.EndsInArgumentList f) := by
    intro f inside h
    rw [declaredSlot_nonneg_iff, takesEllipsis_iff h, hasEllipsis_iff]
  refine ⟨fun f inside h => ⟨hdeclared f inside h, ?_⟩, ?_⟩
  · rw [hdeclared f inside h]
    constructor
    · intro hrule
      by_cases hparameters : f.parameters = []
      · exact Or.inl hparameters
      by_cases hstray : c.StrayEllipsis inside
      · exact Or.inr (Or.inr (hrule (Or.inl ⟨hparameters, Or.inr hstray⟩)))
      · exact Or.inr (Or.inl hstray)
    · rintro hsafe (⟨hparameters, hends | hstray⟩ | ⟨-, hlist⟩)
      · exact Or.inl hends
      · exact (hsafe.resolve_left hparameters).resolve_left (not_not_intro hstray)
      · exact Or.inr hlist
  · intro table s hs
    obtain ⟨before, after, hsplit⟩ := List.append_of_mem hs
    obtain ⟨scope, place, v, -, -, ⟨hscope, id, hfunction, hsymbol, hslot, -⟩, -⟩ :=
      (FormatTable.grown_findWrappers table c).found before s after hsplit
    refine ⟨scope, hscope, id, hfunction, hsymbol, fun inside h => ?_⟩
    rcases (hdeclared _ _ h).1 (by omega) with ⟨-, hends | hstray⟩ | ⟨-, hlist⟩
    · exact Or.inl hends
    · exact Or.inr (Or.inl hstray)
    · exact Or.inr (Or.inr hlist)

namespace Callback

/-- The function `void show(const char *fmt, ...)`. -/
def variadic : Configuration :=
  { inARow [{ text := "void" }, { text := "show", isName := true, functionRef := some 0 }, { text := "(", link := some 9 },
      { text := "const" }, { text := "char" }, { text := "*" }, { text := "fmt", isName := true, variableRef := some 0 },
      { text := "," }, { text := "..." }, { text := ")", link := some 2 }] with
    variableDecls := #[{ name := "fmt", nameToken := some 6, isArgument := true, isPointer := true, typeStart := some 3 }]
    functionDecls := #[{ name := "show", nameToken := some 1, arguments := [(1, 0)] }] }

/-- The function `void show(void (*sink)(int, ...), char *fmt) { printf(fmt); }`. -/
def config : Configuration :=
  { inARow [{ text := "void" }, { text := "show", isName := true, functionRef := some 0 }, { text := "(", link := some 17 },
      { text := "void" }, { text := "(", link := some 7 }, { text := "*" },
      { text := "sink", isName := true, variableRef := some 0 }, { text := ")", link := some 4 },
      { text := "(", link := some 12 }, { text := "int" }, { text := "," }, { text := "..." }, { text := ")", link := some 8 },
      { text := "," }, { text := "char" }, { text := "*" }, { text := "fmt", isName := true, variableRef := some 1 },
      { text := ")", link := some 2 },
      { text := "\x7b", link := some 24 }, { text := "printf", isName := true },
      { text := "(", operand1 := some 19, operand2 := some 21, link := some 22 },
      { text := "fmt", isName := true, variableRef := some 1 }, { text := ")", link := some 20 }, { text := ";" },
      { text := "\x7d", link := some 18 }] with
    variableDecls := #[{ name := "sink", nameToken := some 6, isArgument := true, isPointer := true, typeStart := some 3 },
      { name := "fmt", nameToken := some 16, isArgument := true, isPointer := true, typeStart := some 14 }]
    functionDecls := #[{ name := "show", nameToken := some 1, arguments := [(1, 0), (2, 1)] }]
    scopes := [{ kind := "Function", bodyStart := some 18, bodyStop := some 24, function := some 0 }] }

/-- The parameter list of `show`: `void (*sink)(int, ...), char *fmt`. -/
def parameterTokens : List TokenId :=
  [3, 4, 5, 6, 7, 8, 9, 10, 11, 12, 13, 14, 15, 16]

theorem variadic_parameterList : variadic.ParameterList (variadic.functionAt 0) [3, 4, 5, 6, 7, 8] :=
  .parens (rfl : _ = some 2) rfl rfl rfl (by decide) (by decide)

theorem parameterList : config.ParameterList (config.functionAt 0) parameterTokens :=
  .parens (rfl : _ = some 2) rfl rfl rfl (by decide) (by decide)

/-- The last parameter is a `char *`. -/
theorem not_endsInArgumentList : ¬config.EndsInArgumentList (config.functionAt 0) := by
  have hlast : (config.functionAt 0).parameters.getLast? = some 1 := by cbv
  rintro ⟨v, hv, hlist⟩
  obtain rfl := Option.some.inj (hlast.symm.trans hv)
  exact absurd hlist (by decide)

/-- The function is found in the first round, through its call of `printf`. -/
theorem found_show : (({} : FormatTable).findWrappers config).state.found.map Symbol.name = ["show"] := by
  let symbol : Symbol :=
    { key := { space := "function", id := .text "show" }, name := "show", kind := .functionName,
      declaredAt := some { file := "", line := 1, column := 2 }, declaration := some 0 }
  let candidate : Candidate :=
    { scope := { kind := "Function", bodyStart := some 18, bodyStop := some 24, function := some 0 }, symbol, slot := 1,
      parameter := 1 }
  let found : Inference := { table := { inferred := [(symbol.key, 1)] }, found := [symbol] }
  have hcandidates : config.candidates {} config.functionScopes = .ok [candidate] := by cbv
  have hshow : (Inference.consider config { table := {} } candidate).result = .ok found := by cbv
  have hround : Progress.Reaches (Inference.consider config) { table := {} } [candidate] found :=
    Progress.reaches_cons.2 ⟨found, hshow, Progress.reaches_nil.2 rfl⟩
  have hfixed : (Inference.consider config found candidate).result = .ok found := rfl
  rw [(FormatTable.findWrappers_of_round hcandidates hround (List.forall_mem_singleton.2 hfixed)).2]
  rfl

end Callback

/-- The ellipsis of `show(const char *fmt, ...)` ends its parameter list, and `show` has a format parameter. The other `show` is
found to be a wrapper, and it has what every wrapper has. -/
theorem trailing_ellipsis_declares_format :
    Callback.variadic.EndsInEllipsis [3, 4, 5, 6, 7, 8] ∧
    0 ≤ Callback.variadic.declaredSlot (Callback.variadic.functionAt 0) ∧
    ∃ s ∈ (({} : FormatTable).findWrappers Callback.config).state.found, ∃ id,
      Callback.config.functionSymbol id "" = .ok s ∧
      ∀ inside, Callback.config.ParameterList (Callback.config.functionAt id) inside →
        Callback.config.EndsInEllipsis inside ∨ Callback.config.StrayEllipsis inside ∨
          Callback.config.EndsInArgumentList (Callback.config.functionAt id) := by
  have hparameters : (Callback.variadic.functionAt 0).parameters ≠ [] := by
    have heq : (Callback.variadic.functionAt 0).parameters = [0] := by cbv
    simp [heq]
  have hends : Callback.variadic.EndsInEllipsis [3, 4, 5, 6, 7, 8] := by decide
  have hdeclared := (format_declared_iff Callback.variadic).1 _ _ Callback.variadic_parameterList
  obtain ⟨s, hs, -⟩ := List.mem_map.1 (Callback.found_show ▸ List.mem_singleton_self "show")
  obtain ⟨-, -, id, -, hsymbol, hlist⟩ := (format_declared_iff Callback.config).2 {} s hs
  exact ⟨hends, hdeclared.1.2 (Or.inl ⟨hparameters, Or.inl hends⟩), s, hs, id, hsymbol, hlist⟩

/-- The function `show` takes two arguments and a callback of it takes variable arguments. Still `show` has a format parameter and
is found to be a wrapper. -/
theorem callback_ellipsis_makes_wrapper :
    Callback.config.ParameterList (Callback.config.functionAt 0) Callback.parameterTokens ∧
    ¬Callback.config.EndsInEllipsis Callback.parameterTokens ∧
    ¬Callback.config.EndsInArgumentList (Callback.config.functionAt 0) ∧
    Callback.config.declaredSlot (Callback.config.functionAt 0) = 1 ∧
    (({} : FormatTable).findWrappers Callback.config).state.found.map Symbol.name = ["show"] :=
  ⟨Callback.parameterList, by decide, Callback.not_endsInArgumentList, by cbv, Callback.found_show⟩

end Configuration

end FormatAudit
