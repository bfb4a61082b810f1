import FormatAudit.Proofs.ArgumentTrees
import FormatAudit.Proofs.Forms
import FormatAudit.Proofs.Inference
import FormatAudit.Proofs.Ranges
import Mathlib

/-!
# What the search for wrappers finds

A search without a fault finds exactly the wrappers, if no two functions share a key (`inferred_iff_wrapper`): what it records
are wrappers by the invariant of its steps, and it records every wrapper because none of its candidates is left to record. Since
being a wrapper does not depend on the order of the scopes, neither does what is found (`slot_withScopes`). Over a configuration
whose locations and types can be read the search meets no fault (`Readable.findWrappers`), and if its chains of tokens and trees of
commas are finite, each walk on the way comes to its end (`FiniteWalks`). A symbol that cannot be read ends the search where it is
met, which depends on the order of the scopes (`unreadable_callee_ends_search`).
-/

namespace FormatAudit

namespace FormatTable

variable {c : Configuration} {table : FormatTable} {xs : List Candidate}

/-! ## The whole search -/

/-- The search goes over the candidates of the functions, at most once more than there are candidates. -/
theorem findWrappers_eq (hxs : c.candidates table c.functionScopes = .ok xs) :
    table.findWrappers c = Inference.search c xs (xs.length + 1) { table } := by
  rw [findWrappers, hxs]

/-- There are never more candidates waiting than there are rounds. -/
theorem waiting_lt (xs : List Candidate) (i : Inference) : Inference.waiting xs i < xs.length + 1 :=
  Nat.lt_succ_of_le List.countP_le_length

/-- If a round leaves nothing to find, the search ends with what the round has found. -/
theorem findWrappers_of_round (hxs : c.candidates table c.functionScopes = .ok xs) {r : Inference}
    (hround : Progress.Reaches (Inference.consider c) { table } xs r)
    (hfixed : ∀ x ∈ xs, (Inference.consider c r x).result = .ok r) :
    (table.findWrappers c).fault = none ∧ (table.findWrappers c).state = r := by
  rw [findWrappers_eq hxs]
  by_cases hlength : r.found.length = ({ table } : Inference).found.length
  · obtain ⟨rfl, hstart⟩ := Inference.round_fixed hround hlength
    exact Inference.search_of_fixed hstart _
  · cases xs with
    | nil =>
      obtain rfl := Progress.reaches_nil.1 hround
      exact absurd rfl hlength
    | cons x xs =>
      obtain ⟨hfault, hstate⟩ := Inference.search_of_round hround hlength (xs.length + 1)
      obtain ⟨hfault', hstate'⟩ := Inference.search_of_fixed hfixed xs.length
      exact ⟨hfault.trans hfault', hstate.trans hstate'⟩

/-- The invariant holds where the search stops. -/
theorem grown_findWrappers (table : FormatTable) (c : Configuration) :
    Inference.Grown c table (table.findWrappers c).state := by
  cases hxs : c.candidates table c.functionScopes with
  | error fault =>
    rw [findWrappers, hxs]
    exact Inference.grown_start c table
  | ok xs =>
    rw [findWrappers_eq hxs]
    exact Inference.search_invariant (Inference.grown_start c table)
      (fun _ _ _ hx hi hstep => Inference.grown_step hxs hx hi hstep) _

/-- A search without a fault has candidates, and would record none of them in its last state. -/
theorem closed_findWrappers (hfault : (table.findWrappers c).fault = none) :
    ∃ xs, c.candidates table c.functionScopes = .ok xs ∧
      ∀ x ∈ xs, (Inference.consider c (table.findWrappers c).state x).result = .ok (table.findWrappers c).state := by
  cases hxs : c.candidates table c.functionScopes with
  | error fault =>
    rw [findWrappers, hxs] at hfault
    cases hfault
  | ok xs =>
    refine ⟨xs, rfl, ?_⟩
    rw [findWrappers_eq hxs] at hfault ⊢
    exact Inference.search_closed (waiting_lt xs _) hfault

/-- After a search without a fault, a function that is not recorded does not forward its format parameter. -/
theorem not_forwards_of_not_recorded {scope : Scope} {s : Symbol} {place : Nat} {v : VariableId}
    (hfault : (table.findWrappers c).fault = none) (hdeclares : c.DeclaresFormat scope s place v)
    (hslot : table.slot c s < 0) (hnew : Table.get? (table.findWrappers c).state.table.inferred s.key = none) :
    ¬c.Forwards (table.findWrappers c).state.table (c.scopeTokens scope) v := by
  obtain ⟨xs, hxs, hclosed⟩ := closed_findWrappers hfault
  have hx : { scope, symbol := s, slot := place, parameter := v } ∈ xs :=
    (Configuration.mem_candidates_iff hxs).2 ⟨place, rfl, hdeclares, hslot⟩
  rcases Inference.consider_cases (hclosed _ hx) with ⟨-, hnot⟩ | ⟨-, -, hlearnt⟩
  · exact hnot hnew
  · have hlength := congrArg (fun i : Inference => i.found.length) hlearnt
    simp at hlength

end FormatTable

namespace Configuration

/-- Function scopes whose functions have one key are the same. -/
def DistinctKeys (c : Configuration) : Prop :=
  ∀ scope ∈ c.functionScopes, ∀ scope' ∈ c.functionScopes, ∀ f f' s s', scope.function = some f →
    scope'.function = some f' → c.functionSymbol f "" = .ok s → c.functionSymbol f' "" = .ok s' → s.key = s'.key →
    scope = scope'

/-- With distinct keys, wrappers with one key have one place. -/
theorem Wrapper.unique {c : Configuration} {table : FormatTable} (hkeys : c.DistinctKeys) {s s' : Symbol} {place place' : Nat}
    (h : c.Wrapper table s place) (h' : c.Wrapper table s' place') (hkey : s.key = s'.key) : place = place' := by
  obtain ⟨⟨scope, v, hdeclares⟩, -⟩ := h.declares
  obtain ⟨⟨scope', v', hdeclares'⟩, -⟩ := h'.declares
  obtain ⟨hscope, f, hf, hs, -⟩ := id hdeclares
  obtain ⟨hscope', f', hf', hs', -⟩ := id hdeclares'
  obtain rfl := hkeys scope hscope scope' hscope' f f' s s' hf hf' hs hs' hkey
  exact (hdeclares.unique hdeclares').2.1

end Configuration

namespace FormatTable

variable {c : Configuration} {table : FormatTable}

/-- Every wrapper is recorded, at its place. -/
theorem recorded_of_wrapper (hkeys : c.DistinctKeys) (hfault : (table.findWrappers c).fault = none) {s : Symbol} {place : Nat}
    (h : c.Wrapper table s place) :
    Table.get? (table.findWrappers c).state.table.inferred s.key = some (place : Int) := by
  have hgrown := grown_findWrappers table c
  -- what is recorded for the key of a wrapper is the place of that wrapper
  have hrecorded : ∀ {s : Symbol} {place : Nat}, c.Wrapper table s place →
      Table.get? (table.findWrappers c).state.table.inferred s.key ≠ none →
      Table.get? (table.findWrappers c).state.table.inferred s.key = some (place : Int) := by
    intro s place h hsome
    obtain ⟨p, hp⟩ := Option.ne_none_iff_exists'.1 hsome
    rcases hgrown.inferred _ _ hp with hold | ⟨s', -, hkey, place', rfl, h'⟩
    · rw [h.declares.2.2] at hold
      cases hold
    · rw [hp, h.unique hkeys h' hkey.symm]
  induction h with
  | direct hdeclares hslot hnew hpasses hcallee =>
    refine hrecorded (.direct hdeclares hslot hnew hpasses hcallee) (fun hnone => ?_)
    exact not_forwards_of_not_recorded hfault hdeclares hslot hnone
      ⟨_, _, by rw [hgrown.grows.slot_eq (by omega), hcallee], hpasses⟩
  | through hdeclares hslot hnew hpasses hopen hwrapper hkey ih =>
    refine hrecorded (.through hdeclares hslot hnew hpasses hopen hwrapper hkey) (fun hnone => ?_)
    refine not_forwards_of_not_recorded hfault hdeclares hslot hnone ⟨_, _, ?_, hpasses⟩
    rw [slot_of_open (hgrown.grows.open_iff.2 hopen), ← hkey, ih]
    rfl

/-- A search without a fault finds exactly the wrappers, if no two functions share a key. -/
theorem inferred_iff_wrapper (hkeys : c.DistinctKeys) (hfault : (table.findWrappers c).fault = none) (k : SymbolKey) (p : Int) :
    Table.get? (table.findWrappers c).state.table.inferred k = some p ↔
      Table.get? table.inferred k = some p ∨ ∃ s place, c.Wrapper table s place ∧ s.key = k ∧ p = (place : Nat) := by
  have hgrown := grown_findWrappers table c
  constructor
  · intro h
    rcases hgrown.inferred k p h with hold | ⟨s, -, hkey, place, hplace, hwrapper⟩
    · exact Or.inl hold
    · exact Or.inr ⟨s, place, hwrapper, hkey, hplace⟩
  · rintro (hold | ⟨s, place, hwrapper, rfl, rfl⟩)
    · exact hgrown.grows.inferred k p hold
    · exact recorded_of_wrapper hkeys hfault hwrapper

/-- A second search finds nothing. -/
theorem findWrappers_again (hfault : (table.findWrappers c).fault = none) :
    ((table.findWrappers c).state.table.findWrappers c).fault = none ∧
      ((table.findWrappers c).state.table.findWrappers c).state = { table := (table.findWrappers c).state.table } := by
  have hgrown := grown_findWrappers table c
  obtain ⟨xs, hxs, hclosed⟩ := closed_findWrappers hfault
  obtain ⟨xs', hxs'⟩ := Configuration.candidates_isOk_iff.2
    (fun scope hscope => Configuration.candidateOf_isOk (table.findWrappers c).state.table
      (Configuration.candidates_isOk_iff.1 ⟨xs, hxs⟩ scope hscope))
  rw [findWrappers_eq hxs']
  refine Inference.search_of_fixed (fun x hx => ?_) _
  obtain ⟨place, hplace, hdeclares, hslot⟩ := (Configuration.mem_candidates_iff hxs').1 hx
  have hold := hclosed x
    ((Configuration.mem_candidates_iff hxs).2 ⟨place, hplace, hdeclares, hgrown.grows.slot_neg hslot⟩)
  -- whether a candidate is left alone depends on the table alone, not on what was found before
  have hfixed := Inference.consider_fixed_iff.1 hold
  exact Inference.consider_fixed_iff.2 hfixed

end FormatTable

/-! ## Searches without a fault -/

namespace Configuration

variable {c : Configuration} {table : FormatTable}

/-- Every location and every type of a configuration can be read. -/
structure Readable (c : Configuration) : Prop where
  located : c.Located
  typed : ∀ v, ∃ b, c.isFixed (c.variableAt v) = .ok b

/-- In a readable configuration every token has a location, if it is there. -/
theorem Readable.locationOf? (h : c.Readable) (t : Option TokenId) : ∃ l, c.locationOf? t = .ok l := by
  cases t with
  | none => exact ⟨none, rfl⟩
  | some t =>
    obtain ⟨l, hl⟩ := h.located t
    exact ⟨some l, by rw [Configuration.locationOf?, hl]; rfl⟩

/-- Every function has a symbol. -/
theorem Readable.functionSymbol (h : c.Readable) (f : FunctionId) (fallback : String) :
    ∃ s, c.functionSymbol f fallback = .ok s := by
  obtain ⟨l, hl⟩ := h.locationOf? (c.functionAt f).nameToken
  exact ⟨_, by rw [Configuration.functionSymbol, hl]; rfl⟩

/-- Every variable has a symbol. -/
theorem Readable.variableSymbol (h : c.Readable) (v : VariableId) : ∃ s, c.variableSymbol v = .ok s := by
  obtain ⟨b, hb⟩ := h.typed v
  obtain ⟨l, hl⟩ := h.locationOf? (c.variableAt v).nameToken
  exact ⟨_, by rw [Configuration.variableSymbol, hb, hl]; rfl⟩

/-- Every name can be resolved. -/
theorem Readable.resolve (h : c.Readable) (t : Token) (called : Bool) : ∃ s, c.resolve t called = .ok s := by
  unfold Configuration.resolve
  split
  · exact ⟨_, rfl⟩
  · split
    · rename_i v _
      obtain ⟨s, hs⟩ := h.variableSymbol v
      exact ⟨some s, by rw [hs]; rfl⟩
    · rename_i f _ _
      obtain ⟨s, hs⟩ := h.functionSymbol f t.text
      exact ⟨some s, by rw [hs]; rfl⟩
    · split
      · exact ⟨_, rfl⟩
      · split
        · exact ⟨_, rfl⟩
        · split
          · exact ⟨_, rfl⟩
          · exact ⟨_, rfl⟩

/-- Whether a call passes a variable on can always be told. -/
theorem Readable.callForwards (h : c.Readable) (table : FormatTable) (call : Token) (v : VariableId) :
    ∃ b, c.callForwards table call v = .ok b := by
  obtain ⟨callee, hcallee⟩ := h.resolve (c.look (c.calledName call)) true
  rw [Configuration.callForwards, calledSymbol, hcallee, except_ok_bind]
  dsimp only
  split
  · exact ⟨_, rfl⟩
  · split
    · exact ⟨_, rfl⟩
    · exact ⟨_, rfl⟩

/-- So can it for the calls among tokens. -/
theorem Readable.anyCallForwards (h : c.Readable) (table : FormatTable) (v : VariableId) (tokens : List TokenId) :
    ∃ b, c.anyCallForwards table v tokens = .ok b := by
  induction tokens with
  | nil => exact ⟨false, rfl⟩
  | cons t tokens ih =>
    rw [Configuration.anyCallForwards]
    split
    · obtain ⟨b, hb⟩ := h.callForwards table (c.token t) v
      rw [hb, except_ok_bind]
      cases b with
      | true => exact ⟨true, rfl⟩
      | false => exact ih
    · exact ih

/-- Every scope can be looked at. -/
theorem Readable.candidateOf (h : c.Readable) (table : FormatTable) (scope : Scope) :
    ∃ o, c.candidateOf table scope = .ok o := by
  unfold Configuration.candidateOf
  split
  · exact ⟨_, rfl⟩
  · rename_i f _
    dsimp only
    split
    · exact ⟨_, rfl⟩
    · obtain ⟨s, hs⟩ := h.functionSymbol f ""
      rw [hs, except_ok_bind]
      split
      · exact ⟨_, rfl⟩
      · exact ⟨_, rfl⟩

/-- Every candidate can be considered. -/
theorem Readable.consider (h : c.Readable) (i : Inference) (x : Candidate) : ∃ i', (i.consider c x).result = .ok i' := by
  unfold Inference.consider
  split
  · exact ⟨_, rfl⟩
  · obtain ⟨b, hb⟩ := h.anyCallForwards i.table x.parameter (c.scopeTokens x.scope)
    rw [Logged.result_bind, Logged.result_liftM, hb, except_ok_bind]
    split
    · exact ⟨_, rfl⟩
    · exact ⟨_, rfl⟩

/-- The search never fails. -/
theorem Readable.search (h : c.Readable) (xs : List Candidate) (rounds : Nat) (i : Inference) :
    (Inference.search c xs rounds i).fault = none := by
  induction rounds generalizing i with
  | zero => rfl
  | succ rounds ih =>
    unfold Inference.search
    dsimp only
    split
    · exact Progress.along_fault_eq_none (fun m x _ => h.consider m x)
    · exact ih _

/-- The search over a readable configuration meets no fault. -/
theorem Readable.findWrappers (h : c.Readable) (table : FormatTable) : (table.findWrappers c).fault = none := by
  obtain ⟨xs, hxs⟩ := candidates_isOk_iff.2 (fun scope (_ : scope ∈ c.functionScopes) => h.candidateOf table scope)
  rw [FormatTable.findWrappers_eq hxs]
  exact h.search xs _ _

/-! ## Walks that end -/

/-- Every chain of tokens comes to its end, and a finite tree of commas hangs off every call. -/
structure FiniteWalks (c : Configuration) : Prop where
  chains : ∀ t, ∃ tokens, c.TokenRun none (some t) tokens
  calls : ∀ t, (c.token t).text = "(" → ∃ tree : ArgumentTree, tree.HangsOff c (c.token t).operand2

/-- It is enough to look at the chains that start in the table. -/
theorem finiteChains_of_forall_lt (h : ∀ t < c.tokens.size, (c.range (some t) none).Nodup) (t : TokenId) :
    ∃ tokens, c.TokenRun none (some t) tokens := by
  by_cases hsize : t < c.tokens.size
  · exact ⟨_, tokenRun_range_of_nodup (h t hsize)⟩
  · refine ⟨[t], .next (by simp) ?_⟩
    rw [token_of_size_le (Nat.not_lt.1 hsize)]
    exact .ended

/-- The walk from one token to another ends, with the tokens between them. -/
theorem FiniteWalks.follow_iterate (h : c.FiniteWalks) (start stop : Option TokenId) :
    (c.follow stop)^[(c.range start stop).length] (start, []) = (none, (c.range start stop).reverse) := by
  obtain ⟨tokens, hrun⟩ : ∃ tokens, c.TokenRun stop start tokens := by
    cases start with
    | none => exact ⟨[], .ended⟩
    | some t =>
      obtain ⟨tokens, hrun⟩ := h.chains t
      exact hrun.exists_stopped stop
  rw [hrun.range_eq, hrun.follow_iterate, List.append_nil]

/-- The walk over the arguments of a call ends, with the arguments of the call. -/
theorem FiniteWalks.turn_iterate (h : c.FiniteWalks) {t : TokenId} (ht : (c.token t).text = "(") :
    ∃ turns, c.turn^[turns] ([(c.token t).operand2], []) = ([], (c.callArguments (c.token t)).reverse) := by
  obtain ⟨tree, htree⟩ := h.calls t ht
  refine ⟨tree.turns, ?_⟩
  rw [Configuration.turn_iterate htree, callArguments_of_commaTree ht (commaTree_of_hangsOff htree), List.append_nil]

/-! ## The order of the scopes -/

/-- A configuration with other scopes. -/
def withScopes (c : Configuration) (scopes : List Scope) : Configuration :=
  { c with scopes }

section Scopes

variable (c : Configuration) (scopes : List Scope)

@[simp]
theorem withScopes_token (t : TokenId) : (c.withScopes scopes).token t = c.token t := rfl

@[simp]
theorem withScopes_look (t : Option TokenId) : (c.withScopes scopes).look t = c.look t := by
  cases t <;> rfl

@[simp]
theorem withScopes_variableAt (v : VariableId) : (c.withScopes scopes).variableAt v = c.variableAt v := rfl

@[simp]
theorem withScopes_functionAt (f : FunctionId) : (c.withScopes scopes).functionAt f = c.functionAt f := rfl

@[simp]
theorem withScopes_range (start stop : Option TokenId) : (c.withScopes scopes).range start stop = c.range start stop := by
  suffices key : ∀ n t, (c.withScopes scopes).chain stop n t = c.chain stop n t from key _ _
  intro n
  induction n with
  | zero => exact fun _ => rfl
  | succ n ih =>
    intro t
    cases t with
    | none => rfl
    | some t => simp only [chain, ih, withScopes_token]

@[simp]
theorem withScopes_scopeTokens (scope : Scope) : (c.withScopes scopes).scopeTokens scope = c.scopeTokens scope := by
  simp [scopeTokens]

@[simp]
theorem withScopes_locationOf? (t : Option TokenId) : (c.withScopes scopes).locationOf? t = c.locationOf? t := by
  cases t <;> rfl

@[simp]
theorem withScopes_nameOfFunction (f : FunctionDecl) (fallback : String) :
    (c.withScopes scopes).nameOfFunction f fallback = c.nameOfFunction f fallback := rfl

@[simp]
theorem withScopes_functionSymbol (f : FunctionId) (fallback : String) :
    (c.withScopes scopes).functionSymbol f fallback = c.functionSymbol f fallback := by
  simp [functionSymbol]

@[simp]
theorem withScopes_isFixed (v : VariableDecl) : (c.withScopes scopes).isFixed v = c.isFixed v := by
  simp only [isFixed, declaredWords, withScopes_range, withScopes_token, withScopes_look]
  rfl

@[simp]
theorem withScopes_variableSymbol (v : VariableId) : (c.withScopes scopes).variableSymbol v = c.variableSymbol v := by
  simp [variableSymbol, nameOfVariable]

@[simp]
theorem withScopes_calledSymbol (call : Token) : (c.withScopes scopes).calledSymbol call = c.calledSymbol call := by
  simp [calledSymbol, calledName, resolve]

@[simp]
theorem withScopes_callArguments (call : Token) : (c.withScopes scopes).callArguments call = c.callArguments call := by
  have key : ∀ pending found, (c.withScopes scopes).collectArguments pending found = c.collectArguments pending found := by
    intro pending found
    fun_induction collectArguments c pending found with
    | case1 found => rw [collectArguments]
    | case2 found allowance rest ih => rw [collectArguments, ih]
    | case3 found t rest ih =>
      rw [collectArguments, withScopes_token]
      exact ih
    | case4 found allowance t rest hcomma ih => rw [collectArguments, withScopes_token, if_pos hcomma, ih]
    | case5 found allowance t rest hother ih => rw [collectArguments, withScopes_token, if_neg hother, ih]
  simp only [callArguments, key]
  rfl

@[simp]
theorem withScopes_declaredSlot (f : FunctionDecl) : (c.withScopes scopes).declaredSlot f = c.declaredSlot f := by
  simp [declaredSlot, takesEllipsis, isArgumentList, typeName]

@[simp]
theorem withScopes_slot (table : FormatTable) (s : Symbol) : table.slot (c.withScopes scopes) s = table.slot c s := by
  cases hdecl : s.declaration <;> simp [FormatTable.slot, declaredSlot?, hdecl]

@[simp]
theorem withScopes_isNameOf (t : Token) (v : VariableId) : (c.withScopes scopes).isNameOf t v = c.isNameOf t v := rfl

/-- Which variable tokens pass on does not depend on the list of scopes. -/
theorem withScopes_passes (tokens : List TokenId) (v : VariableId) (callee : Symbol) (place : Nat) :
    (c.withScopes scopes).Passes tokens v callee place ↔ c.Passes tokens v callee place := by
  simp [Passes]

end Scopes

/-- Whether a configuration can be read does not depend on its scopes. -/
theorem Readable.withScopes (h : c.Readable) (scopes : List Scope) : (c.withScopes scopes).Readable where
  located := h.located
  typed v := by simpa using h.typed v

/-- With more function scopes a configuration keeps its wrappers. -/
theorem Wrapper.withScopes {scopes : List Scope} {s : Symbol} {place : Nat} (hscopes : ∀ scope ∈ c.scopes, scope ∈ scopes)
    (h : c.Wrapper table s place) : (c.withScopes scopes).Wrapper table s place := by
  have hdeclares : ∀ {scope s place v}, c.DeclaresFormat scope s place v →
      (c.withScopes scopes).DeclaresFormat scope s place v := by
    rintro scope s place v ⟨hscope, hrest⟩
    rw [functionScopes, List.mem_filter] at hscope
    exact ⟨List.mem_filter.2 ⟨hscopes _ hscope.1, hscope.2⟩, by simpa using hrest⟩
  induction h with
  | direct h hslot hnew hpasses hcallee =>
    exact .direct (hdeclares h) (by simpa using hslot) hnew (by simpa [withScopes_passes] using hpasses) (by simpa using hcallee)
  | through h hslot hnew hpasses hopen _ hkey ih =>
    exact .through (hdeclares h) (by simpa using hslot) hnew (by simpa [withScopes_passes] using hpasses) hopen ih hkey

/-- Scopes in another order are as distinct as before. -/
theorem DistinctKeys.withScopes {scopes : List Scope} (h : c.DistinctKeys) (hperm : scopes.Perm c.scopes) :
    (c.withScopes scopes).DistinctKeys := by
  have hmem : ∀ scope, scope ∈ (c.withScopes scopes).functionScopes ↔ scope ∈ c.functionScopes :=
    fun scope => (hperm.filter _).mem_iff
  intro scope hscope scope' hscope' f f' s s' hf hf' hs hs'
  rw [withScopes_functionSymbol] at hs hs'
  exact h scope ((hmem scope).1 hscope) scope' ((hmem scope').1 hscope') f f' s s' hf hf' hs hs'

end Configuration

namespace FormatTable

variable {c : Configuration} {table : FormatTable}

/-- Searches over the same scopes in two orders, both without a fault, come to the same places of formats. -/
theorem slot_withScopes (hkeys : c.DistinctKeys) {scopes : List Scope} (hperm : scopes.Perm c.scopes)
    (hfault : (table.findWrappers c).fault = none) (hfault' : (table.findWrappers (c.withScopes scopes)).fault = none)
    (s : Symbol) :
    (table.findWrappers (c.withScopes scopes)).state.table.slot c s = (table.findWrappers c).state.table.slot c s := by
  have hgrows := (grown_findWrappers table c).grows
  have hgrows' := (grown_findWrappers table (c.withScopes scopes)).grows
  have hwrapper : ∀ s place, (c.withScopes scopes).Wrapper table s place ↔ c.Wrapper table s place := by
    refine fun s place => ⟨fun h => ?_, fun h => h.withScopes (fun _ hscope => hperm.mem_iff.2 hscope)⟩
    have hscopes : ∀ scope ∈ (c.withScopes scopes).scopes, scope ∈ c.scopes := fun _ hscope => hperm.mem_iff.1 hscope
    -- with its own scopes put back the configuration is `c` again
    have hback : ((c.withScopes scopes).withScopes c.scopes).Wrapper table s place := h.withScopes hscopes
    exact hback
  have hinferred : ∀ k, Table.get? (table.findWrappers (c.withScopes scopes)).state.table.inferred k =
      Table.get? (table.findWrappers c).state.table.inferred k := by
    intro k
    refine Option.ext (fun p => ?_)
    rw [inferred_iff_wrapper (hkeys.withScopes hperm) hfault', inferred_iff_wrapper hkeys hfault]
    simp only [hwrapper]
  by_cases hopen : table.Open s
  · rw [slot_of_open (hgrows'.open_iff.2 hopen), slot_of_open (hgrows.open_iff.2 hopen), hinferred]
  · rw [slot_of_not_open hopen hgrows'.extra hgrows'.builtin, slot_of_not_open hopen hgrows.extra hgrows.builtin]

/-- The search for wrappers computes the least fixpoint. Each wrapper found forwards its format parameter to a function that took a
format before or was found earlier, and a function that took a format before takes it at the same place. If the locations and
types of the configuration can be read and its walks are finite, the search ends: each walk comes to its end, no matter how many
rounds are allowed the result is the same, and there is no fault. Afterwards no function that is left forwards its format
parameter, and a second search finds nothing. If no two functions share a key, exactly the wrappers are recorded, and the order of
the scopes makes no difference to any function. -/
theorem findWrappers_least_fixpoint (table : FormatTable) (c : Configuration) :
    (∀ before s after, (table.findWrappers c).state.found = before ++ s :: after →
      ∃ (scope : Scope) (place : Nat) (v : VariableId) (callee : Symbol) (place' : Nat),
        c.DeclaresFormat scope s place v ∧
        Table.get? (table.findWrappers c).state.table.inferred s.key = some (place : Int) ∧
        c.Passes (c.scopeTokens scope) v callee place' ∧ (table.findWrappers c).state.table.slot c callee = place' ∧
        (0 ≤ table.slot c callee ∨ ∃ s' ∈ before, s'.key = callee.key)) ∧
    (∀ s, 0 ≤ table.slot c s → (table.findWrappers c).state.table.slot c s = table.slot c s) ∧
    (c.Readable → c.FiniteWalks →
      (∀ start stop, (c.follow stop)^[(c.range start stop).length] (start, []) = (none, (c.range start stop).reverse)) ∧
      (∀ t, (c.token t).text = "(" →
        ∃ turns, c.turn^[turns] ([(c.token t).operand2], []) = ([], (c.callArguments (c.token t)).reverse)) ∧
      (∃ xs, c.candidates table c.functionScopes = .ok xs ∧
        ∀ more, Inference.search c xs (xs.length + 1 + more) { table } = table.findWrappers c) ∧
      (table.findWrappers c).fault = none ∧
      (∀ scope s place v, c.DeclaresFormat scope s place v → (table.findWrappers c).state.table.slot c s < 0 →
        Table.get? (table.findWrappers c).state.table.inferred s.key = none →
        ¬c.Forwards (table.findWrappers c).state.table (c.scopeTokens scope) v) ∧
      ((table.findWrappers c).state.table.findWrappers c).fault = none ∧
      ((table.findWrappers c).state.table.findWrappers c).state = { table := (table.findWrappers c).state.table } ∧
      (c.DistinctKeys →
        (∀ k p, Table.get? (table.findWrappers c).state.table.inferred k = some p ↔
          Table.get? table.inferred k = some p ∨ ∃ s place, c.Wrapper table s place ∧ s.key = k ∧ p = (place : Nat)) ∧
        ∀ scopes, scopes.Perm c.scopes →
          (table.findWrappers { c with scopes }).fault = none ∧
          ∀ s, (table.findWrappers { c with scopes }).state.table.slot { c with scopes } s =
            (table.findWrappers c).state.table.slot c s)) := by
  have hgrown := grown_findWrappers table c
  refine ⟨hgrown.found, fun s hs => hgrown.grows.slot_eq hs, fun hreadable hfinite => ?_⟩
  have hfault := hreadable.findWrappers table
  obtain ⟨hagain, hnothing⟩ := findWrappers_again hfault
  refine ⟨hfinite.follow_iterate, fun t ht => hfinite.turn_iterate ht, ?_, hfault, ?_, hagain, hnothing,
    fun hkeys => ⟨inferred_iff_wrapper hkeys hfault, ?_⟩⟩
  · obtain ⟨xs, hxs, -⟩ := closed_findWrappers hfault
    refine ⟨xs, hxs, fun more => ?_⟩
    rw [findWrappers_eq hxs]
    have hwaiting := waiting_lt xs { table }
    exact Inference.search_eq_of_lt (by omega) hwaiting
  · intro scope s place v hdeclares hslot hnew
    exact not_forwards_of_not_recorded hfault hdeclares (hgrown.grows.slot_neg hslot) hnew
  · intro scopes hperm
    have hfault' := (hreadable.withScopes scopes).findWrappers table
    refine ⟨hfault', fun s => ?_⟩
    exact (c.withScopes_slot scopes _ s).trans (slot_withScopes hkeys hperm hfault hfault' s)

namespace WrapperChain

def outerBody : Scope :=
  { kind := "Function", bodyStart := some 0, bodyStop := some 6, function := some 0 }

def innerBody : Scope :=
  { kind := "Function", bodyStart := some 7, bodyStop := some 11, function := some 1 }

/-- Two functions with a format and a list of arguments: `outer` passes its format on to `inner`, and `inner` to `vprintf`. The outer
one also calls a function that is declared on a given line. -/
def config (line : RawNumber) : Configuration :=
  { tokens := #[{ text := "\x7b", next := some 1 }, { text := "(", operand1 := some 2, operand2 := some 3, next := some 4 },
      { text := "inner", isName := true, functionRef := some 1 }, { text := "f", isName := true, variableRef := some 0 },
      { text := "(", operand1 := some 5, next := some 6 }, { text := "bad", isName := true, functionRef := some 2 },
      { text := "\x7d" }, { text := "\x7b", next := some 8 },
      { text := "(", operand1 := some 9, operand2 := some 10, next := some 11 }, { text := "vprintf", isName := true },
      { text := "g", isName := true, variableRef := some 1 }, { text := "\x7d" }, { text := "va_list", isName := true },
      { text := "bad", isName := true, functionRef := some 2, line }]
    variableDecls := #[{ name := "f", isArgument := true }, { name := "g", isArgument := true },
      { name := "ap", isArgument := true, typeStart := some 12 }]
    functionDecls := #[{ name := "outer", arguments := [(1, 0), (2, 2)] }, { name := "inner", arguments := [(1, 1), (2, 2)] },
      { name := "bad", nameToken := some 13 }]
    scopes := [outerBody, innerBody] }

def outer : Symbol :=
  { key := { space := "function", id := .text "outer" }, name := "outer", kind := .functionName, declaration := some 0 }

def inner : Symbol :=
  { key := { space := "function", id := .text "inner" }, name := "inner", kind := .functionName, declaration := some 1 }

/-- The configuration can be read if the other function is declared on a line with a number. -/
theorem readable : (config (.written "1")).Readable where
  located := Configuration.located_of_forall_mem (by decide)
  typed v := by
    have hvariables : ∀ x ∈ (config (.written "1")).variableDecls.toList, x.isArgument = true := by decide
    rw [Configuration.variableAt, Array.getD_eq_getD_getElem?]
    cases h : (config (.written "1")).variableDecls[v]? with
    | none => exact ⟨_, rfl⟩
    | some x =>
      have hx := hvariables x (Array.mem_toList_iff.2 (Array.mem_of_getElem? h))
      exact ⟨false, by simp [Configuration.isFixed, hx]⟩

/-- The walks through the chain of wrappers are finite. -/
theorem finiteWalks (line : RawNumber) : (config line).FiniteWalks where
  chains := Configuration.finiteChains_of_forall_lt (of_decide_eq_true rfl)
  calls t _ := by
    have htokens : ∀ x ∈ (config line).tokens.toList, x.text ≠ "," := of_decide_eq_true rfl
    cases ho : ((config line).token t).operand2 with
    | none => exact ⟨.missing, rfl⟩
    | some u =>
      refine ⟨.argument u, rfl, ?_⟩
      rw [Configuration.token, Array.getD_eq_getD_getElem?]
      cases hu : (config line).tokens[u]? with
      | none => decide
      | some x => exact htokens x (Array.mem_toList_iff.2 (Array.mem_of_getElem? hu))

/-- No two functions of the chain share a key. -/
theorem distinctKeys (line : RawNumber) : (config line).DistinctKeys := by
  have hscopes : (config line).functionScopes = [outerBody, innerBody] := of_decide_eq_true rfl
  have houter : (config line).functionSymbol 0 "" = .ok outer := rfl
  have hinner : (config line).functionSymbol 1 "" = .ok inner := rfl
  intro scope hscope scope' hscope' f f' s s' hf hf' hs hs' hkey
  simp only [hscopes, List.mem_cons, List.not_mem_nil, or_false] at hscope hscope'
  rcases hscope with rfl | rfl <;> rcases hscope' with rfl | rfl
  · rfl
  · cases hf
    cases hf'
    cases houter.symm.trans hs
    cases hinner.symm.trans hs'
    simp [outer, inner] at hkey
  · cases hf
    cases hf'
    cases hinner.symm.trans hs
    cases houter.symm.trans hs'
    simp [outer, inner] at hkey
  · rfl

/-- The outer function is a wrapper through the inner one. -/
theorem outer_wrapper (line : RawNumber) : (config line).Wrapper {} outer 0 := by
  have houter : (config line).DeclaresFormat outerBody outer 0 0 := ⟨of_decide_eq_true rfl, 0, rfl, rfl, by cbv, by cbv⟩
  have hinner : (config line).DeclaresFormat innerBody inner 0 1 := ⟨of_decide_eq_true rfl, 1, rfl, rfl, by cbv, by cbv⟩
  have hprint : (config line).Passes ((config line).scopeTokens innerBody) 1 (.ofLibraryFunction "vprintf") 0 :=
    ⟨8, of_decide_eq_true rfl, of_decide_eq_true rfl, rfl, 10, by cbv, of_decide_eq_true rfl⟩
  have hcall : (config line).Passes ((config line).scopeTokens outerBody) 0 inner 0 :=
    ⟨1, of_decide_eq_true rfl, of_decide_eq_true rfl, rfl, 3, by cbv, of_decide_eq_true rfl⟩
  have hwrapper : (config line).Wrapper {} inner 0 := .direct hinner (of_decide_eq_true rfl) rfl hprint (of_decide_eq_true rfl)
  exact .through houter (of_decide_eq_true rfl) rfl hcall ⟨rfl, rfl, of_decide_eq_true rfl⟩ hwrapper rfl

/-- The configuration with the inner function before the outer one. -/
def innerFirst (line : RawNumber) : Configuration :=
  { config line with scopes := [innerBody, outerBody] }

/-- If the inner function comes first, one round finds both functions. The call of the other function is never looked at. -/
theorem findWrappers_innerFirst (line : RawNumber) :
    (findWrappers {} (innerFirst line)).fault = none ∧ (findWrappers {} (innerFirst line)).state.found = [inner, outer] := by
  let candidate : Candidate := { scope := innerBody, symbol := inner, slot := 0, parameter := 1 }
  let candidate' : Candidate := { scope := outerBody, symbol := outer, slot := 0, parameter := 0 }
  let first : Inference := { table := { inferred := [(inner.key, 0)] }, found := [inner] }
  let both : Inference := { table := { inferred := [(inner.key, 0), (outer.key, 0)] }, found := [inner, outer] }
  have hcandidates : (innerFirst line).candidates {} (innerFirst line).functionScopes = .ok [candidate, candidate'] := by cbv
  have hinner : (Inference.consider (innerFirst line) { table := {} } candidate).result = .ok first := by cbv
  have houter : (Inference.consider (innerFirst line) first candidate').result = .ok both := by cbv
  have hround : Progress.Reaches (Inference.consider (innerFirst line)) { table := {} } [candidate, candidate'] both :=
    Progress.reaches_cons.2 ⟨first, hinner, Progress.reaches_cons.2 ⟨both, houter, Progress.reaches_nil.2 rfl⟩⟩
  have hfixed : ∀ x ∈ [candidate, candidate'], (Inference.consider (innerFirst line) both x).result = .ok both := by
    simp only [List.forall_mem_cons, List.not_mem_nil, false_implies, implies_true, and_true]
    exact ⟨rfl, rfl⟩
  obtain ⟨hfault, hstate⟩ := findWrappers_of_round hcandidates hround hfixed
  exact ⟨hfault, by rw [hstate]⟩

end WrapperChain

/-- The outer function is recorded, though it comes before the inner one, and with the scopes turned around the places of all
functions are the same. -/
theorem wrapper_chain_in_any_order :
    Table.get? (findWrappers {} (WrapperChain.config (.written "1"))).state.table.inferred WrapperChain.outer.key = some 0 ∧
      ∀ s, (findWrappers {} { WrapperChain.config (.written "1") with
            scopes := (WrapperChain.config (.written "1")).scopes.reverse }).state.table.slot
          { WrapperChain.config (.written "1") with scopes := (WrapperChain.config (.written "1")).scopes.reverse } s =
        (findWrappers {} (WrapperChain.config (.written "1"))).state.table.slot (WrapperChain.config (.written "1")) s := by
  obtain ⟨-, -, hends⟩ := findWrappers_least_fixpoint {} (WrapperChain.config (.written "1"))
  obtain ⟨-, -, -, -, -, -, -, hexact⟩ := hends WrapperChain.readable (WrapperChain.finiteWalks _)
  obtain ⟨hrecorded, horder⟩ := hexact (WrapperChain.distinctKeys _)
  refine ⟨(hrecorded _ _).2 (Or.inr ⟨_, 0, WrapperChain.outer_wrapper _, rfl, rfl⟩), ?_⟩
  exact (horder _ (List.reverse_perm _)).2

/-- With another function declared on a line without a number, the search ends at the call of that function if the outer function
comes first, though both functions are wrappers. If the inner one comes first, both are found before that call is met. -/
theorem unreadable_callee_ends_search :
    (WrapperChain.config (.written "zz")).FiniteWalks ∧ (WrapperChain.config (.written "zz")).DistinctKeys ∧
    (WrapperChain.config (.written "zz")).Wrapper {} WrapperChain.outer 0 ∧
    (findWrappers {} (WrapperChain.config (.written "zz"))).fault = some (.notANumber "zz" .malformed) ∧
    (findWrappers {} (WrapperChain.config (.written "zz"))).state.found = [] ∧
    (findWrappers {} { WrapperChain.config (.written "zz") with
      scopes := [WrapperChain.innerBody, WrapperChain.outerBody] }).fault = none ∧
    (findWrappers {} { WrapperChain.config (.written "zz") with
      scopes := [WrapperChain.innerBody, WrapperChain.outerBody] }).state.found = [WrapperChain.inner, WrapperChain.outer] :=
  ⟨WrapperChain.finiteWalks _, WrapperChain.distinctKeys _, WrapperChain.outer_wrapper _, by cbv, by cbv,
    WrapperChain.findWrappers_innerFirst _⟩

end FormatTable

end FormatAudit
