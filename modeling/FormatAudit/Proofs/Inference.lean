import FormatAudit.Proofs.FormatTable

/-!
# The search for wrappers, step by step

A function is a wrapper if it is not known to take a format, its declaration has a format parameter, and its body passes this
parameter on as a format: of a function that takes one already, or of another wrapper (`Wrapper`, the least such predicate). The
search records a wrapper as soon as it meets one, so candidates that are looked at later in a round see it already. What every
step keeps is `Grown`: the table only gains entries, and each of them is a wrapper that rests on what was found before it. Every
round but the last takes a candidate away (`waiting_round`), so the bound on the rounds never decides (`search_eq_of_lt`), and a
search that stops without a fault leaves no candidate that would still be recorded (`search_closed`).
-/

namespace FormatAudit

namespace Configuration

variable {c : Configuration} {table : FormatTable} {scope : Scope} {x : Candidate}

/-- The function of a scope is declared with a format parameter at a place. -/
def DeclaresFormat (c : Configuration) (scope : Scope) (s : Symbol) (place : Nat) (v : VariableId) : Prop :=
  scope ∈ c.functionScopes ∧ ∃ f, scope.function = some f ∧ c.functionSymbol f "" = .ok s ∧
    c.declaredSlot (c.functionAt f) = place ∧ (c.functionAt f).parameters[place]? = some v

/-- A scope declares at most one format parameter. -/
theorem DeclaresFormat.unique {s s' : Symbol} {place place' : Nat} {v v' : VariableId}
    (h : c.DeclaresFormat scope s place v) (h' : c.DeclaresFormat scope s' place' v') : s = s' ∧ place = place' ∧ v = v' := by
  obtain ⟨-, f, hf, hs, hplace, hv⟩ := h
  obtain ⟨-, f', hf', hs', hplace', hv'⟩ := h'
  obtain rfl : f = f' := Option.some.inj (hf.symm.trans hf')
  obtain rfl : place = place' := by omega
  exact ⟨Except.ok.inj (hs.symm.trans hs'), rfl, Option.some.inj (hv.symm.trans hv')⟩

/-- The candidate of a scope: its function, with a format parameter, that is not known to take a format. -/
theorem candidateOf_eq_some_iff : c.candidateOf table scope = .ok (some x) ↔
    x.scope = scope ∧ table.slot c x.symbol < 0 ∧ ∃ (f : FunctionId) (place : Nat), scope.function = some f ∧
      c.functionSymbol f "" = .ok x.symbol ∧ c.declaredSlot (c.functionAt f) = place ∧ x.slot = place ∧
      (c.functionAt f).parameters[place]? = some x.parameter := by
  unfold candidateOf
  constructor
  · intro h
    split at h
    · cases h
    · rename_i f hf
      dsimp only at h
      split at h
      · cases h
      · rename_i hnonneg
        obtain ⟨place, hplace⟩ := Int.eq_ofNat_of_zero_le (Int.not_lt.1 hnonneg)
        obtain ⟨s, hs, h⟩ := except_bind_eq_ok.1 h
        split at h
        · cases h
        · rename_i hslot
          rw [hplace, Int.toNat_natCast, except_pure_eq_ok, Option.map_eq_some_iff] at h
          obtain ⟨v, hv, rfl⟩ := h
          exact ⟨rfl, Int.not_le.1 hslot, f, place, hf, hs, hplace, rfl, hv⟩
  · rintro ⟨hscope, hslot, f, place, hf, hs, hplace, hx, hv⟩
    obtain ⟨scope', symbol, slot, parameter⟩ := x
    dsimp only at hscope hslot hs hx hv
    subst hscope hx
    simp only [hf, hplace, hs, except_ok_bind, Int.toNat_natCast, hv, if_neg (Int.not_le.2 hslot),
      if_neg (show ¬(place : Int) < 0 by omega), Option.map_some]
    rfl

/-- The candidates are what the scopes give. -/
theorem mem_candidates {scopes : List Scope} {xs : List Candidate} (h : c.candidates table scopes = .ok xs) :
    x ∈ xs ↔ x.scope ∈ scopes ∧ c.candidateOf table x.scope = .ok (some x) := by
  induction scopes generalizing xs with
  | nil =>
    cases h
    simp
  | cons scope scopes ih =>
    unfold candidates at h
    obtain ⟨o, ho, h⟩ := except_bind_eq_ok.1 h
    obtain ⟨more, hmore, h⟩ := except_bind_eq_ok.1 h
    rw [except_pure_eq_ok] at h
    rw [← h, List.mem_append, Option.mem_toList, ih hmore, List.mem_cons]
    constructor
    · rintro (rfl | ⟨hmem, hx⟩)
      · obtain rfl := (candidateOf_eq_some_iff.1 ho).1
        exact ⟨Or.inl rfl, ho⟩
      · exact ⟨Or.inr hmem, hx⟩
    · rintro ⟨rfl | hmem, hx⟩
      · exact Or.inl (Except.ok.inj (ho.symm.trans hx))
      · exact Or.inr ⟨hmem, hx⟩

/-- There are candidates if every scope can be looked at. -/
theorem candidates_isOk_iff {scopes : List Scope} :
    (∃ xs, c.candidates table scopes = .ok xs) ↔ ∀ scope ∈ scopes, ∃ o, c.candidateOf table scope = .ok o := by
  induction scopes with
  | nil => simp [candidates]
  | cons scope scopes ih =>
    rw [List.forall_mem_cons, ← ih, candidates]
    constructor
    · rintro ⟨xs, h⟩
      obtain ⟨o, ho, h⟩ := except_bind_eq_ok.1 h
      obtain ⟨more, hmore, -⟩ := except_bind_eq_ok.1 h
      exact ⟨⟨o, ho⟩, more, hmore⟩
    · rintro ⟨⟨o, ho⟩, more, hmore⟩
      exact ⟨o.toList ++ more, by rw [ho, hmore]; rfl⟩

/-- Whether a scope can be looked at does not depend on the table. -/
theorem candidateOf_isOk (table' : FormatTable) (h : ∃ o, c.candidateOf table scope = .ok o) :
    ∃ o, c.candidateOf table' scope = .ok o := by
  obtain ⟨o, ho⟩ := h
  unfold candidateOf at ho ⊢
  cases hf : scope.function with
  | none => exact ⟨none, rfl⟩
  | some f =>
    simp only [hf] at ho ⊢
    split at ho
    · rename_i hneg
      exact ⟨none, by rw [if_pos hneg]⟩
    · rename_i hnonneg
      obtain ⟨s, hs, -⟩ := except_bind_eq_ok.1 ho
      rw [if_neg hnonneg, hs, except_ok_bind]
      split
      · exact ⟨_, rfl⟩
      · exact ⟨_, rfl⟩

/-- The candidates of a configuration. -/
theorem mem_candidates_iff {xs : List Candidate} (h : c.candidates table c.functionScopes = .ok xs) :
    x ∈ xs ↔ ∃ place : Nat, x.slot = place ∧ c.DeclaresFormat x.scope x.symbol place x.parameter ∧
      table.slot c x.symbol < 0 := by
  rw [mem_candidates h, candidateOf_eq_some_iff]
  constructor
  · rintro ⟨hmem, -, hslot, f, place, hf, hs, hplace, hx, hv⟩
    exact ⟨place, hx, ⟨hmem, f, hf, hs, hplace, hv⟩, hslot⟩
  · rintro ⟨place, hx, ⟨hmem, f, hf, hs, hplace, hv⟩, hslot⟩
    exact ⟨hmem, rfl, hslot, f, place, hf, hs, hplace, hx, hv⟩

/-- The functions that turn out to take a format: those with a format parameter that pass it on, as a format, to a function that
takes one or to another wrapper. -/
inductive Wrapper (c : Configuration) (table : FormatTable) : Symbol → Nat → Prop where
  | direct {scope : Scope} {s callee : Symbol} {place place' : Nat} {v : VariableId} : c.DeclaresFormat scope s place v →
      table.slot c s < 0 → Table.get? table.inferred s.key = none → c.Passes (c.scopeTokens scope) v callee place' →
      table.slot c callee = place' → Wrapper c table s place
  | through {scope : Scope} {s callee s' : Symbol} {place place' : Nat} {v : VariableId} : c.DeclaresFormat scope s place v →
      table.slot c s < 0 → Table.get? table.inferred s.key = none → c.Passes (c.scopeTokens scope) v callee place' →
      table.Open callee → Wrapper c table s' place' → s'.key = callee.key → Wrapper c table s place

theorem Wrapper.declares {s : Symbol} {place : Nat} (h : c.Wrapper table s place) :
    (∃ scope v, c.DeclaresFormat scope s place v) ∧ table.slot c s < 0 ∧ Table.get? table.inferred s.key = none := by
  cases h with
  | direct hdeclares hslot hnew => exact ⟨⟨_, _, hdeclares⟩, hslot, hnew⟩
  | through hdeclares hslot hnew => exact ⟨⟨_, _, hdeclares⟩, hslot, hnew⟩

end Configuration

namespace Inference

variable {c : Configuration} {table : FormatTable} {i i' : Inference} {x : Candidate} {xs : List Candidate}

/-! ## One step -/

/-- Everything that a look at a candidate can do: it leaves the state as it is, or it records the candidate. -/
theorem consider_cases (h : (consider c i x).result = .ok i') :
    (i' = i ∧ (Table.get? i.table.inferred x.symbol.key = none →
      ¬c.Forwards i.table (c.scopeTokens x.scope) x.parameter)) ∨
    (Table.get? i.table.inferred x.symbol.key = none ∧ c.Forwards i.table (c.scopeTokens x.scope) x.parameter ∧
      i' = { table := i.table.learn x.symbol x.slot, found := i.found ++ [x.symbol] }) := by
  unfold consider at h
  split at h
  · rename_i hknown
    cases h
    exact Or.inl ⟨rfl, fun hnew => by rw [hnew] at hknown; cases hknown⟩
  · rename_i hnew
    rw [Option.not_isSome_iff_eq_none] at hnew
    obtain ⟨forwards, hforwards, h⟩ := Logged.bind_result_eq_ok.1 h
    have hiff := Configuration.anyCallForwards_eq_ok hforwards
    cases forwards with
    | false =>
      cases h
      exact Or.inl ⟨rfl, fun _ => by simpa using hiff⟩
    | true =>
      cases h
      exact Or.inr ⟨hnew, hiff.1 rfl, rfl⟩

/-- Whether a look at a candidate changes nothing is told by the table alone. -/
theorem consider_fixed_iff : (consider c i x).result = .ok i ↔
    (Table.get? i.table.inferred x.symbol.key).isSome = true ∨
      c.anyCallForwards i.table x.parameter (c.scopeTokens x.scope) = .ok false := by
  unfold consider
  split
  · simp [*]
  · rename_i hnew
    rw [Logged.bind_result_eq_ok]
    constructor
    · rintro ⟨forwards, hforwards, h⟩
      cases forwards with
      | false => exact Or.inr hforwards
      | true =>
        have hlength := congrArg (fun i : Inference => i.found.length) (Except.ok.inj h)
        simp at hlength
    · rintro (hknown | hforwards)
      · exact absurd hknown hnew
      · exact ⟨false, hforwards, rfl⟩

/-- A wrapper that was found rests on what the table said before, or on a wrapper found earlier. -/
def FoundAfter (c : Configuration) (table final : FormatTable) (before : List Symbol) (s : Symbol) : Prop :=
  ∃ (scope : Scope) (place : Nat) (v : VariableId) (callee : Symbol) (place' : Nat),
    c.DeclaresFormat scope s place v ∧ Table.get? final.inferred s.key = some (place : Int) ∧
      c.Passes (c.scopeTokens scope) v callee place' ∧ final.slot c callee = place' ∧
      (0 ≤ table.slot c callee ∨ ∃ s' ∈ before, s'.key = callee.key)

theorem FoundAfter.extends {final final' : FormatTable} {before : List Symbol} {s : Symbol}
    (h : FoundAfter c table final before s) (hextends : final.Extends final') : FoundAfter c table final' before s := by
  obtain ⟨scope, place, v, callee, place', hdeclares, hrecorded, hpasses, hslot, hrests⟩ := h
  exact ⟨scope, place, v, callee, place', hdeclares, hextends.inferred _ _ hrecorded, hpasses,
    by rw [hextends.slot_eq (by omega), hslot], hrests⟩

/-- The invariant of the search: the table has grown from the first one by wrappers, and each wrapper found rests on what was
known or found before it. -/
structure Grown (c : Configuration) (table : FormatTable) (i : Inference) : Prop where
  grows : table.Extends i.table
  inferred : ∀ k p, Table.get? i.table.inferred k = some p → Table.get? table.inferred k = some p ∨
    ∃ s ∈ i.found, s.key = k ∧ ∃ place : Nat, p = place ∧ c.Wrapper table s place
  found : ∀ before s after, i.found = before ++ s :: after → FoundAfter c table i.table before s

/-- The invariant holds at the start of the search. -/
theorem grown_start (c : Configuration) (table : FormatTable) : Grown c table { table } :=
  ⟨.refl table, fun _ _ h => Or.inl h, fun _ _ _ h => by simp at h⟩

/-- A function that takes a format, as the search goes on, took one at the start or is a wrapper found by now. -/
theorem Grown.slot_cases (h : Grown c table i) {callee : Symbol} {place : Nat} (hslot : i.table.slot c callee = place) :
    table.slot c callee = place ∨
      table.Open callee ∧ ∃ s ∈ i.found, s.key = callee.key ∧ c.Wrapper table s place := by
  rcases h.grows.slot_cases (c := c) (s := callee) (by omega) with hold | ⟨hopen, hnew, hrecorded⟩
  · exact Or.inl (hold.trans hslot)
  · right
    rcases h.inferred _ _ hrecorded with hold | ⟨s, hs, hkey, place', hplace', hwrapper⟩
    · rw [hnew] at hold
      cases hold
    · obtain rfl : place = place' := by omega
      exact ⟨hopen, s, hs, hkey, hwrapper⟩

/-- Every step keeps the invariant. -/
theorem grown_step (hxs : c.candidates table c.functionScopes = .ok xs) (hx : x ∈ xs) (hi : Grown c table i)
    (h : (consider c i x).result = .ok i') : Grown c table i' := by
  rcases consider_cases h with ⟨rfl, -⟩ | ⟨hnew, ⟨callee, place', hplace', hpasses⟩, rfl⟩
  · exact hi
  obtain ⟨place, hplace, hdeclares, hslot⟩ := (Configuration.mem_candidates_iff hxs).1 hx
  have hstep := FormatTable.Extends.learn hnew x.slot
  have hfresh : Table.get? table.inferred x.symbol.key = none := by
    cases hold : Table.get? table.inferred x.symbol.key with
    | none => rfl
    | some p =>
      rw [hi.grows.inferred _ _ hold] at hnew
      cases hnew
  have hcallee := hi.slot_cases hplace'
  refine ⟨hi.grows.trans hstep, fun k p hk => ?_, fun before s after hfound => ?_⟩
  · rw [FormatTable.learn, Table.get?_put] at hk
    split at hk
    · rename_i hkey
      obtain rfl := Option.some.inj hk
      refine Or.inr ⟨x.symbol, by simp, (eq_of_beq hkey).symm, place, hplace, ?_⟩
      rcases hcallee with hold | ⟨hopen, s, -, hs, hwrapper⟩
      · exact .direct hdeclares hslot hfresh hpasses hold
      · exact .through hdeclares hslot hfresh hpasses hopen hwrapper hs
    · rcases hi.inferred k p hk with hold | ⟨s, hs, hrest⟩
      · exact Or.inl hold
      · exact Or.inr ⟨s, by simp [hs], hrest⟩
  · rcases snoc_eq_append_cons hfound with ⟨rfl, -, rfl⟩ | ⟨init, rfl, hinit⟩
    · refine ⟨x.scope, place, x.parameter, callee, place', hdeclares, ?_, hpasses, ?_, ?_⟩
      · rw [FormatTable.learn, Table.get?_put, hplace]
        simp
      · rw [hstep.slot_eq (by omega), hplace']
      · rcases hcallee with hold | ⟨-, s, hs, hkey, -⟩
        · exact Or.inl (by omega)
        · exact Or.inr ⟨s, hs, hkey⟩
    · exact (hi.found before s init hinit).extends hstep

/-! ## Rounds -/

/-- The candidates that are not recorded. -/
def waiting (xs : List Candidate) (i : Inference) : Nat :=
  xs.countP (fun x => (Table.get? i.table.inferred x.symbol.key).isNone)

/-- Recording a candidate leaves fewer of them. -/
theorem waiting_learn (hx : x ∈ xs) (hnew : Table.get? i.table.inferred x.symbol.key = none) (found : List Symbol) :
    waiting xs { table := i.table.learn x.symbol x.slot, found } < waiting xs i := by
  have hmono : ∀ ys, waiting ys { table := i.table.learn x.symbol x.slot, found } ≤ waiting ys i := by
    refine fun ys => List.countP_mono_left (fun y _ hy => ?_)
    rw [Option.isNone_iff_eq_none] at hy ⊢
    cases hold : Table.get? i.table.inferred y.symbol.key with
    | none => rfl
    | some p =>
      rw [(FormatTable.Extends.learn hnew x.slot).inferred _ _ hold] at hy
      cases hy
  have hself : Table.get? (i.table.learn x.symbol x.slot).inferred x.symbol.key = some x.slot := by
    rw [FormatTable.learn, Table.get?_put]
    simp
  obtain ⟨before, after, rfl⟩ := List.append_of_mem hx
  have hbefore := hmono before
  have hafter := hmono after
  simp only [waiting, List.countP_append, List.countP_cons, hself, hnew, Option.isNone_some, Option.isNone_none,
    Bool.false_eq_true, if_false, if_true] at hbefore hafter ⊢
  omega

/-- A step records at most one candidate, and leaves as many fewer. -/
theorem waiting_step (hx : x ∈ xs) (h : (consider c i x).result = .ok i') :
    i.found.length ≤ i'.found.length ∧ waiting xs i' + i'.found.length ≤ waiting xs i + i.found.length := by
  rcases consider_cases h with ⟨rfl, -⟩ | ⟨hnew, -, rfl⟩
  · exact ⟨Nat.le_refl _, Nat.le_refl _⟩
  · have hless := waiting_learn hx hnew (i.found ++ [x.symbol])
    simp only [List.length_append, List.length_singleton]
    omega

/-- A round without a new wrapper leaves the state as it was, and so does every step of it. -/
theorem round_fixed {r : Inference} (h : Progress.Reaches (consider c) i xs r) (hlength : r.found.length = i.found.length) :
    r = i ∧ ∀ x ∈ xs, (consider c i x).result = .ok i := by
  induction xs generalizing i with
  | nil =>
    obtain rfl := Progress.reaches_nil.1 h
    exact ⟨rfl, by simp⟩
  | cons x xs ih =>
    obtain ⟨m, hm, hrest⟩ := Progress.reaches_cons.1 h
    have hgrows : m.found.length ≤ r.found.length := by
      rw [← hrest.2]
      exact Progress.along_invariant (P := fun j => m.found.length ≤ j.found.length) (Nat.le_refl _)
        (fun j y j' hy hj hstep => Nat.le_trans hj (waiting_step hy hstep).1)
    rcases consider_cases hm with ⟨rfl, -⟩ | ⟨-, -, rfl⟩
    · obtain ⟨rfl, hfixed⟩ := ih hrest hlength
      exact ⟨rfl, by simpa [hm] using hfixed⟩
    · simp only [List.length_append, List.length_singleton] at hgrows
      omega

/-- A search whose first round changes nothing ends there. -/
theorem search_of_fixed (h : ∀ x ∈ xs, (consider c i x).result = .ok i) (rounds : Nat) :
    (search c xs (rounds + 1) i).fault = none ∧ (search c xs (rounds + 1) i).state = i := by
  have hround : Progress.Reaches (consider c) i xs i := by
    induction xs with
    | nil => exact Progress.reaches_nil.2 rfl
    | cons x xs ih =>
      exact Progress.reaches_cons.2 ⟨i, h x List.mem_cons_self, ih (fun y hy => h y (List.mem_cons_of_mem _ hy))⟩
  unfold search
  dsimp only
  rw [if_pos (by simp [hround.2])]
  exact hround

/-- After a round that finds a wrapper the search goes on from what the round has found. -/
theorem search_of_round (h : Progress.Reaches (consider c) i xs r) (hlength : r.found.length ≠ i.found.length) (rounds : Nat) :
    (search c xs (rounds + 1) i).fault = (search c xs rounds r).fault ∧
      (search c xs (rounds + 1) i).state = (search c xs rounds r).state := by
  obtain ⟨hfault, hstate⟩ := h
  rw [search]
  dsimp only
  rw [if_neg (by simp [hfault, hstate, hlength]), hstate]
  exact ⟨rfl, rfl⟩

/-- What every look at a candidate keeps, the search keeps. -/
theorem search_invariant {P : Inference → Prop} (start : P i)
    (keep : ∀ m x m', x ∈ xs → P m → (consider c m x).result = .ok m' → P m') (rounds : Nat) :
    P (search c xs rounds i).state := by
  induction rounds generalizing i with
  | zero => exact start
  | succ rounds ih =>
    have hround := Progress.along_invariant start keep
    unfold search
    dsimp only
    split
    · exact hround
    · exact ih hround

/-- A round after which the search goes on leaves fewer candidates. -/
theorem waiting_round (h : ¬((Progress.along (consider c) i xs).state.found.length == i.found.length) = true) :
    waiting xs (Progress.along (consider c) i xs).state < waiting xs i := by
  have hround : i.found.length ≤ (Progress.along (consider c) i xs).state.found.length ∧
      waiting xs (Progress.along (consider c) i xs).state + (Progress.along (consider c) i xs).state.found.length ≤
        waiting xs i + i.found.length := by
    refine Progress.along_invariant (P := fun j => i.found.length ≤ j.found.length ∧
      waiting xs j + j.found.length ≤ waiting xs i + i.found.length) ⟨Nat.le_refl _, Nat.le_refl _⟩ ?_
    intro j y j' hy hj hstep
    have hnext := waiting_step hy hstep
    exact ⟨Nat.le_trans hj.1 hnext.1, Nat.le_trans hnext.2 hj.2⟩
  rw [beq_iff_eq] at h
  omega

/-- The bound on the rounds never decides: any two bounds above the number of waiting candidates give the same. -/
theorem search_eq_of_lt {rounds rounds' : Nat} (h : waiting xs i < rounds) (h' : waiting xs i < rounds') :
    search c xs rounds i = search c xs rounds' i := by
  induction rounds generalizing i rounds' with
  | zero => omega
  | succ rounds ih =>
    obtain ⟨rounds', rfl⟩ : ∃ n, rounds' = n + 1 := ⟨rounds' - 1, by omega⟩
    unfold search
    dsimp only
    split
    · rfl
    · rename_i hgoes
      rw [Bool.or_eq_true, not_or] at hgoes
      have hless := waiting_round hgoes.2
      rw [ih (by omega) (show _ < rounds' by omega)]

/-- A search that stops without a fault has looked at every candidate in its last state and recorded none. -/
theorem search_closed {rounds : Nat} (h : waiting xs i < rounds) (hfault : (search c xs rounds i).fault = none) :
    ∀ x ∈ xs, (consider c (search c xs rounds i).state x).result = .ok (search c xs rounds i).state := by
  induction rounds generalizing i with
  | zero => omega
  | succ rounds ih =>
    unfold search at hfault ⊢
    dsimp only at hfault ⊢
    split at hfault
    · rename_i hstops
      rw [if_pos hstops]
      rw [hfault] at hstops
      obtain ⟨hstate, hfixed⟩ := round_fixed ⟨hfault, rfl⟩ (by simpa using hstops)
      rw [hstate]
      exact hfixed
    · rename_i hgoes
      rw [if_neg hgoes]
      rw [Bool.or_eq_true, not_or] at hgoes
      exact ih (Nat.lt_of_lt_of_le (waiting_round hgoes.2) (by omega)) hfault

end Inference

end FormatAudit
