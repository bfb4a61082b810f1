import FormatAudit.Log

/-!
# Runs that come to their end

`Progress.along` takes one step after the other until one fails. `Progress.Reaches` says that a run met no fault and ended in a
given state. A run over two lists is a run over each (`reaches_append`), and `Reaches.induction` is the one induction that all
statements about runs go through: what holds at the start and is kept by every step holds at the end.
-/

namespace FormatAudit

section Results

variable {ε α β : Type}

/-- A sequence succeeds exactly when both of its parts do. -/
theorem except_bind_eq_ok {x : Except ε α} {f : α → Except ε β} {b : β} :
    (x >>= f) = .ok b ↔ ∃ a, x = .ok a ∧ f a = .ok b := by
  cases x <;> simp [bind, Except.bind]

/-- A mapped result is one that there was before, mapped. -/
theorem except_map_eq_ok {x : Except ε α} {f : α → β} {b : β} : x.map f = .ok b ↔ ∃ a, x = .ok a ∧ f a = b := by
  cases x with
  | error e => simp [Except.map]
  | ok a => simp [Except.map]

@[simp]
theorem except_map_ok (a : α) (f : α → β) : (.ok a : Except ε α).map f = .ok (f a) := rfl

@[simp]
theorem except_ok_bind (a : α) (f : α → Except ε β) : ((.ok a : Except ε α) >>= f) = f a := rfl

@[simp]
theorem except_pure_eq_ok {a b : α} : (pure a : Except ε α) = .ok b ↔ a = b := by
  simp [pure, Except.pure]

/-- A computation without records has the result it is made of. -/
@[simp]
theorem Logged.result_liftM (x : Except ε α) : (liftM x : Logged ε α).result = x := rfl

@[simp]
theorem Logged.liftM_ok_bind (a : α) (f : α → Logged ε β) : ((liftM (.ok a : Except ε α) : Logged ε α) >>= f) = f a := rfl

/-- A sequence of logged computations succeeds exactly when both of its parts do. -/
theorem Logged.bind_result_eq_ok {x : Logged ε α} {f : α → Logged ε β} {b : β} :
    (x >>= f).result = .ok b ↔ ∃ a, x.result = .ok a ∧ (f a).result = .ok b := by
  rw [Logged.result_bind, except_bind_eq_ok]

/-- Continuing after a result puts the records one after the other. -/
theorem Logged.bind_of_ok {x : Logged ε α} {a : α} (h : x.result = .ok a) (f : α → Logged ε β) :
    x >>= f = { log := x.log ++ (f a).log, result := (f a).result } :=
  Logged.ext (Logged.log_bind_of_ok h f) (by rw [Logged.result_bind, h, except_ok_bind])

/-- Nothing is done after a failure. -/
theorem Logged.bind_of_error {x : Logged ε α} {e : ε} (h : x.result = .error e) (f : α → Logged ε β) :
    x >>= f = { log := x.log, result := .error e } :=
  Logged.ext (Logged.log_bind_of_error h f) (by rw [Logged.result_bind, h]; rfl)

instance : LawfulMonad (Logged ε) := by
  refine LawfulMonad.mk' _ ?_ ?_ ?_
  · intro α x
    show x >>= pure = x
    cases h : x.result with
    | error e => rw [Logged.bind_of_error h, ← h]
    | ok a =>
      rw [Logged.bind_of_ok h]
      exact Logged.ext (List.append_nil _) h.symm
  · intro α β a f
    rfl
  · intro α β γ x f g
    cases h : x.result with
    | error e => rw [Logged.bind_of_error h, Logged.bind_of_error h, Logged.bind_of_error rfl]
    | ok a =>
      rw [Logged.bind_of_ok h, Logged.bind_of_ok h]
      cases hf : (f a).result with
      | error e => rw [Logged.bind_of_error rfl, Logged.bind_of_error hf]
      | ok b => rw [Logged.bind_of_ok rfl, Logged.bind_of_ok hf, List.append_assoc]

/-- Mapping over a computation maps its result. -/
@[simp]
theorem Logged.result_map (f : α → β) (x : Logged ε α) : (f <$> x).result = x.result.map f := by
  rw [← bind_pure_comp, Logged.result_bind]
  cases x.result with
  | error e => rfl
  | ok a => rfl

end Results

/-- Where a list that ends in `a` can be split: at its end, or inside the list before. -/
theorem snoc_eq_append_cons {α : Type} {l before after : List α} {a b : α} (h : l ++ [a] = before ++ b :: after) :
    (b = a ∧ after = [] ∧ before = l) ∨ ∃ init, after = init ++ [a] ∧ l = before ++ b :: init := by
  rcases List.eq_nil_or_concat after with rfl | ⟨init, u, rfl⟩
  · obtain ⟨h1, h2⟩ := List.append_inj' h rfl
    exact Or.inl ⟨by simpa using h2.symm, rfl, h1.symm⟩
  · have h' : l ++ [a] = (before ++ b :: init) ++ [u] := by simpa using h
    obtain ⟨h1, h2⟩ := List.append_inj' h' rfl
    exact Or.inr ⟨init, by simpa using h2.symm, h1⟩

namespace Progress

variable {ε σ α : Type} {step : σ → α → Logged ε σ} {s s' : σ}

/-- A run over a list meets no fault and ends in the given state. -/
def Reaches (step : σ → α → Logged ε σ) (s : σ) (l : List α) (s' : σ) : Prop :=
  (along step s l).fault = none ∧ (along step s l).state = s'

theorem reaches_nil : Reaches step s [] s' ↔ s = s' := by
  simp [Reaches, along]

/-- A run over a list that is not empty is one step and then a run over the rest. -/
theorem reaches_cons {a : α} {l : List α} :
    Reaches step s (a :: l) s' ↔ ∃ m, (step s a).result = .ok m ∧ Reaches step m l s' := by
  unfold Reaches
  rw [along]
  cases h : (step s a).result with
  | error e => simp
  | ok m => simp

/-- A run over two lists is a run over the first and then one over the second. -/
theorem reaches_append {l₁ l₂ : List α} :
    Reaches step s (l₁ ++ l₂) s' ↔ ∃ m, Reaches step s l₁ m ∧ Reaches step m l₂ s' := by
  induction l₁ generalizing s with
  | nil => simp [reaches_nil]
  | cons a l ih =>
    simp only [List.cons_append, reaches_cons, ih]
    constructor
    · rintro ⟨m, hm, n, hn, h⟩
      exact ⟨n, ⟨m, hm, hn⟩, h⟩
    · rintro ⟨n, ⟨m, hm, hn⟩, h⟩
      exact ⟨m, hm, n, hn, h⟩

/-- The end of a run and one more step. -/
theorem reaches_snoc {a : α} {l : List α} :
    Reaches step s (l ++ [a]) s' ↔ ∃ m, Reaches step s l m ∧ (step m a).result = .ok s' := by
  simp [reaches_append, reaches_cons, reaches_nil]

/-- Steps that change nothing make a run that changes nothing. -/
theorem reaches_of_still {l : List α} (h : ∀ a ∈ l, (step s a).result = .ok s) : Reaches step s l s := by
  induction l with
  | nil => exact reaches_nil.2 rfl
  | cons a l ih => exact reaches_cons.2 ⟨s, h a List.mem_cons_self, ih fun b hb => h b (List.mem_cons_of_mem _ hb)⟩

/-- What holds of the start and is kept by every step of a run holds of its end. The statement may speak of the part of the
list that was taken. -/
theorem Reaches.induction {P : List α → σ → Prop} {l : List α} (h : Reaches step s l s') (start : P [] s)
    (keep : ∀ pre m a m', Reaches step s pre m → P pre m → (step m a).result = .ok m' → P (pre ++ [a]) m') : P l s' := by
  suffices key : ∀ (rest pre : List α) (m : σ), Reaches step s pre m → P pre m → Reaches step m rest s' → P (pre ++ rest) s' from
    key l [] s (reaches_nil.2 rfl) start h
  intro rest
  induction rest with
  | nil =>
    intro pre m _ hP hr
    rw [reaches_nil] at hr
    rw [List.append_nil, ← hr]
    exact hP
  | cons a rest ih =>
    intro pre m hpre hP hr
    obtain ⟨m', hstep, hrest⟩ := reaches_cons.1 hr
    have := ih (pre ++ [a]) m' (reaches_snoc.2 ⟨m, hpre, hstep⟩) (keep pre m a m' hpre hP hstep) hrest
    simpa using this

/-- What holds of the start and is kept by every step that succeeds holds of the state in which a run stops, with a fault or
without. -/
theorem along_invariant {P : σ → Prop} {l : List α} (start : P s)
    (keep : ∀ m a m', a ∈ l → P m → (step m a).result = .ok m' → P m') : P (along step s l).state := by
  induction l generalizing s with
  | nil => exact start
  | cons a l ih =>
    rw [along]
    cases h : (step s a).result with
    | error e => exact start
    | ok m =>
      exact ih (keep s a m List.mem_cons_self start h)
        (fun m a m' ha => keep m a m' (List.mem_cons_of_mem _ ha))

/-- A run whose steps all succeed meets no fault. -/
theorem along_fault_eq_none {l : List α} (h : ∀ m, ∀ a ∈ l, ∃ m', (step m a).result = .ok m') :
    (along step s l).fault = none := by
  induction l generalizing s with
  | nil => rfl
  | cons a l ih =>
    obtain ⟨m, hm⟩ := h s a List.mem_cons_self
    rw [along, hm]
    exact ih (fun m a ha => h m a (List.mem_cons_of_mem _ ha))

/-- The first step that fails ends the run in the state before it. -/
theorem Reaches.along_of_error {l rest : List α} {a : α} {e : ε} (h : Reaches step s l s') (he : (step s' a).result = .error e) :
    (along step s (l ++ a :: rest)).fault = some e ∧ (along step s (l ++ a :: rest)).state = s' := by
  induction l generalizing s with
  | nil =>
    obtain rfl := reaches_nil.1 h
    rw [List.nil_append, along, he]
    exact ⟨rfl, rfl⟩
  | cons b l ih =>
    obtain ⟨m, hm, h⟩ := reaches_cons.1 h
    rw [List.cons_append, along, hm]
    exact ih h

end Progress

end FormatAudit
