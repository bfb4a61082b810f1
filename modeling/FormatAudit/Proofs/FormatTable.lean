import FormatAudit.FormatTable.Inference
import FormatAudit.Proofs.Steps

/-!
# Places of formats

What a table of formats says when wrappers are added to it. `Extends` holds between a table and one with more wrappers: the place
of a function that takes a format stays the same, and a function that comes to take one is open, that is, neither the settings
nor the library know it. `Forwards` says, without going through the calls one by one, that a body passes a variable on as a
format.
-/

namespace FormatAudit

/-- What is put under a key is found there, and nothing else changes. -/
theorem Table.get?_put {κ α : Type} [BEq κ] [LawfulBEq κ] (k : κ) (a : α) (t : Table κ α) (k' : κ) :
    get? (put k a t) k' = if k' == k then some a else get? t k' := by
  unfold get?
  induction t with
  | nil =>
    rw [put, List.lookup_cons]
    cases k' == k <;> rfl
  | cons e t ih =>
    obtain ⟨k₀, a₀⟩ := e
    rw [put]
    split
    · rename_i hk
      rw [eq_of_beq hk, List.lookup_cons, List.lookup_cons]
      cases k' == k <;> rfl
    · rename_i hk
      rw [List.lookup_cons, List.lookup_cons, ih]
      cases hk' : k' == k₀ with
      | false => rfl
      | true =>
        rw [eq_of_beq hk']
        simp [hk]

namespace FormatTable

variable {table table' : FormatTable} {c : Configuration} {s : Symbol}

/-- Neither the settings nor the library know a function. -/
def Open (table : FormatTable) (s : Symbol) : Prop :=
  s.kind = .functionName ∧ Table.get? table.extra s.name = none ∧ Table.get? table.builtin s.name = none

/-- A table has what another one has, and perhaps more wrappers. -/
structure Extends (table table' : FormatTable) : Prop where
  extra : table'.extra = table.extra
  builtin : table'.builtin = table.builtin
  inferred : ∀ k p, Table.get? table.inferred k = some p → Table.get? table'.inferred k = some p

/-- The place of the format of an open function is that of a wrapper. -/
theorem slot_of_open (h : table.Open s) : table.slot c s = (Table.get? table.inferred s.key).getD noSlot := by
  obtain ⟨hkind, hextra, hbuiltin⟩ := h
  simp [slot, hkind, hextra, hbuiltin]

/-- The place of the format of any other function does not depend on wrappers. -/
theorem slot_of_not_open (h : ¬table.Open s) (hextra : table'.extra = table.extra)
    (hbuiltin : table'.builtin = table.builtin) : table'.slot c s = table.slot c s := by
  unfold slot
  rw [hextra, hbuiltin]
  split
  · rfl
  · rename_i hkind
    cases hx : Table.get? table.extra s.name with
    | some place => cases place <;> rfl
    | none =>
      cases hb : Table.get? table.builtin s.name with
      | some place => rfl
      | none => exact absurd ⟨Classical.not_not.1 hkind, hx, hb⟩ h

namespace Extends

theorem refl (table : FormatTable) : table.Extends table :=
  ⟨rfl, rfl, fun _ _ h => h⟩

theorem trans {table'' : FormatTable} (h : table.Extends table') (h' : table'.Extends table'') : table.Extends table'' :=
  ⟨h'.extra.trans h.extra, h'.builtin.trans h.builtin, fun k p hk => h'.inferred k p (h.inferred k p hk)⟩

/-- A wrapper that was not known is added. -/
theorem learn (h : Table.get? table.inferred s.key = none) (place : Int) : table.Extends (table.learn s place) := by
  refine ⟨rfl, rfl, fun k p hk => ?_⟩
  rw [FormatTable.learn, Table.get?_put]
  split
  · rename_i hkey
    rw [eq_of_beq hkey, h] at hk
    cases hk
  · exact hk

variable (h : table.Extends table')

include h

/-- Tables that extend one another leave the same functions open. -/
theorem open_iff : table'.Open s ↔ table.Open s := by
  unfold Open
  rw [h.extra, h.builtin]

/-- A function that takes a format goes on to take it at the same place. -/
theorem slot_eq (hs : 0 ≤ table.slot c s) : table'.slot c s = table.slot c s := by
  by_cases hopen : table.Open s
  · rw [slot_of_open hopen] at hs ⊢
    rw [slot_of_open (h.open_iff.2 hopen)]
    cases hk : Table.get? table.inferred s.key with
    | none =>
      rw [hk] at hs
      cases hs
    | some p => rw [h.inferred _ _ hk]
  · exact slot_of_not_open hopen h.extra h.builtin

theorem slot_neg (hs : table'.slot c s < 0) : table.slot c s < 0 := by
  rcases Int.lt_or_le (table.slot c s) 0 with hneg | hnonneg
  · exact hneg
  · rw [← h.slot_eq hnonneg]
    exact hs

/-- A function that takes a format took it before, or is one of the wrappers added. -/
theorem slot_cases (hs : 0 ≤ table'.slot c s) :
    table.slot c s = table'.slot c s ∨
      table.Open s ∧ Table.get? table.inferred s.key = none ∧ Table.get? table'.inferred s.key = some (table'.slot c s) := by
  by_cases hopen : table.Open s
  · have hslot' := slot_of_open (c := c) (h.open_iff.2 hopen)
    cases hk : Table.get? table.inferred s.key with
    | some p =>
      left
      rw [slot_of_open hopen, hslot', hk, h.inferred _ _ hk]
    | none =>
      right
      cases hk' : Table.get? table'.inferred s.key with
      | none =>
        rw [hslot', hk'] at hs
        cases hs
      | some p =>
        rw [hk'] at hslot'
        exact ⟨hopen, rfl, by rw [hslot']; rfl⟩
  · exact Or.inl (slot_of_not_open hopen h.extra h.builtin).symm

end Extends

end FormatTable

namespace Configuration

variable {c : Configuration} {table : FormatTable} {tokens : List TokenId} {v : VariableId}

/-- Among some tokens there is a call that passes a variable, as a bare name, as the argument of a callee at a place. -/
def Passes (c : Configuration) (tokens : List TokenId) (v : VariableId) (callee : Symbol) (place : Nat) : Prop :=
  ∃ call ∈ tokens, (c.token call).isCall = true ∧ c.calledSymbol (c.token call) = .ok (some callee) ∧
    ∃ a, (c.callArguments (c.token call))[place]? = some a ∧ c.isNameOf (c.token a) v = true

/-- Among some tokens there is a call that passes a variable, as a bare name, as its format. -/
def Forwards (c : Configuration) (table : FormatTable) (tokens : List TokenId) (v : VariableId) : Prop :=
  ∃ (callee : Symbol) (place : Nat), table.slot c callee = place ∧ c.Passes tokens v callee place

/-- A call passes a variable, as a bare name, as its format. -/
def CallForwards (c : Configuration) (table : FormatTable) (call : TokenId) (v : VariableId) : Prop :=
  ∃ (callee : Symbol) (place : Nat), table.slot c callee = place ∧ c.calledSymbol (c.token call) = .ok (some callee) ∧
    ∃ a, (c.callArguments (c.token call))[place]? = some a ∧ c.isNameOf (c.token a) v = true

/-- Whether a call forwards a variable. -/
theorem callForwards_eq_ok {call : TokenId} {b : Bool} (h : c.callForwards table (c.token call) v = .ok b) :
    b = true ↔ c.CallForwards table call v := by
  unfold callForwards at h
  obtain ⟨callee, hcallee, h⟩ := except_bind_eq_ok.1 h
  dsimp only at h
  constructor
  · rintro rfl
    split at h
    · cases h
    · rename_i hnonneg
      cases callee with
      | none => exact absurd (show (-1 : Int) < 0 by decide) hnonneg
      | some callee =>
        obtain ⟨place, hplace⟩ := Int.eq_ofNat_of_zero_le (Int.not_lt.1 hnonneg)
        rw [hplace, Int.toNat_natCast] at h
        split at h
        · rename_i a ha
          exact ⟨callee, place, hplace, hcallee, a, ha, by simpa using h⟩
        · cases h
  · rintro ⟨callee', place, hplace, hcallee', a, ha, hname⟩
    obtain rfl : callee = some callee' := by simpa using hcallee.symm.trans hcallee'
    have hslot : table.slot? c (some callee') = place := hplace
    rw [hslot, if_neg (by omega), Int.toNat_natCast, ha] at h
    cases h
    exact hname

/-- Tokens forward a variable if the first one is a call that does or the others do. -/
theorem forwards_cons {t : TokenId} :
    c.Forwards table (t :: tokens) v ↔ (c.token t).isCall = true ∧ c.CallForwards table t v ∨ c.Forwards table tokens v := by
  constructor
  · rintro ⟨callee, place, hplace, call, hmem, hcall, hpasses⟩
    rcases List.mem_cons.1 hmem with rfl | hmem
    · exact Or.inl ⟨hcall, callee, place, hplace, hpasses⟩
    · exact Or.inr ⟨callee, place, hplace, call, hmem, hcall, hpasses⟩
  · rintro (⟨hcall, callee, place, hplace, hpasses⟩ | ⟨callee, place, hplace, call, hmem, hcall, hpasses⟩)
    · exact ⟨callee, place, hplace, t, List.mem_cons_self, hcall, hpasses⟩
    · exact ⟨callee, place, hplace, call, List.mem_cons_of_mem _ hmem, hcall, hpasses⟩

/-- Whether some call forwards a variable. -/
theorem anyCallForwards_eq_ok {b : Bool} (h : c.anyCallForwards table v tokens = .ok b) :
    b = true ↔ c.Forwards table tokens v := by
  induction tokens with
  | nil =>
    cases h
    simp [Forwards, Passes]
  | cons t tokens ih =>
    rw [forwards_cons]
    unfold anyCallForwards at h
    split at h
    · rename_i hcall
      obtain ⟨first, hfirst, h⟩ := except_bind_eq_ok.1 h
      rw [← callForwards_eq_ok hfirst]
      cases first with
      | true =>
        cases h
        simp [hcall]
      | false => simp [ih h]
    · rename_i hcall
      simp [hcall, ih h]

end Configuration

end FormatAudit
