import FormatAudit.Forwarding
import FormatAudit.Proofs.Steps

/-!
# What the operations on forwarded parameters do

One statement for each operation, in terms of the symbols that are live afterwards. Symbols are compared by key and name
(`Symbol.same`), which is an equivalence; `isLive` respects it.
-/

namespace FormatAudit

namespace Symbol

variable {a b d : Symbol}

theorem same_iff : a.same b = true ↔ a.key = b.key ∧ a.name = b.name := by
  simp [same]

@[simp]
theorem same_refl (a : Symbol) : a.same a = true :=
  same_iff.2 ⟨rfl, rfl⟩

theorem same_comm (a b : Symbol) : a.same b = b.same a := by
  rw [Bool.eq_iff_iff, same_iff, same_iff]
  exact ⟨fun h => ⟨h.1.symm, h.2.symm⟩, fun h => ⟨h.1.symm, h.2.symm⟩⟩

/-- The same symbols are the same as the same symbols. -/
theorem same_congr (h : a.same b = true) (d : Symbol) : d.same a = d.same b := by
  rw [same_iff] at h
  rw [Bool.eq_iff_iff, same_iff, same_iff, h.1, h.2]

theorem isIn_iff {l : List Symbol} : a.isIn l = true ↔ ∃ p ∈ l, a.same p = true := by
  simp [isIn]

end Symbol

namespace Configuration

/-- The symbols of variables stand at the places of the variables. -/
theorem variableSymbols_getElem? {c : Configuration} {vs : List VariableId} {ps : List Symbol}
    (h : c.variableSymbols vs = .ok ps) (i : Nat) (p : Symbol) :
    ps[i]? = some p ↔ ∃ v, vs[i]? = some v ∧ c.variableSymbol v = .ok p := by
  induction vs generalizing ps i with
  | nil =>
    obtain rfl : [] = ps := by simpa [variableSymbols] using h
    simp
  | cons v vs ih =>
    simp only [variableSymbols, except_bind_eq_ok, except_pure_eq_ok] at h
    obtain ⟨q, hq, qs, hqs, rfl⟩ := h
    cases i with
    | zero => simp [hq]
    | succ i => simpa using ih hqs i

end Configuration

namespace Forwarding

theorem isLive_some_iff {r : Forwarding} {s : Symbol} : r.isLive (some s) = true ↔ ∃ p ∈ r.live, s.same p = true :=
  Symbol.isIn_iff

/-- The format parameter is the one at the place that the table gives, if there is a parameter at that place. -/
theorem formatParameter_eq_some_iff {table : FormatTable} {c : Configuration} {f p : Symbol} {ps : List Symbol} :
    formatParameter table c f ps = some p ↔ ∃ place : Nat, table.slot c f = place ∧ ps[place]? = some p := by
  unfold formatParameter
  constructor
  · intro h
    dsimp only at h
    split at h
    · cases h
    · exact ⟨(table.slot c f).toNat, by omega, h⟩
  · rintro ⟨place, hplace, hp⟩
    simp [hplace, hp]

/-- Entering the body of a known function leaves its format parameter live, if it has one, and nothing else. -/
theorem enter_some_result (table : FormatTable) (c : Configuration) (f : Symbol) (ps : List Symbol) :
    (enter table c (some (f, ps))).result = .ok { live := (formatParameter table c f ps).toList } := by
  rw [enter, register]
  cases formatParameter table c f ps with
  | none => simp [clear]
  | some p => simp [clear, Symbol.isIn]

theorem enter_none_result (table : FormatTable) (c : Configuration) : (enter table c none).result = .ok clear := rfl

/-- An assignment takes out exactly the live symbols that are the same as an assigned one. -/
theorem assign_result (r : Forwarding) (targets : List Symbol) :
    (r.assign targets).result = .ok { live := r.live.filter (fun p => !p.isIn targets) } := by
  induction targets generalizing r with
  | nil =>
    have hall : r.live.filter (fun p => !p.isIn []) = r.live := List.filter_eq_self.2 (by simp [Symbol.isIn])
    rw [hall]
    rfl
  | cons s ss ih =>
    have hsplit : (fun p : Symbol => !p.isIn (s :: ss)) = fun p => !p.isIn ss && !s.same p := by
      funext p
      simp [Symbol.isIn, Symbol.same_comm s p, Bool.and_comm]
    rw [assign, hsplit, ← List.filter_filter]
    split
    · simp [ih]
    · rename_i hs
      have hall : r.live.filter (fun p => !s.same p) = r.live := by
        rw [List.filter_eq_self]
        intro p hp
        simpa using fun hsame => hs (Symbol.isIn_iff.2 ⟨p, hp, hsame⟩)
      rw [ih, hall]

end Forwarding

end FormatAudit
