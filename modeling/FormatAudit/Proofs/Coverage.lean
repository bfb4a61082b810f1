import FormatAudit.Proofs.Steps
import FormatAudit.Token.Extent
import Mathlib.Logic.Relation

/-!
# What a token covers

A token covers the tokens that are reachable from it through operands, and the matching bracket of every opening bracket among
them (`Covers`). The search with its set of visited tokens finds exactly these (`mem_covered_iff`), on cyclic trees too: it visits
once what a path that avoids the visited tokens leads to (`exists_visits`), and a path that meets the token just visited can be
cut off after its last visit (`Avoids.insert`). The extent of a token starts at a covered token that no other comes before, and
ends at one that comes before no other (`extent_eq_ok`).
-/

namespace FormatAudit

namespace Configuration

variable {c : Configuration} {root t u : TokenId}

/-- A token is an operand of another one. -/
def HasOperand (c : Configuration) (t u : TokenId) : Prop :=
  (c.token t).operand1 = some u ∨ (c.token t).operand2 = some u

/-- A token is reachable from another one through operands. -/
def Reachable (c : Configuration) : TokenId → TokenId → Prop :=
  Relation.ReflTransGen c.HasOperand

/-- A token is covered by the subtree of another one: reachable from it, or the match of a reachable opening bracket. -/
def Covers (c : Configuration) (root u : TokenId) : Prop :=
  ∃ t, c.Reachable root t ∧ u ∈ c.coveredBy t

/-- The operands that are looked at next are the operands of the token. -/
theorem mem_operandStack : u ∈ operandStack (c.token t) ↔ c.HasOperand t u := by
  unfold operandStack HasOperand
  rw [List.mem_append, Option.mem_toList, Option.mem_toList, or_comm]

/-- A token covers what it adds itself and what its operands cover. -/
theorem covers_iff : c.Covers root u ↔ u ∈ c.coveredBy root ∨ ∃ o, c.HasOperand root o ∧ c.Covers o u := by
  constructor
  · rintro ⟨t, hreach, hu⟩
    rcases Relation.ReflTransGen.cases_head hreach with rfl | ⟨o, ho, hrest⟩
    · exact Or.inl hu
    · exact Or.inr ⟨o, ho, t, hrest, hu⟩
  · rintro (hu | ⟨o, ho, t, hreach, hu⟩)
    · exact ⟨root, Relation.ReflTransGen.refl, hu⟩
    · exact ⟨t, Relation.ReflTransGen.head ho hreach, hu⟩

/-- A token covers itself. -/
theorem covers_self (c : Configuration) (root : TokenId) : c.Covers root root :=
  ⟨root, Relation.ReflTransGen.refl, List.mem_cons_self⟩

/-! ## The search -/

/-- A path through operands none of whose tokens is in a set. -/
inductive Avoids (c : Configuration) (visited : Std.HashSet TokenId) : TokenId → TokenId → Prop where
  | here {t : TokenId} : visited.contains t = false → Avoids c visited t t
  | step {t o u : TokenId} : visited.contains t = false → c.HasOperand t o → Avoids c visited o u → Avoids c visited t u

/-- A path that avoids tokens starts at none of them. -/
theorem Avoids.head {visited : Std.HashSet TokenId} (h : c.Avoids visited t u) : visited.contains t = false := by
  cases h with
  | here ht => exact ht
  | step ht _ _ => exact ht

/-- It ends at none of them either. -/
theorem Avoids.last {visited : Std.HashSet TokenId} (h : c.Avoids visited t u) : visited.contains u = false := by
  induction h with
  | here ht => exact ht
  | step _ _ _ ih => exact ih

/-- A path that avoids more tokens avoids fewer. -/
theorem Avoids.of_insert {visited : Std.HashSet TokenId} {x : TokenId} (h : c.Avoids (visited.insert x) t u) :
    c.Avoids visited t u := by
  have hfresh : ∀ {y : TokenId}, (visited.insert x).contains y = false → visited.contains y = false := by
    intro y hy
    rw [Std.HashSet.contains_insert, Bool.or_eq_false_iff] at hy
    exact hy.2
  induction h with
  | here ht => exact .here (hfresh ht)
  | step ht ho _ ih => exact .step (hfresh ht) ho ih

/-- A path that does not end at a token avoids it from its start on, or from one of its operands on. -/
theorem Avoids.insert {visited : Std.HashSet TokenId} {x : TokenId} (h : c.Avoids visited t u) (hu : u ≠ x) :
    (t ≠ x ∧ c.Avoids (visited.insert x) t u) ∨ ∃ o, c.HasOperand x o ∧ c.Avoids (visited.insert x) o u := by
  have hfresh : ∀ {y : TokenId}, visited.contains y = false → y ≠ x → (visited.insert x).contains y = false := by
    intro y hy hyx
    rw [Std.HashSet.contains_insert, hy]
    simp [Ne.symm hyx]
  induction h with
  | here ht => exact Or.inl ⟨hu, .here (hfresh ht hu)⟩
  | @step t o u ht ho _ ih =>
    rcases ih hu with ⟨-, hpath⟩ | hpath
    · by_cases htx : t = x
      · subst htx
        exact Or.inr ⟨o, ho, hpath⟩
      · exact Or.inl ⟨htx, .step (hfresh ht htx) ho hpath⟩
    · exact Or.inr hpath

/-- The search visits each token that a path avoiding the visited ones reaches from a pending token, and visits it once. -/
theorem exists_visits (c : Configuration) (pending : List TokenId) (visited : Std.HashSet TokenId) :
    ∃ visits : List TokenId, visits.Nodup ∧ (∀ u, u ∈ visits ↔ ∃ t ∈ pending, c.Avoids visited t u) ∧
      c.visit pending visited = visits.flatMap c.coveredBy := by
  fun_induction visit c pending visited with
  | case1 visited => exact ⟨[], List.nodup_nil, by simp, rfl⟩
  | case2 visited x rest hx ih =>
    obtain ⟨visits, hnodup, hmem, hvisit⟩ := ih
    refine ⟨visits, hnodup, ?_, hvisit⟩
    intro u
    simp only [hmem, List.mem_cons, exists_eq_or_imp]
    rw [or_iff_right]
    intro hpath
    rw [hpath.head] at hx
    cases hx
  | case3 visited x rest hx ih =>
    obtain ⟨visits, hnodup, hmem, hvisit⟩ := ih
    refine ⟨x :: visits, List.nodup_cons.2 ⟨?_, hnodup⟩, ?_, by rw [hvisit, List.flatMap_cons]⟩
    · -- a path that avoids `x` does not end there
      intro hagain
      obtain ⟨t, -, hpath⟩ := (hmem x).1 hagain
      have hlast := hpath.last
      rw [Std.HashSet.contains_insert_self] at hlast
      cases hlast
    · intro u
      rw [List.mem_cons, hmem]
      constructor
      · rintro (rfl | ⟨t, ht, hpath⟩)
        · exact ⟨u, List.mem_cons_self, .here (Bool.eq_false_iff.2 hx)⟩
        · rcases List.mem_append.1 ht with ht | ht
          · exact ⟨x, List.mem_cons_self, .step (Bool.eq_false_iff.2 hx) (mem_operandStack.1 ht) hpath.of_insert⟩
          · exact ⟨t, List.mem_cons_of_mem _ ht, hpath.of_insert⟩
      · rintro ⟨t, ht, hpath⟩
        by_cases hu : u = x
        · exact Or.inl hu
        · right
          rcases hpath.insert hu with ⟨htx, hpath⟩ | ⟨o, ho, hpath⟩
          · refine ⟨t, List.mem_append_right _ ?_, hpath⟩
            rcases List.mem_cons.1 ht with rfl | ht
            · exact absurd rfl htx
            · exact ht
          · exact ⟨o, List.mem_append_left _ (mem_operandStack.2 ho), hpath⟩

/-- Avoiding nothing, a path leads to whatever can be reached. -/
theorem avoids_empty_iff : c.Avoids {} t u ↔ c.Reachable t u := by
  constructor
  · intro hpath
    induction hpath with
    | here => exact Relation.ReflTransGen.refl
    | step _ ho _ ih => exact Relation.ReflTransGen.head ho ih
  · intro hreach
    induction hreach using Relation.ReflTransGen.head_induction_on with
    | refl => exact .here Std.HashSet.contains_empty
    | head ho _ ih => exact .step Std.HashSet.contains_empty ho ih

/-- The search from a token visits each token that is reachable from it once, and no other. -/
theorem covered_eq_flatMap (c : Configuration) (root : TokenId) :
    ∃ visits : List TokenId, visits.Nodup ∧ (∀ u, u ∈ visits ↔ c.Reachable root u) ∧
      c.covered root = visits.flatMap c.coveredBy := by
  obtain ⟨visits, hnodup, hmem, hvisit⟩ := c.exists_visits [root] {}
  refine ⟨visits, hnodup, ?_, hvisit⟩
  intro u
  simp only [hmem, List.mem_singleton, exists_eq_left, avoids_empty_iff]

/-- The search finds exactly the tokens that its root covers. -/
theorem mem_covered_iff : u ∈ c.covered root ↔ c.Covers root u := by
  obtain ⟨visits, -, hmem, hcovered⟩ := c.covered_eq_flatMap root
  rw [hcovered, List.mem_flatMap]
  simp only [hmem, Covers]

end Configuration

/-! ## First and last -/

/-- A fold that changes to an item which beats the best so far ends with an item that none beats. -/
theorem foldl_best {α : Type} (beats : α → α → Bool) (asymm : ∀ a b, beats a b = true → beats b a = false)
    (between : ∀ a b d, beats a d = true → beats a b = true ∨ beats b d = true) (start : α) (more : List α) :
    more.foldl (fun best x => if beats x best then x else best) start ∈ start :: more ∧
      ∀ x ∈ start :: more, beats x (more.foldl (fun best x => if beats x best then x else best) start) = false := by
  have irrefl : ∀ a, beats a a = false := by
    intro a
    cases h : beats a a with
    | false => rfl
    | true => exact h.symm.trans (asymm a a h)
  induction more generalizing start with
  | nil => simp [irrefl]
  | cons x more ih =>
    rw [List.foldl_cons]
    -- `next` is the better one of the first two items
    obtain ⟨next, hnext, hone, hstart, hx⟩ : ∃ next, (if beats x start then x else start) = next ∧
        (next = start ∨ next = x) ∧ beats start next = false ∧ beats x next = false := by
      refine ⟨_, rfl, ?_⟩
      split
      · rename_i hbeats
        exact ⟨Or.inr rfl, asymm x start hbeats, irrefl x⟩
      · rename_i hbeats
        exact ⟨Or.inl rfl, irrefl start, Bool.eq_false_iff.2 hbeats⟩
    rw [hnext]
    obtain ⟨hmem, hbest⟩ := ih next
    -- what does not beat `next` does not beat the result, which `next` does not beat
    have hkeep : ∀ y, beats y next = false →
        beats y (more.foldl (fun best x => if beats x best then x else best) next) = false := by
      intro y hy
      refine Bool.eq_false_iff.2 fun hresult => ?_
      rcases between y next _ hresult with h | h
      · rw [hy] at h
        cases h
      · rw [hbest next List.mem_cons_self] at h
        cases h
    refine ⟨?_, fun y hy => ?_⟩
    · rcases List.mem_cons.1 hmem with hmem | hmem
      · rw [hmem]
        rcases hone with rfl | rfl <;> simp
      · exact List.mem_cons_of_mem _ (List.mem_cons_of_mem _ hmem)
    · rcases List.mem_cons.1 hy with rfl | hy
      · exact hkeep y hstart
      · rcases List.mem_cons.1 hy with rfl | hy
        · exact hkeep y hx
        · exact hbest y (List.mem_cons_of_mem _ hy)

namespace OrderKey

/-- Of two keys only one comes before the other. -/
theorem before_asymm (a b : OrderKey) (h : a.before b = true) : b.before a = false := by
  cases a <;> cases b <;> simp [before] at h ⊢ <;> omega

/-- A third key comes after the first or before the second of two keys. -/
theorem before_between (a b d : OrderKey) (h : a.before d = true) : a.before b = true ∨ b.before d = true := by
  cases a <;> cases b <;> cases d <;> simp [before] at h ⊢ <;> omega

end OrderKey

/-- The earliest of some tokens is one of them, and none comes before it. -/
theorem earliest_spec (start : TokenId × OrderKey) (more : List (TokenId × OrderKey)) :
    earliest start more ∈ start :: more ∧ ∀ x ∈ start :: more, x.2.before (earliest start more).2 = false :=
  foldl_best (fun x best : TokenId × OrderKey => x.2.before best.2) (fun _ _ h => OrderKey.before_asymm _ _ h)
    (fun _ _ _ h => OrderKey.before_between _ _ _ h) start more

/-- The latest of some tokens is one of them, and it comes before none. -/
theorem latest_spec (start : TokenId × OrderKey) (more : List (TokenId × OrderKey)) :
    latest start more ∈ start :: more ∧ ∀ x ∈ start :: more, (latest start more).2.before x.2 = false :=
  foldl_best (fun x best : TokenId × OrderKey => best.2.before x.2) (fun _ _ h => OrderKey.before_asymm _ _ h)
    (fun _ _ _ h => (OrderKey.before_between _ _ _ h).symm) start more

namespace Source

variable {s : Source} {root : TokenId}

/-- A token stands before another one in source order. -/
def Precedes (s : Source) (t u : TokenId) : Prop :=
  ∃ k k', s.key t = .ok k ∧ s.key u = .ok k' ∧ k.before k' = true

/-- Tokens whose places can be read are listed with them. -/
theorem keyed_eq_ok (ts : List TokenId) (h : ∀ t ∈ ts, ∃ k, s.key t = .ok k) :
    ∃ ks, s.keyed ts = .ok ks ∧ ks.map (·.1) = ts ∧ ∀ x ∈ ks, s.key x.1 = .ok x.2 := by
  induction ts with
  | nil => exact ⟨[], rfl, rfl, by simp⟩
  | cons t ts ih =>
    obtain ⟨k, hk⟩ := h t List.mem_cons_self
    obtain ⟨ks, hks, hfst, hkeys⟩ := ih (fun u hu => h u (List.mem_cons_of_mem _ hu))
    refine ⟨(t, k) :: ks, ?_, by simp [hfst], ?_⟩
    · rw [keyed, hk, hks]
      rfl
    · intro x hx
      rcases List.mem_cons.1 hx with rfl | hx
      · exact hk
      · exact hkeys x hx

/-- The extent of a token whose covered tokens all have a place reaches from a covered token that no other stands before to one
that stands before no other. -/
theorem extent_eq_ok (root : TokenId) (h : ∀ u, s.config.Covers root u → ∃ k, s.key u = .ok k) :
    ∃ e, s.extent (some root) = .ok e ∧ s.config.Covers root e.first ∧ s.config.Covers root e.last ∧
      ∀ u, s.config.Covers root u → ¬s.Precedes u e.first ∧ ¬s.Precedes e.last u := by
  obtain ⟨ks, hks, hfst, hkeys⟩ := keyed_eq_ok (s.config.covered root)
    (fun t ht => h t (Configuration.mem_covered_iff.1 ht))
  have hcovers : ∀ u, s.config.Covers root u ↔ u ∈ ks.map (·.1) := by
    intro u
    rw [hfst, Configuration.mem_covered_iff]
  cases ks with
  | nil =>
    have hself := (hcovers root).1 (Configuration.covers_self _ root)
    simp at hself
  | cons k more =>
    obtain ⟨hfirst, hleast⟩ := earliest_spec k more
    obtain ⟨hlast, hgreatest⟩ := latest_spec k more
    refine ⟨⟨(earliest k more).1, (latest k more).1⟩, ?_, ?_, ?_, ?_⟩
    · rw [extent, hks]
      rfl
    · exact (hcovers _).2 (List.mem_map_of_mem hfirst)
    · exact (hcovers _).2 (List.mem_map_of_mem hlast)
    · intro u hu
      obtain ⟨x, hx, rfl⟩ := List.mem_map.1 ((hcovers u).1 hu)
      constructor
      · rintro ⟨a, b, ha, hb, hbefore⟩
        obtain rfl := Except.ok.inj ((hkeys x hx).symm.trans ha)
        obtain rfl := Except.ok.inj ((hkeys _ hfirst).symm.trans hb)
        rw [hleast x hx] at hbefore
        cases hbefore
      · rintro ⟨a, b, ha, hb, hbefore⟩
        obtain rfl := Except.ok.inj ((hkeys _ hlast).symm.trans ha)
        obtain rfl := Except.ok.inj ((hkeys x hx).symm.trans hb)
        rw [hgreatest x hx] at hbefore
        cases hbefore

end Source

end FormatAudit
