import FormatAudit.Proofs.Sharing
import Mathlib

/-!
# Judging an expression again

Whatever the culprits are, a judgement makes the same changes to them in the same order: it adds a node here and discards one
there (`Change`). Which changes these are is told by the expression alone (`changes`, `judge_eq_changes`). So judging twice is
making one list of changes twice, and what is left in the end is decided, for each identity, by its last discarding and the first
adding after that (`actAll_cases`). The second time finds nothing else to do.

The order is another matter. A node that is discarded and added again goes to the end, and this happens in the second judgement
also to a node that others came after in the first one. In a tree no node is added again after it was discarded (`Settled`), and
then not even the order changes (`Settled.applyAll_again`).
-/

namespace FormatAudit

/-- One change of the culprits: a node is added or discarded. -/
inductive Change where
  | add (e : Expression)
  | discard (e : Expression)

namespace Change

/-- The node that a change is about. -/
def node : Change → Expression
  | .add e => e
  | .discard e => e

/-- The culprits after a change. -/
def apply (cs : Culprits) : Change → Culprits
  | .add e => cs.add e
  | .discard e => cs.discard e

/-- The culprits after some changes, from the first to the last. -/
def applyAll (cs : Culprits) (changes : List Change) : Culprits :=
  changes.foldl apply cs

variable {cs : Culprits} {changes : List Change} {e n : Expression}

@[simp]
theorem applyAll_nil (cs : Culprits) : applyAll cs [] = cs := rfl

@[simp]
theorem applyAll_cons (cs : Culprits) (change : Change) (changes : List Change) :
    applyAll cs (change :: changes) = applyAll (change.apply cs) changes := rfl

/-- Two lists of changes are made one after the other. -/
theorem applyAll_append (cs : Culprits) (changes more : List Change) :
    applyAll cs (changes ++ more) = applyAll (applyAll cs changes) more :=
  List.foldl_append

/-- Discarding nodes one by one discards all of them. -/
theorem applyAll_discard (cs : Culprits) (es : List Expression) : applyAll cs (es.map .discard) = cs.discardAll es := by
  rw [applyAll, List.foldl_map]
  rfl

/-! ## The members after the same changes twice -/

/-- What a change does to the members with one identity. -/
def actAt (i : Nat) (members : List Expression) : Change → List Expression
  | .add e => if e.id = i ∧ members = [] then [e] else members
  | .discard e => if e.id = i then [] else members

/-- What changes do to the members with one identity. -/
def actAll (i : Nat) (members : List Expression) (changes : List Change) : List Expression :=
  changes.foldl (actAt i) members

/-- What a change does to the members with one identity depends on those alone. -/
theorem filter_apply (i : Nat) (cs : Culprits) (change : Change) :
    (change.apply cs).members.filter (fun n => n.id == i) = actAt i (cs.members.filter (fun n => n.id == i)) change := by
  cases change with
  | add e =>
    have hhas : cs.has e = true ↔ cs.members.filter (fun n => n.id == e.id) ≠ [] := by
      simp [Culprits.has, List.filter_eq_nil_iff]
    simp only [apply, actAt, Culprits.add]
    split
    · rename_i h
      rw [if_neg]
      rintro ⟨rfl, hnil⟩
      exact hhas.1 h hnil
    · rename_i h
      rw [List.filter_append, List.filter_singleton]
      by_cases hi : e.id = i
      · subst hi
        have hnil := not_not.1 (mt hhas.2 h)
        simp [hnil]
      · simp [hi, beq_false_of_ne hi]
  | discard e =>
    simp only [apply, actAt, Culprits.discard, List.filter_filter]
    split
    · rename_i hi
      refine List.filter_eq_nil_iff.2 (fun n _ => ?_)
      simp [hi]
    · rename_i hi
      refine List.filter_congr (fun n _ => ?_)
      by_cases hn : n.id = i
      · simp [hn, Ne.symm hi]
      · simp [hn]

/-- So does what changes do one after the other. -/
theorem filter_applyAll (i : Nat) (cs : Culprits) (changes : List Change) :
    (applyAll cs changes).members.filter (fun n => n.id == i) =
      actAll i (cs.members.filter (fun n => n.id == i)) changes := by
  induction changes generalizing cs with
  | nil => rfl
  | cons change changes ih => rw [applyAll_cons, ih, filter_apply, actAll, actAll, List.foldl_cons]

/-- What changes leave of an identity. Once it is discarded, nothing depends on what was there before; if it never is, members
stay, and where there are none the first one added does. -/
theorem actAll_cases (i : Nat) (changes : List Change) :
    (∃ left, ∀ members, actAll i members changes = left) ∨
      ∃ left, ∀ members, actAll i members changes = if members = [] then left else members := by
  induction changes with
  | nil =>
    right
    refine ⟨[], fun members => ?_⟩
    cases members with
    | nil => rfl
    | cons => rfl
  | cons change changes ih =>
    have hcons : ∀ members, actAll i members (change :: changes) = actAll i (actAt i members change) changes := fun _ => rfl
    simp only [hcons]
    rcases ih with ⟨left, hleft⟩ | ⟨left, hleft⟩
    · exact Or.inl ⟨left, fun members => hleft _⟩
    · simp only [hleft]
      cases change with
      | add e =>
        right
        by_cases hi : e.id = i
        · refine ⟨[e], fun members => ?_⟩
          by_cases hnil : members = []
          · simp [actAt, hi, hnil]
          · simp [actAt, hnil]
        · exact ⟨left, fun members => by simp [actAt, hi]⟩
      | discard e =>
        by_cases hi : e.id = i
        · exact Or.inl ⟨left, fun members => by simp [actAt, hi]⟩
        · exact Or.inr ⟨left, fun members => by simp [actAt, hi]⟩

/-- Changes that are made again change nothing. -/
theorem actAll_again (i : Nat) (members : List Expression) (changes : List Change) :
    actAll i (actAll i members changes) changes = actAll i members changes := by
  rcases actAll_cases i changes with ⟨left, hleft⟩ | ⟨left, hleft⟩
  · simp only [hleft]
  · simp only [hleft]
    split
    · split
      · rfl
      · rfl
    · rfl

/-- Lists that agree at each identity have the same members. -/
theorem perm_of_filter {l l' : List Expression}
    (h : ∀ i, l.filter (fun n => n.id == i) = l'.filter (fun n => n.id == i)) : l.Perm l' := by
  classical
  rw [List.perm_iff_count]
  intro n
  have hcount := congrArg (List.count n) (h n.id)
  rwa [List.count_filter (by simp), List.count_filter (by simp)] at hcount

/-- The same changes, made a second time, leave the members as they are. -/
theorem applyAll_again_perm (cs : Culprits) (changes : List Change) :
    (applyAll (applyAll cs changes) changes).members.Perm (applyAll cs changes).members := by
  refine perm_of_filter (fun i => ?_)
  rw [filter_applyAll, filter_applyAll, actAll_again]

/-! ## The order after the same changes twice -/

/-- The second change adds the node that the first one discards. -/
def Reverts : Change → Change → Prop
  | .discard e, .add e' => e'.id = e.id
  | _, _ => False

/-- No node is added again after it was discarded. -/
def Settled (changes : List Change) : Prop :=
  changes.Pairwise (fun a b => ¬a.Reverts b)

/-- The node that a change discards, if it does. -/
def discarded? : Change → Option Expression
  | .add _ => none
  | .discard e => some e

/-- The nodes that some changes discard. -/
def discarded (changes : List Change) : List Expression :=
  changes.filterMap discarded?

/-- A node is discarded if there is a change that discards it. -/
theorem mem_discarded : e ∈ discarded changes ↔ .discard e ∈ changes := by
  rw [discarded, List.mem_filterMap]
  constructor
  · rintro ⟨change, hchange, he⟩
    cases change with
    | add => cases he
    | discard d =>
      cases he
      exact hchange
  · exact fun h => ⟨_, h, rfl⟩

/-- A change reverts only a change of the same identity. -/
theorem Reverts.id_eq {a b : Change} (h : a.Reverts b) : b.node.id = a.node.id := by
  cases a with
  | add => cases h
  | discard d =>
    cases b with
    | add => exact h
    | discard => cases h

/-- The nodes with an identity in the set are those before and the one that was added. -/
theorem has_add (cs : Culprits) (e n : Expression) : (cs.add e).has n = (cs.has n || e.id == n.id) := by
  cases h : cs.has e with
  | true =>
    rw [Culprits.add, if_pos h]
    by_cases hid : e.id = n.id
    · rw [Culprits.has, hid] at h
      simp [Culprits.has, h]
    · simp [hid]
  | false => simp [Culprits.has, Culprits.add_members_of_fresh h]

/-- Discarding a node takes the nodes with its identity out. -/
theorem has_discard (cs : Culprits) (e n : Expression) : (cs.discard e).has n = (cs.has n && e.id != n.id) := by
  rw [Bool.eq_iff_iff]
  simp only [Culprits.has, Culprits.discard, List.any_eq_true, List.mem_filter, Bool.and_eq_true, beq_iff_eq, bne_iff_ne]
  constructor
  · rintro ⟨m, ⟨hm, hne⟩, hid⟩
    exact ⟨⟨m, hm, hid⟩, fun h => hne (hid.trans h.symm)⟩
  · rintro ⟨⟨m, hm, hid⟩, hne⟩
    exact ⟨m, ⟨hm, fun h => hne (h.symm.trans hid)⟩, hid⟩

/-- A member stays until it is discarded. -/
theorem has_applyAll_of_not_discarded (hn : cs.has n = true) (h : ∀ e, .discard e ∈ changes → e.id ≠ n.id) :
    (applyAll cs changes).has n = true := by
  induction changes generalizing cs with
  | nil => exact hn
  | cons change changes ih =>
    refine ih ?_ (fun e he => h e (List.mem_cons_of_mem _ he))
    cases change with
    | add e => simp [apply, has_add, hn]
    | discard e => simpa [apply, has_discard, hn] using h e List.mem_cons_self

/-- A node that is no member becomes one only by being added. -/
theorem not_has_applyAll_of_not_added (hn : cs.has n = false) (h : ∀ e, .add e ∈ changes → e.id ≠ n.id) :
    (applyAll cs changes).has n = false := by
  induction changes generalizing cs with
  | nil => exact hn
  | cons change changes ih =>
    refine ih ?_ (fun e he => h e (List.mem_cons_of_mem _ he))
    cases change with
    | add e => simpa [apply, has_add, hn] using h e List.mem_cons_self
    | discard e => simp [apply, has_discard, hn]

/-- A node that is added and never discarded is a member in the end. -/
theorem has_applyAll_of_added (he : .add e ∈ changes) (h : ∀ d, .discard d ∈ changes → d.id ≠ e.id) :
    (applyAll cs changes).has e = true := by
  induction changes generalizing cs with
  | nil => cases he
  | cons change changes ih =>
    have hrest : ∀ d, .discard d ∈ changes → d.id ≠ e.id := fun d hd => h d (List.mem_cons_of_mem _ hd)
    rcases List.mem_cons.1 he with rfl | he
    · rw [applyAll_cons]
      exact has_applyAll_of_not_discarded (Culprits.has_add_self cs e) hrest
    · exact ih he hrest

/-- A node that is discarded is no member in the end, if it is never added after that. -/
theorem Settled.not_has_applyAll (h : Settled changes) (he : .discard e ∈ changes) : (applyAll cs changes).has e = false := by
  induction changes generalizing cs with
  | nil => cases he
  | cons change changes ih =>
    obtain ⟨hhead, hrest⟩ := List.pairwise_cons.1 h
    rcases List.mem_cons.1 he with rfl | he
    · rw [applyAll_cons]
      exact not_has_applyAll_of_not_added (by simp [apply, has_discard]) (fun d hd => hhead (.add d) hd)
    · exact ih hrest he

/-- Apart from the nodes that are discarded, changes that add only members leave the culprits as they are, in their order. -/
theorem discardAll_applyAll {gone : List Expression} (hgone : ∀ d, .discard d ∈ changes → d ∈ gone)
    (hadded : ∀ e, .add e ∈ changes → e.id ∈ gone.map Expression.id ∨ cs.has e = true) :
    (applyAll cs changes).discardAll gone = cs.discardAll gone := by
  induction changes generalizing cs with
  | nil => rfl
  | cons change changes ih =>
    have hgone' : ∀ d, .discard d ∈ changes → d ∈ gone := fun d hd => hgone d (List.mem_cons_of_mem _ hd)
    rw [applyAll_cons]
    cases change with
    | add e =>
      rw [ih hgone' (fun d hd => ?_)]
      · rcases hadded e List.mem_cons_self with hid | hhas
        · exact Culprits.discardAll_add_of_id_mem hid cs
        · rw [apply, Culprits.add, if_pos hhas]
      · refine (hadded d (List.mem_cons_of_mem _ hd)).imp_right (fun hhas => ?_)
        simp [apply, has_add, hhas]
    | discard e =>
      have he : e ∈ gone := hgone e List.mem_cons_self
      rw [ih hgone' (fun d hd => ?_)]
      · exact Culprits.discardAll_discardAll_of_subset (List.cons_subset.2 ⟨he, List.nil_subset _⟩) cs
      · rcases hadded d (List.mem_cons_of_mem _ hd) with hid | hhas
        · exact Or.inl hid
        · by_cases hid : e.id = d.id
          · exact Or.inl (hid ▸ List.mem_map_of_mem he)
          · exact Or.inr (by simp [apply, has_discard, hhas, hid])

/-- Discarding nodes that are no members changes nothing. -/
theorem discardAll_of_absent {es : List Expression} (h : ∀ e ∈ es, cs.has e = false) : cs.discardAll es = cs := by
  apply Culprits.ext_members
  rw [Culprits.discardAll_members, List.filter_eq_self]
  intro m hm
  exact List.all_eq_true.2 (fun e he => bne_iff_ne.2 (Culprits.has_eq_false_iff.1 (h e he) m hm))

/-- If no node is added again after it was discarded, the same changes leave the culprits as they are, when they are made a second
time. -/
theorem Settled.applyAll_again (h : Settled changes) (cs : Culprits) :
    applyAll (applyAll cs changes) changes = applyAll cs changes := by
  have hgone : ∀ cs : Culprits, (applyAll cs changes).discardAll (discarded changes) = applyAll cs changes := by
    intro cs
    refine discardAll_of_absent (fun d hd => ?_)
    exact h.not_has_applyAll (mem_discarded.1 hd)
  have hadded : ∀ e, .add e ∈ changes →
      e.id ∈ (discarded changes).map Expression.id ∨ (applyAll cs changes).has e = true := by
    intro e he
    by_cases hid : e.id ∈ (discarded changes).map Expression.id
    · exact Or.inl hid
    · refine Or.inr (has_applyAll_of_added he (fun d hd hde => hid ?_))
      exact hde ▸ List.mem_map_of_mem (mem_discarded.2 hd)
  calc applyAll (applyAll cs changes) changes
      = (applyAll (applyAll cs changes) changes).discardAll (discarded changes) := (hgone _).symm
    _ = (applyAll cs changes).discardAll (discarded changes) := discardAll_applyAll (fun _ hd => mem_discarded.2 hd) hadded
    _ = applyAll cs changes := hgone cs

end Change

namespace Expression

/-- The verdict on an expression. -/
def verdict (e : Expression) : Bool :=
  (e.judge {}).1

/-- The changes that a node makes itself, after those of its operands. -/
def ownChanges (e : Expression) : List Change :=
  if e.kind.combines = true then
    if e.judgedOperands.any verdict = true then [] else e.judgedOperands.map .discard ++ [.add e]
  else if e.verdict = true then [] else [.add e]

/-- The changes that the judgement of an expression makes. -/
def changes (e : Expression) : List Change :=
  e.judgedNodes.flatMap ownChanges

/-- Judging a node changes what judging its operands does, and then what the node does itself. -/
theorem changes_eq (e : Expression) : e.changes = e.judgedOperands.flatMap changes ++ e.ownChanges := by
  rw [changes, judgedNodes_eq, List.flatMap_append, List.flatMap_assoc, List.flatMap_singleton]
  rfl

end Expression

/-- Operands that each make their own changes make them one after the other. -/
theorem Judgement.inTurn_eq_changes {es : List Expression}
    (h : ∀ m ∈ es, ∀ cs, m.judge cs = (m.verdict, Change.applyAll cs m.changes)) (cs : Culprits) :
    inTurn (es.map Expression.judge) cs = (es.map Expression.verdict, Change.applyAll cs (es.flatMap Expression.changes)) := by
  induction es generalizing cs with
  | nil => rfl
  | cons m es ih =>
    obtain ⟨hm, hes⟩ := List.forall_mem_cons.1 h
    simp only [List.map_cons, inTurn, hm, ih hes, List.flatMap_cons, Change.applyAll_append]

namespace Expression

/-- A judgement makes its changes, whatever the culprits are, and its verdict does not depend on them. -/
theorem judge_eq_changes (e : Expression) (cs : Culprits) : e.judge cs = (e.verdict, Change.applyAll cs e.changes) := by
  induction e using judgedInduction generalizing cs with
  | step e ih =>
    rw [changes_eq, Change.applyAll_append, ownChanges]
    rcases judge_cases e with ⟨hcomb, hjudge⟩ | ⟨hcomb, m, hoperands, hjudge⟩ | ⟨hcomb, hoperands, hjudge⟩
    · have hverdict : e.verdict = e.judgedOperands.all verdict := by
        rw [verdict, hjudge, Judgement.combine, Judgement.inTurn_eq_changes ih]
        simp
      rw [if_pos hcomb, hverdict, hjudge, Judgement.combine, Judgement.inTurn_eq_changes ih]
      simp only [List.all_map, List.any_map, Function.comp_def, id_eq]
      split
      · rfl
      · rw [Change.applyAll_append, Change.applyAll_discard]
        rfl
    · have hm : ∀ cs, m.judge cs = (m.verdict, Change.applyAll cs m.changes) := ih m (by simp [hoperands])
      have hverdict : e.verdict = m.verdict := by
        rw [verdict, hjudge, Judgement.convert, hm]
        cases m.verdict <;> rfl
      rw [if_neg (by simp [hcomb]), hverdict, hoperands, List.flatMap_singleton, hjudge, Judgement.convert, hm]
      cases m.verdict <;> rfl
    · have hverdict : e.verdict = e.isFixedLeaf := by
        rw [verdict, hjudge]
        cases e.isFixedLeaf <;> rfl
      rw [if_neg (by simp [hcomb]), hverdict, hoperands, hjudge]
      cases e.isFixedLeaf <;> rfl

/-- Only judged nodes are added or discarded. -/
theorem judged_of_mem_changes {e : Expression} {change : Change} (h : change ∈ e.changes) : Judged e change.node := by
  obtain ⟨n, hn, hchange⟩ := List.mem_flatMap.1 h
  have hn := mem_judgedNodes_iff.1 hn
  refine hn.trans ?_
  unfold ownChanges at hchange
  split at hchange
  · split at hchange
    · cases hchange
    · rcases List.mem_append.1 hchange with hchange | hchange
      · obtain ⟨m, hm, rfl⟩ := List.mem_map.1 hchange
        exact .operand hm (.self m)
      · obtain rfl := List.mem_singleton.1 hchange
        exact .self n
  · split at hchange
    · cases hchange
    · obtain rfl := List.mem_singleton.1 hchange
      exact .self n

/-- A node adds nothing but itself. -/
theorem eq_of_add_mem_ownChanges {e x : Expression} (h : .add x ∈ e.ownChanges) : x = e := by
  unfold ownChanges at h
  split at h
  · split at h
    · cases h
    · simpa using h
  · split at h
    · cases h
    · simpa using h

/-- The own changes of a node with distinct identities are settled. -/
theorem Distinct.settled_ownChanges {e : Expression} (h : e.Distinct) : Change.Settled e.ownChanges := by
  unfold ownChanges
  split
  · split
    · exact List.Pairwise.nil
    · refine List.pairwise_append.2 ⟨?_, List.pairwise_singleton _ _, ?_⟩
      · exact List.pairwise_map.2 (List.pairwise_of_forall (fun _ _ hreverts => hreverts))
      · intro a ha b hb hreverts
        obtain ⟨m, hm, rfl⟩ := List.mem_map.1 ha
        obtain rfl := List.mem_singleton.1 hb
        exact h.id_ne hm (.self m) hreverts.symm
  · split
    · exact List.Pairwise.nil
    · exact List.pairwise_singleton _ _

/-- In a tree no node is added again after it was discarded: a node is discarded by the one right above it, which comes after it
and adds nothing but itself. -/
theorem Distinct.settled_changes {e : Expression} (h : e.Distinct) : Change.Settled e.changes := by
  induction e using judgedInduction with
  | step e ih =>
    rw [changes_eq]
    refine List.pairwise_append.2 ⟨List.pairwise_flatMap.2 ⟨fun m hm => ih m hm (h.of_mem hm), ?_⟩, h.settled_ownChanges, ?_⟩
    · have hnodup := h.nodup_operands
      rw [List.map_flatMap, List.nodup_flatMap] at hnodup
      refine hnodup.2.imp (fun {m m'} hdisjoint a ha b hb hreverts => ?_)
      have hn := List.mem_map_of_mem (f := id) (mem_judgedNodes_iff.2 (judged_of_mem_changes ha))
      have hn' := List.mem_map_of_mem (f := id) (mem_judgedNodes_iff.2 (judged_of_mem_changes hb))
      exact hdisjoint hn (hreverts.id_eq ▸ hn')
    · intro a ha b hb hreverts
      obtain ⟨m, hm, hbelow⟩ := List.mem_flatMap.1 ha
      cases b with
      | add x =>
        obtain rfl := eq_of_add_mem_ownChanges hb
        exact h.id_ne hm (judged_of_mem_changes hbelow) hreverts.id_eq.symm
      | discard x => cases a <;> cases hreverts

/-- Judging an expression graph again gives the same verdict and leaves the same culprits, whatever they were at first and
whatever operands its nodes have. If no two judged nodes have one identity, the culprits keep their order too, also where they had
some of the nodes before. -/
theorem judging_again_changes_nothing (printer : Printer) (e : Expression)
    (hprinter : ∀ n, Judged e n → n.kind = .unknown → ∃ text, printer n = .ok text) (cs : Culprits) :
    ∃ verdict once twice, (e.judgeLogged printer cs).result = .ok (verdict, once) ∧
      (e.judgeLogged printer once).result = .ok (verdict, twice) ∧ twice.members.Perm once.members ∧
      (e.Distinct → twice = once) := by
  refine ⟨e.verdict, Change.applyAll cs e.changes, Change.applyAll (Change.applyAll cs e.changes) e.changes, ?_, ?_, ?_, ?_⟩
  · rw [judgeLogged_result_of_judged hprinter, judge_eq_changes]
  · rw [judgeLogged_result_of_judged hprinter, judge_eq_changes]
  · exact Change.applyAll_again_perm cs e.changes
  · exact fun h => h.settled_changes.applyAll_again cs

namespace MovedName

/-- A name as the node with the given identity. -/
def name (id : Nat) (text : String) : Expression :=
  leaf { id, kind := .ident, text }

/-- The name `v` in parentheses. -/
def enclosed : Expression :=
  .node { id := 3, kind := .paren } [name 1 "v"] none

/-- A slice with the bounds `(v)`, `v` and `w` and a pair that has neither key nor value. The name `v` is one node that stands at
two places. -/
def graph : Expression :=
  .node { id := 5, kind := .slice } [enclosed, name 1 "v", name 2 "w", .node { id := 4, kind := .keyValue } [] none] none

/-- The sum of `(v)`, `w` and a literal. -/
def tree : Expression :=
  .node { id := 7, kind := .binary, op := "+" }
    [.node { id := 5, kind := .binary, op := "+" } [enclosed, name 2 "w"] none, leaf { id := 6, kind := .literal }] none

end MovedName

/-- In the graph the second judgement discards `v` again and adds it again, now after the nodes that came after it in the first.
In the tree every culprit stays in its place, and `v`, a culprit from before, is discarded. -/
theorem moved_name_judged_again :
    (∃ once twice, (MovedName.graph.judgeLogged render {}).result = .ok (false, once) ∧
      (MovedName.graph.judgeLogged render once).result = .ok (false, twice) ∧ twice.members.Perm once.members ∧
      once.members.map id = [3, 1, 2, 4] ∧ twice.members.map id = [3, 2, 4, 1]) ∧
    MovedName.tree.Distinct ∧
      ∃ once, (MovedName.tree.judgeLogged render { members := [MovedName.name 1 "v", MovedName.name 9 "u"] }).result =
          .ok (false, once) ∧
        (MovedName.tree.judgeLogged render once).result = .ok (false, once) ∧ once.members.map id = [9, 5] := by
  have hdistinct : MovedName.tree.Distinct := by decide
  obtain ⟨verdict, once, twice, honce, htwice, hperm, -⟩ :=
    judging_again_changes_nothing render MovedName.graph (fun n _ => render_of_unknown n) {}
  obtain ⟨verdict', once', twice', honce', htwice', -, hsame⟩ :=
    judging_again_changes_nothing render MovedName.tree (fun n _ => render_of_unknown n)
      { members := [MovedName.name 1 "v", MovedName.name 9 "u"] }
  rw [hsame hdistinct] at htwice'
  refine ⟨⟨once, twice, ?_⟩, hdistinct, once', ?_⟩
  · obtain ⟨rfl, rfl⟩ := Prod.mk.inj (Except.ok.inj honce)
    obtain ⟨-, rfl⟩ := Prod.mk.inj (Except.ok.inj htwice)
    exact ⟨honce, htwice, hperm, rfl, rfl⟩
  · obtain ⟨rfl, rfl⟩ := Prod.mk.inj (Except.ok.inj honce')
    exact ⟨honce', htwice', rfl⟩

end Expression

end FormatAudit
