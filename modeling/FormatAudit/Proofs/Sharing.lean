import FormatAudit.Proofs.Blame

/-!
# Blame in expression graphs

A node may stand at several places of an expression graph, and the culprits from which a judgement starts may already have some of
its nodes. Then a node that one part of the expression has blamed can be taken back by another part, and the culprits are no longer
described by the blamed nodes. What remains true is said by `Culprits.DiffersBy` and `Blames`: a judgement changes nothing but the
membership of judged nodes, it changes nothing at all if the expression is constant, and otherwise it leaves some judged node among
the culprits.

That some blame remains is no local fact. In a node with several operands it is the last operand that is not constant whose blame
is safe: the operands after it are constant and take nothing back (`exists_has_inTurn`).
-/

namespace FormatAudit

namespace Culprits

variable {nodes nodes' : List Expression} {cs ds es : Culprits} {e n : Expression}

/-- Culprits differ from earlier ones by some nodes at most: every new member is one of them, and apart from them the members are
the same in the same order. -/
def DiffersBy (nodes : List Expression) (cs ds : Culprits) : Prop :=
  (∀ n ∈ ds.members, n ∈ cs.members ∨ n ∈ nodes) ∧ ds.discardAll nodes = cs.discardAll nodes

/-- Culprits are told by their members. -/
theorem ext_members (h : cs.members = ds.members) : cs = ds := by
  cases cs
  cases ds
  cases h
  rfl

/-- A node is in the set if a member has its identity. -/
theorem has_eq_true_iff : cs.has e = true ↔ ∃ m ∈ cs.members, m.id = e.id := by
  simp [has]

/-- A node is in the set after it is added. -/
theorem has_add_self (cs : Culprits) (e : Expression) : (cs.add e).has e = true := by
  cases h : cs.has e with
  | true => rwa [add, if_pos h]
  | false => exact has_eq_true_iff.2 ⟨e, by simp [add_members_of_fresh h], rfl⟩

/-- Nodes that are discarded anyway need not be discarded before. -/
theorem discardAll_discardAll_of_subset (h : nodes ⊆ nodes') (cs : Culprits) :
    (cs.discardAll nodes).discardAll nodes' = cs.discardAll nodes' := by
  apply ext_members
  rw [discardAll_members, discardAll_members, discardAll_members, List.filter_filter]
  refine List.filter_congr (fun n _ => ?_)
  rw [Bool.and_eq_left_iff_imp]
  intro hall
  exact List.all_eq_true.2 (fun e he => List.all_eq_true.1 hall e (h he))

/-- A node that is discarded anyway need not be added before. -/
theorem discardAll_add_of_id_mem (h : n.id ∈ nodes.map Expression.id) (cs : Culprits) :
    (cs.add n).discardAll nodes = cs.discardAll nodes := by
  cases hhas : cs.has n with
  | true => rw [add, if_pos hhas]
  | false =>
    apply ext_members
    have hout : (nodes.all fun e => n.id != e.id) = false := by
      obtain ⟨e, he, hid⟩ := List.mem_map.1 h
      rw [List.all_eq_false]
      exact ⟨e, he, by simp [hid]⟩
    rw [discardAll_members, discardAll_members, add_members_of_fresh hhas, List.filter_append, List.filter_singleton, hout]
    simp

/-- A set differs from itself by nothing. -/
theorem DiffersBy.refl (nodes : List Expression) (cs : Culprits) : DiffersBy nodes cs cs :=
  ⟨fun _ hn => Or.inl hn, rfl⟩

/-- Differences add up. -/
theorem DiffersBy.trans (h : DiffersBy nodes cs ds) (h' : DiffersBy nodes ds es) : DiffersBy nodes cs es := by
  refine ⟨fun n hn => ?_, h'.2.trans h.2⟩
  rcases h'.1 n hn with hn | hn
  · exact h.1 n hn
  · exact Or.inr hn

/-- Sets that differ by nodes differ by more nodes. -/
theorem DiffersBy.mono (h : DiffersBy nodes cs ds) (hsub : nodes ⊆ nodes') : DiffersBy nodes' cs ds := by
  refine ⟨fun n hn => (h.1 n hn).imp_right (fun hn => hsub hn), ?_⟩
  rw [← discardAll_discardAll_of_subset hsub ds, h.2, discardAll_discardAll_of_subset hsub]

/-- Adding a node makes a difference only there. -/
theorem DiffersBy.add (h : n ∈ nodes) (cs : Culprits) : DiffersBy nodes cs (cs.add n) := by
  refine ⟨fun m hm => ?_, discardAll_add_of_id_mem (List.mem_map_of_mem h) cs⟩
  cases hhas : cs.has n with
  | true =>
    rw [Culprits.add, if_pos hhas] at hm
    exact Or.inl hm
  | false =>
    rw [add_members_of_fresh hhas, List.mem_append, List.mem_singleton] at hm
    exact hm.imp_right (fun hm => by rwa [hm])

/-- So does discarding nodes. -/
theorem DiffersBy.discardAll {gone : List Expression} (h : gone ⊆ nodes) (cs : Culprits) :
    DiffersBy nodes cs (cs.discardAll gone) := by
  refine ⟨fun n hn => Or.inl ?_, discardAll_discardAll_of_subset h cs⟩
  rw [discardAll_members] at hn
  exact List.mem_of_mem_filter hn

end Culprits

namespace Expression

/-- What the verdict on an expression says about the culprits before and after it. -/
structure Blames (e : Expression) (cs : Culprits) (verdict : Bool) (ds : Culprits) : Prop where
  unchanged : verdict = true → ds = cs
  blamed : verdict = false → ∃ n, Judged e n ∧ ds.has n = true
  differsBy : Culprits.DiffersBy e.judgedNodes cs ds

/-- The nodes that are judged with an operand are judged with the expression. -/
theorem judgedNodes_subset_of_mem {e m : Expression} (hm : m ∈ e.judgedOperands) : m.judgedNodes ⊆ e.judgedNodes :=
  fun _ hn => mem_judgedNodes_iff.2 (.operand hm (mem_judgedNodes_iff.1 hn))

/-- An expression is judged with itself. -/
theorem self_mem_judgedNodes (e : Expression) : e ∈ e.judgedNodes :=
  mem_judgedNodes_iff.2 (.self e)

end Expression

namespace Judgement

open Expression

/-- There is a verdict for each operand, so of operands that are all constant, one is. -/
theorem any_of_all_inTurn {es : List Expression} (hne : es ≠ []) (cs : Culprits)
    (hall : (inTurn (es.map judge) cs).1.all id = true) : (inTurn (es.map judge) cs).1.any id = true := by
  obtain ⟨m, rest, rfl⟩ := List.exists_cons_of_ne_nil hne
  simp only [List.map_cons, inTurn, List.all_cons, List.any_cons, Bool.and_eq_true, Bool.or_eq_true] at hall ⊢
  exact Or.inl hall.1

/-- Operands that are all constant change nothing. -/
theorem inTurn_of_all {es : List Expression} (h : ∀ m ∈ es, ∀ cs, m.Blames cs (m.judge cs).1 (m.judge cs).2) (cs : Culprits)
    (hall : (inTurn (es.map judge) cs).1.all id = true) : (inTurn (es.map judge) cs).2 = cs := by
  induction es generalizing cs with
  | nil => rfl
  | cons m es ih =>
    obtain ⟨hm, hes⟩ := List.forall_mem_cons.1 h
    simp only [List.map_cons, inTurn, List.all_cons, Bool.and_eq_true, id_eq] at hall ⊢
    rw [ih hes _ hall.2]
    exact (hm cs).unchanged hall.1

/-- Operands one of which is not constant leave blame behind: that of the last such operand, since those after it are constant and
change nothing. -/
theorem exists_has_inTurn {es : List Expression} (h : ∀ m ∈ es, ∀ cs, m.Blames cs (m.judge cs).1 (m.judge cs).2)
    (cs : Culprits) (hall : (inTurn (es.map judge) cs).1.all id = false) :
    ∃ m ∈ es, ∃ n, m.Judged n ∧ (inTurn (es.map judge) cs).2.has n = true := by
  induction es generalizing cs with
  | nil => cases hall
  | cons m es ih =>
    obtain ⟨hm, hes⟩ := List.forall_mem_cons.1 h
    simp only [List.map_cons, inTurn, List.all_cons, id_eq] at hall ⊢
    cases hrest : (inTurn (es.map judge) (m.judge cs).2).1.all id with
    | false =>
      obtain ⟨m', hm', hn⟩ := ih hes _ hrest
      exact ⟨m', List.mem_cons_of_mem m hm', hn⟩
    | true =>
      rw [hrest, Bool.and_true] at hall
      obtain ⟨n, hn, hhas⟩ := (hm cs).blamed hall
      rw [inTurn_of_all hes _ hrest]
      exact ⟨m, List.mem_cons_self, n, hn, hhas⟩

/-- Judging operands in turn makes a difference only at the nodes that are judged with them. -/
theorem differsBy_inTurn {es nodes : List Expression} (h : ∀ m ∈ es, ∀ cs, m.Blames cs (m.judge cs).1 (m.judge cs).2)
    (hnodes : ∀ m ∈ es, m.judgedNodes ⊆ nodes) (cs : Culprits) :
    Culprits.DiffersBy nodes cs (inTurn (es.map judge) cs).2 := by
  induction es generalizing cs with
  | nil => exact .refl nodes cs
  | cons m es ih =>
    obtain ⟨hm, hes⟩ := List.forall_mem_cons.1 h
    obtain ⟨hmnodes, hesnodes⟩ := List.forall_mem_cons.1 hnodes
    exact ((hm cs).differsBy.mono hmnodes).trans (ih hes hesnodes _)

end Judgement

namespace Expression

/-- A composite node with an operand to judge, judged after its operands. -/
theorem blames_combine {e : Expression} (hne : e.judgedOperands ≠ [])
    (h : ∀ m ∈ e.judgedOperands, ∀ cs, m.Blames cs (m.judge cs).1 (m.judge cs).2) (cs : Culprits) :
    e.Blames cs (Judgement.combine e e.judgedOperands (e.judgedOperands.map judge) cs).1
      (Judgement.combine e e.judgedOperands (e.judgedOperands.map judge) cs).2 := by
  have hdiffers : Culprits.DiffersBy e.judgedNodes cs (Judgement.inTurn (e.judgedOperands.map judge) cs).2 :=
    Judgement.differsBy_inTurn h (fun m hm => judgedNodes_subset_of_mem hm) cs
  have hoperands : e.judgedOperands ⊆ e.judgedNodes :=
    fun m hm => judgedNodes_subset_of_mem hm (self_mem_judgedNodes m)
  simp only [Judgement.combine]
  split
  · refine ⟨Judgement.inTurn_of_all h cs, fun hall => ?_, hdiffers⟩
    obtain ⟨m, hm, n, hn, hhas⟩ := Judgement.exists_has_inTurn h cs hall
    exact ⟨n, .operand hm hn, hhas⟩
  · rename_i hnone
    refine ⟨fun hall => absurd (Judgement.any_of_all_inTurn hne cs hall) hnone,
      fun _ => ⟨e, .self e, Culprits.has_add_self _ e⟩, ?_⟩
    exact hdiffers.trans ((Culprits.DiffersBy.discardAll hoperands _).trans (.add (self_mem_judgedNodes e) _))

/-- Whatever the culprits were, a judgement changes nothing if the expression is constant, and otherwise leaves a judged node among
them. It changes the membership of judged nodes only. -/
theorem blames_judge {e : Expression} (hcomposed : e.Composed) (cs : Culprits) : e.Blames cs (e.judge cs).1 (e.judge cs).2 := by
  induction e using judgedInduction generalizing cs with
  | step e ih =>
    have ih : ∀ m ∈ e.judgedOperands, ∀ cs, m.Blames cs (m.judge cs).1 (m.judge cs).2 :=
      fun m hm cs => ih m hm (hcomposed.of_mem hm) cs
    rcases judge_cases e with ⟨hcomb, hjudge⟩ | ⟨-, m, hoperands, hjudge⟩ | ⟨-, -, hjudge⟩
    · rw [hjudge]
      exact blames_combine (hcomposed e (.self e) hcomb) ih cs
    · have hm : m ∈ e.judgedOperands := by simp [hoperands]
      have hblames := ih m hm cs
      have hdiffers := hblames.differsBy.mono (judgedNodes_subset_of_mem hm)
      rw [hjudge]
      simp only [Judgement.convert]
      split
      · exact ⟨fun _ => hblames.unchanged ‹_›, Bool.noConfusion, hdiffers⟩
      · exact ⟨Bool.noConfusion, fun _ => ⟨e, .self e, Culprits.has_add_self _ e⟩,
          hdiffers.trans (.add (self_mem_judgedNodes e) _)⟩
    · rw [hjudge]
      split
      · exact ⟨fun _ => rfl, Bool.noConfusion, .refl _ cs⟩
      · exact ⟨Bool.noConfusion, fun _ => ⟨e, .self e, Culprits.has_add_self _ e⟩, .add (self_mem_judgedNodes e) cs⟩

/-- Judging an expression graph in which every composite node has an operand to judge gives a verdict that does not depend on the
culprits from before, which may have nodes of the expression. Culprits stay as they are if the expression is constant. Otherwise
some judged node is among them afterwards. Every node that is added is a judged node, and apart from the judged nodes the culprits
are the same in the same order. -/
theorem judge_blames_within (printer : Printer) (e : Expression)
    (hprinter : ∀ n, Judged e n → n.kind = .unknown → ∃ text, printer n = .ok text) (hcomposed : e.Composed) :
    ∃ verdict, ∀ cs, ∃ culprits, (e.judgeLogged printer cs).result = .ok (verdict, culprits) ∧
      (verdict = true → culprits = cs) ∧
      (verdict = false → ∃ n, Judged e n ∧ culprits.has n = true) ∧
      (∀ n ∈ culprits.members, n ∈ cs.members ∨ Judged e n) ∧
      culprits.discardAll e.judgedNodes = cs.discardAll e.judgedNodes := by
  have hverdict : ∀ cs, (e.judge cs).1 = decide e.Constant := by
    intro cs
    rw [Bool.eq_iff_iff, judge_verdict hcomposed, decide_eq_true_eq]
  refine ⟨decide e.Constant, fun cs => ⟨(e.judge cs).2, ?_, ?_⟩⟩
  · rw [judgeLogged_result_of_judged hprinter, ← hverdict cs]
  · have hblames := blames_judge hcomposed cs
    rw [hverdict cs] at hblames
    exact ⟨hblames.unchanged, hblames.blamed,
      fun n hn => (hblames.differsBy.1 n hn).imp_right mem_judgedNodes_iff.1, hblames.differsBy.2⟩

namespace SharedName

/-- The name `v`, one node that stands at two places. -/
def name : Expression :=
  leaf { id := 1, kind := .ident, text := "v" }

/-- The sum of `v + "x"` and `(v)`. -/
def inner : Expression :=
  .node { id := 5, kind := .binary, op := "+" }
    [.node { id := 3, kind := .binary, op := "+" } [name, leaf { id := 2, kind := .literal, text := "\"x\"" }] none,
     .node { id := 4, kind := .paren } [name] none] none

/-- The inner sum and a literal. -/
def whole : Expression :=
  .node { id := 7, kind := .binary, op := "+" } [inner, leaf { id := 6, kind := .literal, text := "\"y\"" }] none

/-- A culprit that is not part of the expression. -/
def other : Expression :=
  leaf { id := 9, kind := .ident, text := "u" }

end SharedName

/-- The first operand blames `v`, the second takes that blame back, also from culprits that had `v` before, and the inner sum is
left. -/
theorem shared_name_blames_inner_sum : SharedName.whole.Composed ∧
    ∃ culprits, (SharedName.whole.judgeLogged render { members := [SharedName.name, SharedName.other] }).result =
        .ok (false, culprits) ∧ culprits.members.map id = [9, 5] ∧
      (∃ n, Judged SharedName.whole n ∧ culprits.has n = true) ∧
      ∀ n ∈ culprits.members, n ∈ [SharedName.name, SharedName.other] ∨ Judged SharedName.whole n := by
  have hcomposed : SharedName.whole.Composed := by decide
  obtain ⟨verdict, hverdict⟩ :=
    judge_blames_within render SharedName.whole (fun n _ => render_of_unknown n) hcomposed
  obtain ⟨culprits, hresult, -, hblamed, hadded, -⟩ := hverdict { members := [SharedName.name, SharedName.other] }
  have heval : (SharedName.whole.judgeLogged render { members := [SharedName.name, SharedName.other] }).result =
      .ok (false, { members := [SharedName.other, SharedName.inner] }) := by rfl
  obtain ⟨rfl, rfl⟩ := Prod.mk.inj (Except.ok.inj (hresult.symm.trans heval))
  exact ⟨hcomposed, _, hresult, rfl, hblamed rfl, hadded⟩

end Expression

end FormatAudit
