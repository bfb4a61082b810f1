import FormatAudit.Proofs.Mirror

/-!
# Which grouping parentheses are found

For expressions of names, literals, binary operators and grouping parentheses in any nesting. A pair of parentheses is found if
what it stands around starts and ends with a stem, apart from further parentheses right inside of the pair. So the tree has all
parentheses of the source, and its text is the text of the source, exactly if every pair is of that kind (`Clear`). A node reaches
from its first stem to its last one, which leaves out the parentheses at its ends: ranges contain the ranges of their operands
exactly if there are no parentheses but those around the whole.
-/

namespace FormatAudit

namespace Phrase

variable {k : PhraseKind}

/-- What is left of a phrase without the grouping parentheses around it. -/
def core {k : PhraseKind} (e : Phrase k) : Phrase k :=
  match e with
  | .group _ inner _ => inner.core
  | e => e

/-- Whether the inside of a pair of grouping parentheses, apart from further parentheses around it, starts and ends with a
stem. -/
def isClear {k : PhraseKind} (e : Phrase k) : Bool :=
  match e with
  | .group _ inner _ => inner.core.isBare
  | _ => true

/-- All pairs of grouping parentheses in a phrase are clear. -/
def Clear (e : Phrase k) : Prop :=
  e.Every (fun _ e => e.isClear = true)

/-- A phrase that is no group is its own core. -/
theorem core_of_not_group {e : Phrase k} (h : e.isGroup = false) : e.core = e := by
  cases e with
  | group => cases h
  | _ => rfl

/-- A phrase has no grouping parentheses if it is no group and there are none inside of those around it. -/
theorem ungrouped_iff {e : Phrase k} : e.Ungrouped ↔ e.isGroup = false ∧ e.core.Ungrouped := by
  constructor
  · intro h
    have hgroup : e.isGroup = false := h.self
    exact ⟨hgroup, (core_of_not_group hgroup).symm ▸ h⟩
  · rintro ⟨hgroup, h⟩
    rwa [core_of_not_group hgroup] at h

theorem isBare_name (word : TokenId) : (name word).isBare = true := by
  simp [isBare, lead, trail, start, stop, stems, tokens]

theorem isBare_literal (word : TokenId) : (literal word).isBare = true := by
  simp [isBare, lead, trail, start, stop, stems, tokens]

end Phrase

namespace Configuration

variable {c : Configuration} {e : Phrase .expression} {text : String} {before after : List TokenId}
  {around : List (TokenId × TokenId)}

/-- An expression of names, literals, binary operators other than the comma, and grouping parentheses, with its text. -/
inductive Spelled (c : Configuration) : Phrase .expression → String → Prop where
  | name (word : TokenId) : Spelled c (.name word) (c.token word).text
  | literal (word : TokenId) : Spelled c (.literal word) (c.token word).text
  | group (opening closing : TokenId) {inner : Phrase .expression} {text : String} (hinner : Spelled c inner text) :
      Spelled c (.group opening inner closing) ("(" ++ text ++ ")")
  | binary (op : TokenId) {left right : Phrase .expression} {textLeft textRight : String} (hop : (c.token op).text ≠ ",")
      (hleft : Spelled c left textLeft) (hright : Spelled c right textRight) :
      Spelled c (.binary left op right) (textLeft ++ " " ++ (c.token op).text ++ " " ++ textRight)

/-- The node of what starts and ends with a stem, in the parentheses right around it. -/
theorem nodeOf_found_of_bare (h : e.isBare = true) (n : Node) (operands : List Expression) (callee : Option Expression) :
    c.nodeOf .found e around n operands callee =
      c.wrap around (.node { n with location := c.placeOf e.lead, stop := some (c.placeOf e.trail) } operands callee) :=
  if_pos h

/-- The node of what does not start or not end with a stem, without the parentheses right around it. -/
theorem nodeOf_found_of_not_bare (h : ¬e.isBare = true) (n : Node) (operands : List Expression) (callee : Option Expression) :
    c.nodeOf .found e around n operands callee =
      .node { n with location := c.placeOf e.lead, stop := some (c.placeOf e.trail) } operands callee :=
  if_neg h

/-! ## Texts -/

/-- A pair of parentheses is shown around what it encloses. -/
theorem render_inPair {x : Expression} {s : String} (h : x.render = .ok s) (p : TokenId × TokenId) :
    (c.inPair x p).render = .ok ("(" ++ s ++ ")") := by
  simp only [inPair, Expression.render, Expression.renderList, Expression.layout, Expression.operandAt, List.getD_cons_zero, h]
  rfl

/-- An operation is shown as its operator between its operands, with a blank on either side. -/
theorem render_binary {x y : Expression} {n : Node} {s s' : String} (hx : x.render = .ok s) (hy : y.render = .ok s')
    (hkind : n.kind = .binary) (hop : n.op ≠ ",") :
    (Expression.node n [x, y] none).render = .ok (s ++ " " ++ n.op ++ " " ++ s') := by
  simp only [Expression.render, Expression.renderList, Expression.layout, hkind, Expression.operandAt, List.getD_cons_zero,
    List.getD_cons_succ, hx, hy, if_neg hop]
  rfl

/-- The text of the tree as written is the text of the source. -/
theorem render_image_written (h : c.Spelled e text) : (c.image .written e []).render = .ok text := by
  induction h with
  | name | literal => rfl
  | group opening closing _ ih =>
    rw [image, image_eq_wrap (fun _ => rfl)]
    exact render_inPair ih _
  | binary op hop _ _ ih ih' => exact render_binary ih ih' rfl hop

/-- Each pair around an expression adds two letters to its text. -/
theorem length_render_wrap {x : Expression} {s : String} (h : x.render = .ok s) :
    ∃ s', (c.wrap around x).render = .ok s' ∧ s'.length = s.length + 2 * around.length := by
  induction around generalizing x s with
  | nil => exact ⟨s, h, rfl⟩
  | cons p around ih =>
    obtain ⟨s', hs', hlength⟩ := ih (render_inPair h p)
    refine ⟨s', hs', ?_⟩
    rw [hlength]
    simp only [String.length_append, List.length_cons]
    have hopen : "(".length = 1 := rfl
    have hclose : ")".length = 1 := rfl
    omega

/-- How many pairs of grouping parentheses of a phrase are not found, if some more stand right around it. -/
def lost {k : PhraseKind} (e : Phrase k) (pairs : Nat) : Nat :=
  match e with
  | .group _ inner _ => lost inner (pairs + 1)
  | .binary left op right => (if (Phrase.binary left op right).isBare then 0 else pairs) + lost left 0 + lost right 0
  | _ => 0

/-- What is not found is missing from the text. -/
theorem length_render_found (h : c.Spelled e text) (around : List (TokenId × TokenId)) :
    ∃ s, (c.image .found e around).render = .ok s ∧
      s.length + 2 * lost e around.length = text.length + 2 * around.length := by
  induction h generalizing around with
  | name word =>
    rw [image, nodeOf_found_of_bare (Phrase.isBare_name word)]
    exact length_render_wrap rfl
  | literal word =>
    rw [image, nodeOf_found_of_bare (Phrase.isBare_literal word)]
    exact length_render_wrap rfl
  | group opening closing _ ih =>
    obtain ⟨s, hs, hlength⟩ := ih ((opening, closing) :: around)
    refine ⟨s, hs, ?_⟩
    have hopen : "(".length = 1 := rfl
    have hclose : ")".length = 1 := rfl
    simp only [List.length_cons, lost, String.length_append] at hlength ⊢
    omega
  | @binary op left right textLeft textRight hop _ _ ih ih' =>
    obtain ⟨s, hs, hlength⟩ := ih []
    obtain ⟨s', hs', hlength'⟩ := ih' []
    rw [List.length_nil] at hlength hlength'
    have hnode : ∀ location stop, (Expression.node { kind := .binary, op := (c.token op).text, location, stop }
        [c.image .found left [], c.image .found right []] none).render = .ok (s ++ " " ++ (c.token op).text ++ " " ++ s') :=
      fun _ _ => render_binary hs hs' rfl hop
    rw [image, lost]
    by_cases hbare : (Phrase.binary left op right).isBare = true
    · rw [nodeOf_found_of_bare hbare, if_pos hbare]
      obtain ⟨s'', hs'', hlength''⟩ := length_render_wrap (hnode _ _)
      refine ⟨s'', hs'', ?_⟩
      simp only [String.length_append] at hlength'' ⊢
      omega
    · rw [nodeOf_found_of_not_bare hbare, if_neg hbare]
      refine ⟨_, hnode _ _, ?_⟩
      simp only [String.length_append]
      omega

/-- No pair is lost if the phrase is clear, and bare within where pairs stand around it. -/
theorem lost_eq_zero_iff (h : c.Spelled e text) (pairs : Nat) :
    lost e pairs = 0 ↔ (pairs = 0 ∨ e.core.isBare = true) ∧ e.Clear := by
  induction h generalizing pairs with
  | name word => simp [lost, Phrase.core, Phrase.isBare_name, Phrase.Clear, Phrase.Every, Phrase.isClear]
  | literal word => simp [lost, Phrase.core, Phrase.isBare_literal, Phrase.Clear, Phrase.Every, Phrase.isClear]
  | @group opening closing inner _ _ ih =>
    rw [lost, ih]
    simp only [Phrase.Clear, Phrase.Every, Phrase.isClear, Phrase.core]
    grind
  | @binary op left right _ _ _ _ _ ih ih' =>
    rw [lost]
    simp only [Nat.add_eq_zero_iff, ih, ih', true_or, true_and, Phrase.Clear, Phrase.Every, Phrase.isClear, Phrase.core]
    grind

/-! ## Outlines -/

/-- Expressions with the same outline have the same one within parentheses. -/
theorem outline_wrap {x y : Expression} (h : x.outline = y.outline) (around : List (TokenId × TokenId)) :
    (c.wrap around x).outline = (c.wrap around y).outline := by
  induction around generalizing x y with
  | nil => exact h
  | cons p around ih =>
    refine ih ?_
    simp only [inPair, Expression.outline, Expression.outlineList, h]

/-- Where all parentheses are found, the tree is apart from ranges the one that is written. -/
theorem outline_image_of_clear (h : c.Spelled e text) (around : List (TokenId × TokenId))
    (haround : around = [] ∨ e.core.isBare = true) (hclear : e.Clear) :
    (c.image .found e around).outline = (c.image .written e around).outline := by
  induction h generalizing around with
  | name word => rw [image, image, nodeOf_of_bare (Phrase.isBare_name word)]
  | literal word => rw [image, image, nodeOf_of_bare (Phrase.isBare_literal word)]
  | group opening closing _ ih => exact ih _ (Or.inr hclear.1) hclear.2
  | @binary op left right _ _ _ _ _ ih ih' =>
    have hleft := ih [] (Or.inl rfl) hclear.2.1
    have hright := ih' [] (Or.inl rfl) hclear.2.2
    have hnode : ∀ location location' stop stop',
        (Expression.node { kind := .binary, op := (c.token op).text, location, stop }
          [c.image .found left [], c.image .found right []] none).outline =
        (Expression.node { kind := .binary, op := (c.token op).text, location := location', stop := stop' }
          [c.image .written left [], c.image .written right []] none).outline := by
      intro location location' stop stop'
      simp only [Expression.outline, Expression.outlineList, hleft, hright]
    rw [image, image]
    by_cases hbare : (Phrase.binary left op right).isBare = true
    · rw [nodeOf_found_of_bare hbare]
      exact outline_wrap (hnode _ _ _ _) around
    · obtain rfl := haround.resolve_right hbare
      rw [nodeOf_found_of_not_bare hbare]
      exact hnode _ _ _ _

/-- The text is the text of the source exactly if all parentheses are clear. -/
theorem render_found_iff_clear (h : c.Spelled e text) : (c.image .found e []).render = .ok text ↔ e.Clear := by
  constructor
  · intro hrender
    obtain ⟨s, hs, hlength⟩ := length_render_found h []
    obtain rfl := Except.ok.inj (hs.symm.trans hrender)
    exact ((lost_eq_zero_iff h 0).1 (by simpa using hlength)).2
  · intro hclear
    rw [Expression.render_eq_of_outline_eq (outline_image_of_clear h [] (Or.inl rfl) hclear)]
    exact render_image_written h

/-- The tree is apart from ranges the one that is written exactly if all parentheses are clear. -/
theorem outline_found_iff_clear (h : c.Spelled e text) :
    (c.image .found e []).outline = (c.image .written e []).outline ↔ e.Clear := by
  refine ⟨fun houtline => ?_, outline_image_of_clear h [] (Or.inl rfl)⟩
  rw [← render_found_iff_clear h, Expression.render_eq_of_outline_eq houtline]
  exact render_image_written h

/-! ## Ranges -/

/-- The tokens of the list are located one after the other. -/
def InPlace (c : Configuration) : Prop :=
  c.tokenList.Pairwise (fun t u => (c.placeOf t).Before (c.placeOf u))

/-- Where places follow the token list, an earlier token has an earlier place. -/
theorem InPlace.of_sublist (h : c.InPlace) {t u : TokenId} (hsub : [t, u].Sublist c.tokenList) :
    (c.placeOf t).Before (c.placeOf u) := by
  have hpair := List.Pairwise.sublist hsub h
  simpa using hpair

/-- An expression reaches from one token to another. -/
def Spans (c : Configuration) (x : Expression) (t u : TokenId) : Prop :=
  x.location = c.placeOf t ∧ x.stopLocation = c.placeOf u

/-- The outermost of the opening parentheses comes first. -/
theorem headD_opens_cons (p : TokenId × TokenId) (around : List (TokenId × TokenId)) (t : TokenId) :
    (opens (p :: around)).headD t = (opens around).headD p.1 := by
  have happend : opens (p :: around) = opens around ++ [p.1] := by simp [opens]
  rw [happend]
  cases opens around <;> rfl

/-- The outermost of the closing parentheses comes last. -/
theorem getLastD_closes_cons (p : TokenId × TokenId) (around : List (TokenId × TokenId)) (u : TokenId) :
    (closes (p :: around)).getLastD u = (closes around).getLastD p.2 :=
  List.getLastD_cons

/-- With parentheses around it an expression reaches from the outermost of them to its match. -/
theorem spans_wrap {x : Expression} {t u : TokenId} (h : c.Spans x t u) (around : List (TokenId × TokenId)) :
    c.Spans (c.wrap around x) ((opens around).headD t) ((closes around).getLastD u) := by
  induction around generalizing x t u with
  | nil => exact h
  | cons p around ih =>
    rw [headD_opens_cons, getLastD_closes_cons]
    exact ih (show c.Spans (c.inPair x p) p.1 p.2 from ⟨rfl, rfl⟩)

/-- A bare phrase spans the parentheses around it. -/
theorem spans_nodeOf_of_bare (h : e.isBare = true) (n : Node) (operands : List Expression) (callee : Option Expression)
    (around : List (TokenId × TokenId)) :
    c.Spans (c.nodeOf .found e around n operands callee) ((opens around).headD e.start) ((closes around).getLastD e.stop) := by
  obtain ⟨hlead, htrail⟩ : e.lead = e.start ∧ e.trail = e.stop := by simpa [Phrase.isBare] using h
  rw [nodeOf_found_of_bare h]
  exact spans_wrap ⟨by rw [hlead]; rfl, by rw [htrail]; rfl⟩ around

/-- An expression whose parentheses are found reaches from its first token to its last one. -/
theorem spans_image_of_bare (h : c.Spelled e text) (hbare : e.core.isBare = true) (around : List (TokenId × TokenId)) :
    c.Spans (c.image .found e around) ((opens around).headD e.start) ((closes around).getLastD e.stop) := by
  induction h generalizing around with
  | name | literal => exact spans_nodeOf_of_bare hbare _ _ _ around
  | binary => exact spans_nodeOf_of_bare hbare _ _ _ around
  | @group opening closing inner _ _ ih =>
    have hstop : (Phrase.group opening inner closing).stop = closing := List.getLastD_concat
    have hspans := ih hbare ((opening, closing) :: around)
    rw [headD_opens_cons, getLastD_closes_cons] at hspans
    rw [hstop]
    exact hspans

/-- An expression whose parentheses are not found reaches from its first stem to its last one. -/
theorem spans_image_of_not_bare (h : c.Spelled e text) (hbare : ¬e.core.isBare = true) (around : List (TokenId × TokenId)) :
    c.Spans (c.image .found e around) e.lead e.trail := by
  induction h generalizing around with
  | name word => exact absurd (Phrase.isBare_name word) hbare
  | literal word => exact absurd (Phrase.isBare_literal word) hbare
  | group opening closing _ ih => exact ih hbare _
  | @binary op left right _ _ _ _ _ _ _ =>
    have hnode : ¬(Phrase.binary left op right).isBare = true := hbare
    rw [image, nodeOf_found_of_not_bare hnode]
    exact ⟨rfl, rfl⟩

/-- An expression that is not in parentheses which are found reaches from its first stem to its last one. -/
theorem spans_image (h : c.Spelled e text) (hgroup : ¬(e.isGroup = true ∧ e.core.isBare = true)) :
    c.Spans (c.image .found e []) e.lead e.trail := by
  by_cases hbare : e.core.isBare = true
  · have hcore : e.core = e := Phrase.core_of_not_group (by simpa [hbare] using hgroup)
    have hspans := spans_image_of_bare h hbare []
    obtain ⟨hlead, htrail⟩ : e.lead = e.start ∧ e.trail = e.stop := by simpa [hcore, Phrase.isBare] using hbare
    rw [hlead, htrail]
    exact hspans
  · exact spans_image_of_not_bare h hbare []

/-- Parentheses around an expression contain it, and each other. -/
theorem everywhere_nests_wrap (hplaces : c.InPlace) {middle : List TokenId} {x : Expression} {t u : TokenId}
    (hlist : c.tokenList = before ++ opens around ++ middle ++ closes around ++ after) (ht : t ∈ middle) (hu : u ∈ middle)
    (h : c.Spans x t u) : (c.wrap around x).Everywhere Expression.Nests ↔ x.Everywhere Expression.Nests := by
  induction around generalizing middle x t u with
  | nil => exact Iff.rfl
  | cons p around ih =>
    have hmiddle : c.tokenList = before ++ opens around ++ (p.1 :: middle ++ [p.2]) ++ closes around ++ after := by
      simp [hlist, opens, closes]
    have hsub : (p.1 :: middle ++ [p.2]).Sublist c.tokenList := by
      rw [hmiddle]
      exact ((List.sublist_append_right _ _).trans (List.sublist_append_left _ _)).trans (List.sublist_append_left _ _)
    have hfirst : (c.placeOf p.1).Before (c.placeOf t) :=
      hplaces.of_sublist ((((List.singleton_sublist.2 ht).trans (List.sublist_append_left _ _)).cons_cons _).trans hsub)
    have hlast : (c.placeOf u).Before (c.placeOf p.2) :=
      hplaces.of_sublist (((List.singleton_sublist.2 (List.mem_cons_of_mem _ hu)).append_right [p.2]).trans hsub)
    have hwithin : x.Within (c.inPair x p) := ⟨Or.inr (h.1 ▸ hfirst), Or.inr (h.2 ▸ hlast)⟩
    have hpair : (c.inPair x p).Everywhere Expression.Nests ↔ x.Everywhere Expression.Nests := by
      rw [inPair, Expression.everywhere_node]
      simp only [List.forall_mem_singleton, Option.not_mem_none, false_implies, implies_true, and_true]
      exact and_iff_right (List.forall_mem_singleton.2 hwithin)
    have hspans : c.Spans (c.inPair x p) p.1 p.2 := ⟨rfl, rfl⟩
    rw [← hpair]
    exact ih hmiddle (by simp) (by simp) hspans

/-- The range of an operand at one of the ends of a node lies in the range of that node, unless the operand is in parentheses that
are found. -/
theorem operand_within_iff (hplaces : c.InPlace) (h : c.Spelled e text) (hsub : e.tokens.Sublist c.tokenList) {x : Expression}
    {t u : TokenId} (hspans : c.Spans x t u) (ht : t = e.lead ∨ [t, e.lead].Sublist c.tokenList)
    (hu : e.trail = u ∨ [e.trail, u].Sublist c.tokenList) (hedge : t = e.lead ∨ e.trail = u) :
    (c.image .found e []).Within x ↔ ¬(e.isGroup = true ∧ e.core.isBare = true) := by
  constructor
  · rintro ⟨hfirst, hlast⟩ ⟨hgroup, hbare⟩
    obtain ⟨hlocation, hstop⟩ := spans_image_of_bare h hbare []
    rw [hspans.1, hlocation] at hfirst
    rw [hspans.2, hstop] at hlast
    cases h with
    | name | literal | binary => cases hgroup
    | @group opening closing inner _ hinner =>
      -- the parentheses stand outside of the stems, so the node is too short at the end that it shares with its operand
      have hlead : inner.lead ∈ inner.tokens := inner.stems_sublist_tokens.subset inner.lead_mem_stems
      have htrail : inner.trail ∈ inner.tokens := inner.stems_sublist_tokens.subset inner.trail_mem_stems
      have hopen : (c.placeOf opening).Before (c.placeOf inner.lead) :=
        hplaces.of_sublist ((((List.singleton_sublist.2 hlead).trans (List.sublist_append_left _ _)).cons_cons _).trans hsub)
      have hclose : (c.placeOf inner.trail).Before (c.placeOf closing) :=
        hplaces.of_sublist (((List.singleton_sublist.2 (List.mem_cons_of_mem _ htrail)).append_right [closing]).trans hsub)
      have hclosing : (Phrase.group opening inner closing).stop = closing := List.getLastD_concat
      rcases hedge with rfl | rfl
      · exact hopen.not_le hfirst
      · refine hclose.not_le ?_
        rw [← hclosing]
        exact hlast
  · intro hgroup
    obtain ⟨hlocation, hstop⟩ := spans_image h hgroup
    refine ⟨?_, ?_⟩
    · rw [hspans.1, hlocation]
      exact ht.imp (congrArg c.placeOf) hplaces.of_sublist
    · rw [hspans.2, hstop]
      exact hu.imp (congrArg c.placeOf) hplaces.of_sublist

/-- The parentheses that are found around a node contain it. -/
theorem everywhere_nests_nodeOf (hplaces : c.InPlace) (hstands : c.Stands before around e after) (n : Node)
    (operands : List Expression) (callee : Option Expression) :
    (c.nodeOf .found e around n operands callee).Everywhere Expression.Nests ↔
      (Expression.node { n with location := c.placeOf e.lead, stop := some (c.placeOf e.trail) } operands callee).Everywhere
        Expression.Nests := by
  by_cases hbare : e.isBare = true
  · rw [nodeOf_found_of_bare hbare]
    exact everywhere_nests_wrap hplaces hstands.list (e.stems_sublist_tokens.subset e.lead_mem_stems)
      (e.stems_sublist_tokens.subset e.trail_mem_stems) ⟨rfl, rfl⟩
  · rw [nodeOf_found_of_not_bare hbare]

/-- The ranges of both operands lie in the range of a binary operation unless one of them is in parentheses that are found. -/
theorem nests_binary_iff (hplaces : c.InPlace) {left right : Phrase .expression} {op : TokenId} {textLeft textRight : String}
    (hleft : c.Spelled left textLeft) (hright : c.Spelled right textRight)
    (hsub : (Phrase.binary left op right).tokens.Sublist c.tokenList) {n : Node} {callee : Option Expression}
    (hspans : c.Spans (.node n [c.image .found left [], c.image .found right []] callee) (Phrase.binary left op right).lead
      (Phrase.binary left op right).trail) :
    (Expression.node n [c.image .found left [], c.image .found right []] callee).Nests ↔
      ¬(left.isGroup = true ∧ left.core.isBare = true) ∧ ¬(right.isGroup = true ∧ right.core.isBare = true) := by
  have hlead : (Phrase.binary left op right).lead = left.lead := Phrase.lead_of_stems_eq rfl
  have hstems : (Phrase.binary left op right).stems = left.stems ++ [op] ++ right.stems := by simp [Phrase.stems]
  have htrail : (Phrase.binary left op right).trail = right.trail := Phrase.trail_of_stems_eq hstems
  rw [hlead, htrail] at hspans
  have hparts : ∀ t ∈ left.stems, ∀ u ∈ right.stems, [t, u].Sublist c.tokenList := by
    intro t ht u hu
    refine List.Sublist.trans ?_ ((Phrase.stems_sublist_tokens _).trans hsub)
    exact (List.singleton_sublist.2 ht).append (List.singleton_sublist.2 (List.mem_cons_of_mem _ hu))
  have hl := operand_within_iff hplaces hleft ((List.sublist_append_left _ _).trans hsub) hspans (Or.inl rfl)
    (Or.inr (hparts _ left.trail_mem_stems _ right.trail_mem_stems)) (Or.inl rfl)
  have hr := operand_within_iff hplaces hright
    (((List.sublist_cons_self _ _).trans (List.sublist_append_right _ _)).trans hsub) hspans
    (Or.inr (hparts _ left.lead_mem_stems _ right.lead_mem_stems)) (Or.inl rfl) (Or.inr rfl)
  rw [← hl, ← hr]
  exact List.forall_mem_cons.trans (and_congr_right' List.forall_mem_singleton)

/-- Ranges contain the ranges of their operands exactly if there are no parentheses but those around the whole. -/
theorem everywhere_nests_image (hstream : c.Stream) (hplaces : c.InPlace) (h : c.Spelled e text)
    (hstands : c.Stands before around e after) (hwired : c.Wired e) :
    (c.image .found e around).Everywhere Expression.Nests ↔ e.core.Ungrouped := by
  induction h generalizing before around after with
  | name word =>
    rw [image, everywhere_nests_nodeOf hplaces hstands]
    exact iff_of_true (Expression.everywhere_leaf (by simp [Expression.Nests, Expression.operands])) rfl
  | literal word =>
    rw [image, everywhere_nests_nodeOf hplaces hstands]
    exact iff_of_true (Expression.everywhere_leaf (by simp [Expression.Nests, Expression.operands])) rfl
  | group opening closing _ ih => exact ih (hstands.inner hwired.1) hwired.2
  | @binary op left right _ _ _ hleft hright ih ih' =>
    have hsplit : (Phrase.binary left op right).tokens = left.tokens ++ op :: right.tokens ++ [] := by simp [Phrase.tokens]
    have hl := ih (hstands.left hstream rfl (by simp)) hwired.2.1
    have hr := ih' (hstands.right hsplit (opensGroup_of_operand hwired.1.1.2.1)) hwired.2.2
    have hcore : (Phrase.binary left op right).core.Ungrouped ↔ left.Ungrouped ∧ right.Ungrouped := and_iff_right rfl
    rw [image, everywhere_nests_nodeOf hplaces hstands, Expression.everywhere_node,
      nests_binary_iff hplaces hleft hright hstands.sublist ⟨rfl, rfl⟩, List.forall_mem_cons,
      List.forall_mem_singleton, hl, hr, hcore, Phrase.ungrouped_iff (e := left), Phrase.ungrouped_iff (e := right)]
    constructor
    · rintro ⟨⟨hnot, hnot'⟩, ⟨hu, hu'⟩, -⟩
      simp only [hu.isBare, hu'.isBare, and_true, Bool.not_eq_true] at hnot hnot'
      exact ⟨⟨hnot, hu⟩, ⟨hnot', hu'⟩⟩
    · rintro ⟨⟨hnot, hu⟩, ⟨hnot', hu'⟩⟩
      exact ⟨⟨by simp [hnot], by simp [hnot']⟩, ⟨hu, hu'⟩, by simp⟩

/-- What is made of an expression of names, literals, binary operators and grouping parentheses: all of its parentheses are found,
and its text is the text of the source, exactly if they are all clear; and ranges contain the ranges of their operands exactly if
there are no parentheses but those around the whole. -/
theorem groups_found_iff_clear (hstream : c.Stream) (hplaces : c.InPlace) (h : c.Stands before [] e after) (hwired : c.Wired e)
    (hspelled : c.Spelled e text) (hheight : e.height ≤ depthLimit) :
    ∃ x, (c.source.expression (some e.root)).result = .ok x ∧ x = (c.image .found e []).numbered ∧
      (x.outline = (c.image .written e []).outline ↔ e.Clear) ∧ (x.render = .ok text ↔ e.Clear) ∧
      (x.Everywhere Expression.Nests ↔ e.core.Ungrouped) := by
  refine ⟨_, hstream.expression_of_phrase h hwired hheight, rfl, ?_, ?_, ?_⟩
  · rw [Expression.outline_numbered]
    exact outline_found_iff_clear hspelled
  · rw [Expression.render_numbered]
    exact render_found_iff_clear hspelled
  · rw [Expression.everywhere_nests_numbered]
    exact everywhere_nests_image hstream hplaces hspelled h hwired

namespace SumTimes

/-- The tokens of `(a + b) * c`. -/
def config : Configuration :=
  inARow [{ text := "(", link := some 4 }, { text := "a", isName := true },
    { text := "+", operand1 := some 1, operand2 := some 3 }, { text := "b", isName := true }, { text := ")", link := some 0 },
    { text := "*", operand1 := some 2, operand2 := some 6 }, { text := "c", isName := true }]

/-- A product with a sum in parentheses. -/
def phrase : Phrase .expression :=
  .binary (.group 0 (.binary (.name 1) 2 (.name 3)) 4) 5 (.name 6)

theorem stream : config.Stream :=
  stream_of_checks (by decide) (by decide) (by decide) (by decide) (by decide)
    (by decide)

theorem spelled : config.Spelled phrase "(a + b) * c" :=
  .binary 5 (by decide) (.group 0 4 (.binary 2 (by decide) (.name 1) (.name 3))) (.name 6)

theorem clear : phrase.Clear := by
  unfold Phrase.Clear
  decide

theorem inPlace : config.InPlace := by
  unfold InPlace
  decide

theorem stands : config.Stands [] [] phrase [] :=
  ⟨by decide, nofun, nofun⟩

theorem wired : config.Wired phrase := by
  unfold Wired
  decide

end SumTimes

/-- The parentheses of `(a + b) * c` are found, and the range of the product does not contain them. -/
theorem sum_times_text_kept : SumTimes.config.Stands [] [] SumTimes.phrase [] ∧
    ∃ x, (SumTimes.config.source.expression (some 5)).result = .ok x ∧ x.render = .ok "(a + b) * c" ∧
      ¬x.Everywhere Expression.Nests := by
  obtain ⟨x, hx, -, -, htext, hnests⟩ := groups_found_iff_clear SumTimes.stream SumTimes.inPlace SumTimes.stands SumTimes.wired
    SumTimes.spelled (by decide)
  have hgrouped : ¬SumTimes.phrase.core.Ungrouped := by
    unfold Phrase.Ungrouped
    decide
  exact ⟨SumTimes.stands, x, hx, htext.2 SumTimes.clear, mt hnests.1 hgrouped⟩

namespace InnerParens

/-- The tokens of `((a) + b)`. -/
def config : Configuration :=
  inARow [{ text := "(", link := some 6 }, { text := "(", link := some 3 }, { text := "a", isName := true },
    { text := ")", link := some 1 }, { text := "+", operand1 := some 2, operand2 := some 5 }, { text := "b", isName := true },
    { text := ")", link := some 0 }]

/-- A sum in parentheses that starts with a parenthesis. -/
def phrase : Phrase .expression :=
  .group 0 (.binary (.group 1 (.name 2) 3) 4 (.name 5)) 6

theorem stream : config.Stream :=
  stream_of_checks (by decide) (by decide) (by decide) (by decide) (by decide)
    (by decide)

theorem inPlace : config.InPlace := by
  unfold InPlace
  decide

theorem spelled : config.Spelled phrase "((a) + b)" :=
  .group 0 6 (.binary 4 (by decide) (.group 1 3 (.name 2)) (.name 5))

theorem stands : config.Stands [] [] phrase [] :=
  ⟨by decide, nofun, nofun⟩

theorem wired : config.Wired phrase := by
  unfold Wired
  decide

end InnerParens

/-- The outer parentheses of `((a) + b)` are lost, and the range of the sum does not contain the range of its left operand. -/
theorem inner_parens_hide_outer : InnerParens.config.Stream ∧ InnerParens.config.InPlace ∧
    InnerParens.config.Stands [] [] InnerParens.phrase [] ∧ InnerParens.config.Wired InnerParens.phrase ∧
    InnerParens.config.Spelled InnerParens.phrase "((a) + b)" ∧
    ∃ x, (InnerParens.config.source.expression (some 4)).result = .ok x ∧ x.render = .ok "(a) + b" ∧
      ¬x.Everywhere Expression.Nests := by
  have hx := InnerParens.stream.expression_of_phrase InnerParens.stands InnerParens.wired (by decide)
  refine ⟨InnerParens.stream, InnerParens.inPlace, InnerParens.stands, InnerParens.wired, InnerParens.spelled, _, hx, ?_, ?_⟩
  · rw [Expression.render_numbered]
    decide
  · rw [Expression.everywhere_nests_numbered,
      everywhere_nests_image InnerParens.stream InnerParens.inPlace InnerParens.spelled InnerParens.stands InnerParens.wired]
    unfold Phrase.Ungrouped
    decide

end Configuration

end FormatAudit
