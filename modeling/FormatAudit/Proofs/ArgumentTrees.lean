import FormatAudit.Proofs.CommaTrees
import Mathlib.Logic.Function.Iterate

/-!
# The walk over the arguments of a call

A finite tree of commas as data (`ArgumentTree`), with its arguments from left to right (`flatten`) and the places of the arguments:
the sides to take at each comma on the way down. A tree that hangs off a token gives its height and leaves as a `CommaTree`
(`commaTree_of_hangsOff`), so the walk over a call finds the arguments of the tree that hangs off it, whatever shape the tree has.

The walk carries an allowance for each pending token. `turn` is one turn of the same loop without any allowance. It empties the
stack exactly if a finite tree hangs off each pending token (`walk_ends_iff`), after one turn for each token and each missing
operand of these trees, so the allowance cuts nothing off.
-/

namespace FormatAudit

/-- What may hang off a call: nothing, an argument, or a comma with what hangs off its two operands. -/
inductive ArgumentTree where
  | missing
  | argument (root : TokenId)
  | comma (root : TokenId) (left right : ArgumentTree)
  deriving DecidableEq, Repr

namespace ArgumentTree

/-- The arguments of a tree from left to right. -/
def flatten : ArgumentTree → List TokenId
  | .missing => []
  | .argument t => [t]
  | .comma _ left right => left.flatten ++ right.flatten

/-- How many commas stand on the longest way down. -/
def height : ArgumentTree → Nat
  | .missing => 0
  | .argument _ => 0
  | .comma _ left right => max left.height right.height + 1

/-- How many tokens and missing operands a tree has. -/
def turns : ArgumentTree → Nat
  | .missing => 1
  | .argument _ => 1
  | .comma _ left right => left.turns + right.turns + 1

/-- The places of the arguments from left to right: at each comma on the way down, whether it goes on to the right. -/
def places : ArgumentTree → List (List Bool)
  | .missing => []
  | .argument _ => [[]]
  | .comma _ left right => left.places.map (false :: ·) ++ right.places.map (true :: ·)

/-- Below a token that may be missing, the tokens of a configuration form a tree: its commas are the commas, and its arguments are
other tokens. -/
def HangsOff (c : Configuration) : ArgumentTree → Option TokenId → Prop
  | .missing, o => o = none
  | .argument t, o => o = some t ∧ (c.token t).text ≠ ","
  | .comma t left right, o =>
    o = some t ∧ (c.token t).text = "," ∧ left.HangsOff c (c.token t).operand1 ∧ right.HangsOff c (c.token t).operand2

/-- The places of the arguments are in order from left to right, and no two are the same. -/
theorem pairwise_places (tree : ArgumentTree) : tree.places.Pairwise (· < ·) := by
  induction tree with
  | missing => exact List.Pairwise.nil
  | argument t => exact List.pairwise_singleton _ _
  | comma t left right ihleft ihright =>
    have hcons : ∀ (side : Bool) {p q : List Bool}, p < q → side :: p < side :: q := by
      intro side p q hpq
      exact List.cons_lt_cons_iff.2 (Or.inr ⟨rfl, hpq⟩)
    rw [places, List.pairwise_append, List.pairwise_map, List.pairwise_map]
    refine ⟨ihleft.imp (hcons false), ihright.imp (hcons true), ?_⟩
    intro p hp q hq
    obtain ⟨p, -, rfl⟩ := List.mem_map.1 hp
    obtain ⟨q, -, rfl⟩ := List.mem_map.1 hq
    exact List.cons_lt_cons_iff.2 (Or.inl (by decide))

end ArgumentTree

namespace Configuration

open ArgumentTree

variable {c : Configuration} {tree : ArgumentTree} {o : Option TokenId}

/-! ## The arguments that are found -/

/-- A tree that hangs off an operand is the comma tree below it. -/
theorem commaTree_of_hangsOff (h : tree.HangsOff c o) : c.CommaTree tree.height o tree.flatten := by
  induction tree generalizing o with
  | missing =>
    obtain rfl := h
    exact .missing
  | argument t =>
    obtain ⟨rfl, htext⟩ := h
    exact .leaf htext
  | comma t left right ihleft ihright =>
    obtain ⟨rfl, htext, hleft, hright⟩ := h
    exact .comma htext (ihleft hleft) (ihright hright)

/-- The argument at a place below a token: at each comma the place says on which side to go on, and it ends at another token. -/
def argumentAt (c : Configuration) : List Bool → Option TokenId → Option TokenId
  | _, none => none
  | [], some t => if (c.token t).text = "," then none else some t
  | right :: place, some t =>
    if (c.token t).text = "," then argumentAt c place (if right then (c.token t).operand2 else (c.token t).operand1) else none

/-- The arguments of a tree are what stands at its places. -/
theorem map_argumentAt_places (h : tree.HangsOff c o) :
    tree.places.map (fun place => c.argumentAt place o) = tree.flatten.map some := by
  induction tree generalizing o with
  | missing => rfl
  | argument t =>
    obtain ⟨rfl, htext⟩ := h
    simp [places, flatten, argumentAt, htext]
  | comma t left right ihleft ihright =>
    obtain ⟨rfl, htext, hleft, hright⟩ := h
    rw [flatten, List.map_append, ← ihleft hleft, ← ihright hright]
    simp [places, argumentAt, htext, Function.comp_def]

/-- There are arguments at the places of a tree and nowhere else. -/
theorem mem_places_iff (h : tree.HangsOff c o) (place : List Bool) :
    place ∈ tree.places ↔ (c.argumentAt place o).isSome = true := by
  induction tree generalizing o place with
  | missing =>
    obtain rfl := h
    simp [places, argumentAt]
  | argument t =>
    obtain ⟨rfl, htext⟩ := h
    cases place <;> simp [places, argumentAt, htext]
  | comma t left right ihleft ihright =>
    obtain ⟨rfl, htext, hleft, hright⟩ := h
    rw [places]
    cases place with
    | nil => simp [argumentAt, htext]
    | cons side place =>
      cases side with
      | false => simpa [argumentAt, htext] using ihleft hleft place
      | true => simpa [argumentAt, htext] using ihright hright place

/-! ## The walk without an allowance -/

/-- One turn of the walk: takes the first pending token, and opens it if it is a comma. The second part holds what was found, the
last argument first. -/
def turn (c : Configuration) : List (Option TokenId) × List TokenId → List (Option TokenId) × List TokenId
  | ([], found) => ([], found)
  | (none :: rest, found) => (rest, found)
  | (some t :: rest, found) =>
    if (c.token t).text = "," then ((c.token t).operand1 :: (c.token t).operand2 :: rest, found) else (rest, t :: found)

/-- After the turns of a tree its arguments are found, and the others are still pending. -/
theorem turn_iterate (h : tree.HangsOff c o) (rest : List (Option TokenId)) (found : List TokenId) :
    c.turn^[tree.turns] (o :: rest, found) = (rest, tree.flatten.reverse ++ found) := by
  induction tree generalizing o rest found with
  | missing =>
    obtain rfl := h
    rfl
  | argument t =>
    obtain ⟨rfl, htext⟩ := h
    simp [turns, turn, flatten, htext]
  | comma t left right ihleft ihright =>
    obtain ⟨rfl, htext, hleft, hright⟩ := h
    have hopened : c.turn (some t :: rest, found) = ((c.token t).operand1 :: (c.token t).operand2 :: rest, found) := by
      rw [turn, if_pos htext]
    rw [turns, Function.iterate_succ_apply, hopened, Nat.add_comm left.turns, Function.iterate_add_apply, ihleft hleft,
      ihright hright, flatten, List.reverse_append, List.append_assoc]

/-- Where the walk empties the stack, each pending token has a finite tree below it. -/
theorem exists_hangsOff_of_turns {n : Nat} {pending : List (Option TokenId)} {found : List TokenId}
    (h : (c.turn^[n] (pending, found)).1 = []) : ∀ o ∈ pending, ∃ tree : ArgumentTree, tree.HangsOff c o := by
  induction n generalizing pending found with
  | zero =>
    obtain rfl : pending = [] := h
    simp
  | succ n ih =>
    rw [Function.iterate_succ_apply] at h
    cases pending with
    | nil => simp
    | cons o rest =>
      cases o with
      | none => exact List.forall_mem_cons.2 ⟨⟨.missing, rfl⟩, ih h⟩
      | some t =>
        rw [turn] at h
        split at h
        · rename_i htext
          obtain ⟨⟨left, hleft⟩, hmore⟩ := List.forall_mem_cons.1 (ih h)
          obtain ⟨⟨right, hright⟩, hrest⟩ := List.forall_mem_cons.1 hmore
          exact List.forall_mem_cons.2 ⟨⟨.comma t left right, rfl, htext, hleft, hright⟩, hrest⟩
        · rename_i htext
          exact List.forall_mem_cons.2 ⟨⟨.argument t, rfl, htext⟩, ih h⟩

/-- The walk below a token ends exactly if a finite tree hangs off it. -/
theorem walk_ends_iff : (∃ n, (c.turn^[n] ([o], [])).1 = []) ↔ ∃ tree : ArgumentTree, tree.HangsOff c o := by
  constructor
  · rintro ⟨n, hn⟩
    exact exists_hangsOff_of_turns hn o List.mem_cons_self
  · rintro ⟨tree, htree⟩
    exact ⟨tree.turns, by rw [turn_iterate htree]⟩

/-- The walk over a call ends exactly if a finite tree of commas hangs off its second operand. For every such tree, of any shape and
with any operands missing, the arguments found are the tree flattened from left to right, and the walk without an allowance finds
the same ones, in one turn for each token and each missing operand. No argument is lost, duplicated or moved: the arguments found
are what stands at the places of the tree, which are all places of arguments, each one once and in order. -/
theorem arguments_flatten_comma_tree (c : Configuration) (call : Token) (htext : call.text = "(") :
    ((∃ n, (c.turn^[n] ([call.operand2], [])).1 = []) ↔ ∃ tree : ArgumentTree, tree.HangsOff c call.operand2) ∧
    ∀ tree : ArgumentTree, tree.HangsOff c call.operand2 →
      c.callArguments call = tree.flatten ∧
      c.turn^[tree.turns] ([call.operand2], []) = ([], (c.callArguments call).reverse) ∧
      (c.callArguments call).map some = tree.places.map (fun place => c.argumentAt place call.operand2) ∧
      tree.places.Pairwise (· < ·) ∧
      ∀ place, place ∈ tree.places ↔ (c.argumentAt place call.operand2).isSome = true := by
  refine ⟨walk_ends_iff, ?_⟩
  intro tree htree
  have hfound : c.callArguments call = tree.flatten := callArguments_of_commaTree htext (commaTree_of_hangsOff htree)
  refine ⟨hfound, ?_, ?_, tree.pairwise_places, mem_places_iff htree⟩
  · rw [turn_iterate htree, hfound, List.append_nil]
  · rw [hfound, map_argumentAt_places htree]

namespace MixedTree

/-- A call with the arguments `a`, `b` and `c` below commas that lean to both sides, two of which lack an operand. -/
def config : Configuration :=
  { tokens := #[{ text := "(", operand1 := some 1, operand2 := some 2 }, { text := "f", isName := true },
      { text := ",", operand1 := some 3, operand2 := some 5 }, { text := ",", operand2 := some 4 },
      { text := "a", isName := true }, { text := ",", operand1 := some 6, operand2 := some 7 },
      { text := "b", isName := true }, { text := ",", operand1 := some 8 }, { text := "c", isName := true }] }

/-- The tree of commas that hangs off the call. -/
def shape : ArgumentTree :=
  .comma 2 (.comma 3 .missing (.argument 4)) (.comma 5 (.argument 6) (.comma 7 (.argument 8) .missing))

theorem hangsOff : shape.HangsOff config (config.token 0).operand2 := by
  simp [shape, config, HangsOff, token]

end MixedTree

/-- The three arguments below a mixed tree of commas are found in their order, in eleven turns. -/
theorem mixed_tree_flattened : (MixedTree.config.token 0).text = "(" ∧
    MixedTree.shape.HangsOff MixedTree.config (MixedTree.config.token 0).operand2 ∧
    MixedTree.config.callArguments (MixedTree.config.token 0) = [4, 6, 8] ∧
    MixedTree.config.turn^[11] ([some 2], []) = ([], [8, 6, 4]) := by
  obtain ⟨hfound, hturns, -⟩ :=
    (arguments_flatten_comma_tree MixedTree.config (MixedTree.config.token 0) rfl).2 _ MixedTree.hangsOff
  refine ⟨rfl, MixedTree.hangsOff, hfound, ?_⟩
  rw [hfound] at hturns
  exact hturns

end Configuration

end FormatAudit
