import FormatAudit.Token.Arguments
import Mathlib.Data.Fintype.Card

/-!
# Trees of commas

What hangs off a call is a tree of commas, of any shape and with operands missing, whose leaves are the arguments. `CommaTree`
tells the height of such a tree and its leaves from left to right. The walk with a stack of pending tokens finds these leaves
(`collectArguments_of_commaTree`), if the allowance of its root is not below the height of the tree. That is always so: on the way
down to a deepest leaf every comma has another height, so no comma comes twice (`CommaTree.height_le_size`).
-/

namespace FormatAudit.Configuration

/-- Below a token that may be missing there is a tree of commas, of some height, with the given leaves. -/
inductive CommaTree (c : Configuration) : Nat → Option TokenId → List TokenId → Prop where
  | missing : CommaTree c 0 none []
  | leaf {t : TokenId} (htext : (c.token t).text ≠ ",") : CommaTree c 0 (some t) [t]
  | comma {t : TokenId} {n n' : Nat} {ts ts' : List TokenId} (htext : (c.token t).text = ",")
      (left : CommaTree c n (c.token t).operand1 ts) (right : CommaTree c n' (c.token t).operand2 ts') :
      CommaTree c (max n n' + 1) (some t) (ts ++ ts')

variable {c : Configuration} {n m : Nat} {t : Option TokenId} {ts ts' : List TokenId}

/-- The leaves below a pending token are found in their order, and then what is below the others. -/
theorem collectArguments_of_commaTree (h : c.CommaTree n t ts) {allowance : Nat} (hallowance : n ≤ allowance)
    (rest : List (Nat × Option TokenId)) (found : List TokenId) :
    c.collectArguments ((allowance, t) :: rest) found = c.collectArguments rest (ts.reverse ++ found) := by
  induction h generalizing allowance rest found with
  | missing =>
    rw [collectArguments]
    rfl
  | leaf htext =>
    have hother := beq_eq_false_iff_ne.2 htext
    cases allowance with
    | zero =>
      rw [collectArguments, hother]
      rfl
    | succ allowance =>
      rw [collectArguments, hother]
      rfl
  | comma htext _ _ ihleft ihright =>
    obtain ⟨allowance, rfl⟩ := Nat.exists_eq_add_of_le' (Nat.le_trans (Nat.le_add_left 1 _) hallowance)
    rw [collectArguments, htext, if_pos (by rfl), ihleft (by omega), ihright (by omega)]
    simp

/-- A token has one tree of commas at most. -/
theorem CommaTree.unique (h : c.CommaTree n t ts) (h' : c.CommaTree m t ts') : n = m ∧ ts = ts' := by
  induction h generalizing m ts' with
  | missing =>
    cases h'
    exact ⟨rfl, rfl⟩
  | leaf htext =>
    cases h' with
    | leaf _ => exact ⟨rfl, rfl⟩
    | comma hcomma _ _ => exact absurd hcomma htext
  | comma htext _ _ ihleft ihright =>
    cases h' with
    | leaf hother => exact absurd htext hother
    | comma _ left right =>
      obtain ⟨rfl, rfl⟩ := ihleft left
      obtain ⟨rfl, rfl⟩ := ihright right
      exact ⟨rfl, rfl⟩

/-- No leaf of a tree of commas is a comma. -/
theorem CommaTree.text_ne (h : c.CommaTree n t ts) : ∀ u ∈ ts, (c.token u).text ≠ "," := by
  induction h with
  | missing => simp
  | leaf htext => simpa using htext
  | comma _ _ _ ihleft ihright =>
    intro u hu
    rcases List.mem_append.1 hu with hu | hu
    · exact ihleft u hu
    · exact ihright u hu

/-- In a tree of commas there are trees of all smaller heights, and their roots stand in the table. -/
theorem CommaTree.exists_of_le (h : c.CommaTree n t ts) (hpos : 1 ≤ m) (hle : m ≤ n) :
    ∃ u < c.tokens.size, ∃ us, c.CommaTree m (some u) us := by
  induction h with
  | missing => omega
  | leaf => omega
  | @comma t n n' ts ts' htext left right ihleft ihright =>
    rcases Nat.lt_or_eq_of_le hle with hlt | rfl
    · rcases Nat.le_total n n' with hmax | hmax
      · exact ihright (by omega)
      · exact ihleft (by omega)
    · refine ⟨t, ?_, _, .comma htext left right⟩
      by_contra hsize
      rw [token_of_size_le (Nat.not_lt.1 hsize)] at htext
      exact absurd htext (by decide)

/-- A comma tree is never higher than there are tokens. -/
theorem CommaTree.height_le_size (h : c.CommaTree n t ts) : n ≤ c.tokens.size := by
  choose root hsize leaves htree using fun i : Fin n => h.exists_of_le (Nat.le_add_left 1 i.1) i.2
  -- trees of different heights have different roots
  have hinjective : Function.Injective fun i => (⟨root i, hsize i⟩ : Fin c.tokens.size) := by
    intro i j hij
    have hroot : root i = root j := congrArg Fin.val hij
    have hheight := ((hroot ▸ htree i).unique (htree j)).1
    exact Fin.ext (Nat.succ.inj hheight)
  simpa using Fintype.card_le_of_injective _ hinjective

/-- The arguments of a call are the leaves of the tree of commas that hangs off it. -/
theorem callArguments_of_commaTree {call : Token} (htext : call.text = "(") (h : c.CommaTree n call.operand2 ts) :
    c.callArguments call = ts := by
  rw [callArguments, if_pos (by rw [htext]; rfl), collectArguments_of_commaTree h h.height_le_size, collectArguments]
  simp

end FormatAudit.Configuration
