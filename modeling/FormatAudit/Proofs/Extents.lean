import FormatAudit.Proofs.Stream
import Mathlib

/-!
# Exact extents

The extent of a token is exact on every graph of tokens, with cycles and shared subtrees: its first token is a minimum and its last
token a maximum of what the token covers (`coverage`), in the order of places. A place in the token list comes before any place
outside of it; outside of the list, tokens are ordered by line and column (`OrderKey.triple`). `PlacedAt` tells the place of a token
from the token list itself, and fails for a token outside of the list whose line or column is no number. Such a token is all that
can keep the extent from being found.
-/

namespace FormatAudit

/-! ## The order of places -/

namespace OrderKey

/-- A place as a triple that is compared from left to right. -/
def triple : OrderKey → ℕ ×ₗ ℤ ×ₗ ℤ
  | .listed position => toLex (0, toLex (position, 0))
  | .loose line column => toLex (1, toLex (line, column))

/-- Keys are told by their three numbers. -/
theorem triple_injective : Function.Injective triple := by
  intro a b h
  cases a <;> cases b <;> simp_all [triple]

instance : LinearOrder OrderKey :=
  LinearOrder.lift' triple triple_injective

/-- Keys come before one another as their numbers do. -/
theorem before_iff_lt {a b : OrderKey} : a.before b = true ↔ a < b := by
  change a.before b = true ↔ a.triple < b.triple
  cases a <;> cases b <;> simp [before, triple, Prod.Lex.toLex_lt_toLex]

end OrderKey

/-! ## The place of a token -/

/-- Recording places does not change how many there are. -/
theorem SourceOrder.size_record (start : Nat) (ts : List TokenId) (places : Array (Option Nat)) :
    (record start ts places).size = places.size := by
  induction ts generalizing start places with
  | nil => rfl
  | cons t ts ih => rw [record, ih, Array.size_setIfInBounds]

namespace Configuration

variable {c : Configuration} {root t u : TokenId}

/-- A token of the table stands in the token list. -/
def Listed (c : Configuration) (t : TokenId) : Prop :=
  t < c.tokens.size ∧ t ∈ c.tokenList

/-- Where a token stands in source order: where the token list has it for the last time or, outside of the list, at its line and
column. -/
inductive PlacedAt (c : Configuration) (t : TokenId) : OrderKey → Prop where
  | listed {before after : List TokenId} (htable : t < c.tokens.size) (hlist : c.tokenList = before ++ t :: after)
      (hafter : t ∉ after) : PlacedAt c t (.listed before.length)
  | loose {line column : Int} (hloose : ¬c.Listed t) (hline : (c.token t).line.value = .ok line)
      (hcolumn : (c.token t).column.value = .ok column) : PlacedAt c t (.loose line column)

/-- A token that is not listed has no position. -/
theorem position?_of_not_listed (h : ¬c.Listed t) : c.source.order.position? t = none := by
  unfold source SourceOrder.position? SourceOrder.ofList
  by_cases htable : t < c.tokens.size
  · have hlist : t ∉ c.tokenList := fun hmem => h ⟨htable, hmem⟩
    rw [SourceOrder.record_of_not_mem hlist]
    simp [Array.getD, htable]
  · simp [Array.getD, SourceOrder.size_record, htable]

/-- A token that stands in a list stands there for a last time. -/
theorem exists_last_split {ts : List TokenId} (h : t ∈ ts) : ∃ before after, ts = before ++ t :: after ∧ t ∉ after := by
  obtain ⟨after, before, hsplit, hafter⟩ := List.eq_append_cons_of_mem (List.mem_reverse.2 h)
  refine ⟨before.reverse, after.reverse, ?_, by simpa using hafter⟩
  rw [← List.reverse_inj, hsplit]
  simp

/-- A token that is not listed has the key of its line and column. -/
theorem key_of_not_listed (h : ¬c.Listed t) :
    c.source.key t = (do
      let line ← (c.token t).line.value
      let column ← (c.token t).column.value
      pure (.loose line column)) := by
  rw [Source.key, position?_of_not_listed h, source_config]

/-- The key of a token is where it is placed. -/
theorem key_eq_ok_iff {k : OrderKey} : c.source.key t = .ok k ↔ c.PlacedAt t k := by
  by_cases hlisted : c.Listed t
  · obtain ⟨htable, hmem⟩ := hlisted
    obtain ⟨before, after, hlist, hafter⟩ := exists_last_split hmem
    have hposition := position?_of_split htable hlist hafter
    rw [Source.key, hposition]
    constructor
    · intro h
      obtain rfl := Except.ok.inj h
      exact .listed htable hlist hafter
    · intro h
      cases h with
      | listed _ hlist' hafter' =>
        have hsame := hposition.symm.trans (position?_of_split htable hlist' hafter')
        rw [Option.some.inj hsame]
      | loose hloose _ _ => exact absurd ⟨htable, hmem⟩ hloose
  · rw [key_of_not_listed hlisted]
    simp only [except_bind_eq_ok]
    constructor
    · rintro ⟨line, hline, column, hcolumn, hk⟩
      obtain rfl := Except.ok.inj hk
      exact .loose hlisted hline hcolumn
    · intro h
      cases h with
      | listed htable hlist _ => exact absurd ⟨htable, by simp [hlist]⟩ hlisted
      | loose _ hline hcolumn => exact ⟨_, hline, _, hcolumn, rfl⟩

/-- A token without a place stands outside of the list, and its line or its column cannot be read. -/
theorem unreadable_of_key_eq_error {f : Fault} (h : c.source.key t = .error f) :
    ¬c.Listed t ∧ ((c.token t).line.value = .error f ∨ (c.token t).column.value = .error f) := by
  have hloose : ¬c.Listed t := by
    rintro ⟨htable, hmem⟩
    obtain ⟨before, after, hlist, hafter⟩ := exists_last_split hmem
    rw [key_eq_ok_iff.2 (.listed htable hlist hafter)] at h
    cases h
  refine ⟨hloose, ?_⟩
  rw [key_of_not_listed hloose] at h
  cases hline : (c.token t).line.value with
  | error f' =>
    rw [hline] at h
    exact Or.inl (congrArg Except.error (Except.error.inj h))
  | ok line =>
    cases hcolumn : (c.token t).column.value with
    | error f' =>
      rw [hline, hcolumn] at h
      exact Or.inr (congrArg Except.error (Except.error.inj h))
    | ok column =>
      rw [hline, hcolumn] at h
      cases h

/-! ## What an extent reaches over -/

/-- The tokens that are reachable from a token through operands, and the match of each opening bracket among them that has one. -/
def coverage (c : Configuration) (root : TokenId) : Set TokenId :=
  {u | c.Reachable root u ∨
    ∃ t, c.Reachable root t ∧ (c.token t).text ∈ ["(", "[", "\x7b"] ∧ (c.token t).link = some u}

/-- What a token covers is its coverage. -/
theorem covers_iff_mem_coverage : c.Covers root u ↔ u ∈ c.coverage root := by
  have hbracket : ∀ t, (c.token t).isOpeningBracket = true ↔ (c.token t).text ∈ ["(", "[", "\x7b"] := by
    intro t
    simp [Token.isOpeningBracket, or_assoc]
  constructor
  · rintro ⟨t, hreach, hu⟩
    rcases List.mem_cons.1 hu with rfl | hu
    · exact Or.inl hreach
    · split at hu
      · rename_i hopening
        exact Or.inr ⟨t, hreach, (hbracket t).1 hopening, by simpa using hu⟩
      · cases hu
  · rintro (hreach | ⟨t, hreach, hopening, hlink⟩)
    · exact ⟨u, hreach, List.mem_cons_self⟩
    · refine ⟨t, hreach, List.mem_cons_of_mem _ ?_⟩
      rw [if_pos ((hbracket t).2 hopening), hlink]
      exact List.mem_singleton_self u

/-- The coverage of an operand is part of the coverage. -/
theorem coverage_subset_of_hasOperand (h : c.HasOperand root t) : c.coverage t ⊆ c.coverage root := by
  intro u hu
  rw [← covers_iff_mem_coverage] at hu ⊢
  exact covers_iff.2 (Or.inr ⟨t, h, hu⟩)

/-- Two tokens have places, and the first one does not stand later. -/
def NoLater (c : Configuration) (t u : TokenId) : Prop :=
  ∃ k k', c.PlacedAt t k ∧ c.PlacedAt u k' ∧ k ≤ k'

/-- An extent starts at a minimum and ends at a maximum of what a token covers. -/
structure IsExtent (c : Configuration) (root : TokenId) (e : Extent) : Prop where
  first_mem : e.first ∈ c.coverage root
  last_mem : e.last ∈ c.coverage root
  first_noLater : ∀ u ∈ c.coverage root, c.NoLater e.first u
  noLater_last : ∀ u ∈ c.coverage root, c.NoLater u e.last

/-- Of two tokens with places, one is not later than the other. -/
theorem noLater_of_not_precedes (ht : ∃ k, c.PlacedAt t k) (hu : ∃ k, c.PlacedAt u k) (h : ¬c.source.Precedes u t) :
    c.NoLater t u := by
  obtain ⟨k, hk⟩ := ht
  obtain ⟨k', hk'⟩ := hu
  refine ⟨k, k', hk, hk', not_lt.1 ?_⟩
  intro hlt
  exact h ⟨k', k, key_eq_ok_iff.2 hk', key_eq_ok_iff.2 hk, OrderKey.before_iff_lt.2 hlt⟩

/-- If all that a token covers has a place, the extent is found and is exact. -/
theorem exists_extent_of_placed (h : ∀ u ∈ c.coverage root, ∃ k, c.PlacedAt u k) :
    ∃ e, c.source.extent (some root) = .ok e ∧ c.IsExtent root e := by
  have hkeys : ∀ u, c.source.config.Covers root u → ∃ k, c.source.key u = .ok k := by
    intro u hu
    obtain ⟨k, hk⟩ := h u (covers_iff_mem_coverage.1 hu)
    exact ⟨k, key_eq_ok_iff.2 hk⟩
  obtain ⟨e, he, hfirst, hlast, hextreme⟩ := Source.extent_eq_ok root hkeys
  rw [source_config, covers_iff_mem_coverage] at hfirst hlast
  have hbetween : ∀ u ∈ c.coverage root, ¬c.source.Precedes u e.first ∧ ¬c.source.Precedes e.last u :=
    fun u hu => hextreme u (covers_iff_mem_coverage.2 hu)
  refine ⟨e, he, hfirst, hlast, ?_, ?_⟩
  · intro u hu
    exact noLater_of_not_precedes (h _ hfirst) (h u hu) (hbetween u hu).1
  · intro u hu
    exact noLater_of_not_precedes (h u hu) (h _ hlast) (hbetween u hu).2

/-- Tokens of which one has no place are not listed with their places, for the fault of one of them. -/
theorem keyed_eq_error {s : Source} {ts : List TokenId} (h : ∃ t ∈ ts, ¬∃ k, s.key t = .ok k) :
    ∃ t ∈ ts, ∃ f, s.key t = .error f ∧ s.keyed ts = .error f := by
  induction ts with
  | nil => simp at h
  | cons t ts ih =>
    rw [Source.keyed]
    cases hkey : s.key t with
    | error f => exact ⟨t, List.mem_cons_self, f, hkey, rfl⟩
    | ok k =>
      obtain ⟨u, hu, hunplaced⟩ := h
      have hrest : u ∈ ts := by
        rcases List.mem_cons.1 hu with rfl | hu
        · exact absurd ⟨k, hkey⟩ hunplaced
        · exact hu
      obtain ⟨v, hv, f, hf, hkeyed⟩ := ih ⟨u, hrest, hunplaced⟩
      exact ⟨v, List.mem_cons_of_mem _ hv, f, hf, by rw [hkeyed]; rfl⟩

/-- If something that a token covers has no place, the extent is not found, for the fault of a covered token. -/
theorem extent_eq_error_of_unplaced (h : ¬∀ u ∈ c.coverage root, ∃ k, c.PlacedAt u k) :
    ∃ u ∈ c.coverage root, ∃ f, c.source.key u = .error f ∧ c.source.extent (some root) = .error f := by
  push Not at h
  obtain ⟨u, hu, hunplaced⟩ := h
  have hcovered : u ∈ c.covered root := mem_covered_iff.2 (covers_iff_mem_coverage.2 hu)
  have hkey : ¬∃ k, c.source.key u = .ok k := by
    rintro ⟨k, hk⟩
    exact hunplaced k (key_eq_ok_iff.1 hk)
  obtain ⟨v, hv, f, hf, hkeyed⟩ := keyed_eq_error ⟨u, hcovered, hkey⟩
  refine ⟨v, covers_iff_mem_coverage.1 (mem_covered_iff.1 hv), f, hf, ?_⟩
  rw [Source.extent, source_config, hkeyed]
  rfl

/-- A token has an extent if every token that it covers has a place. -/
theorem exists_extent_iff :
    (∃ e, c.source.extent (some root) = .ok e) ↔ ∀ u ∈ c.coverage root, ∃ k, c.PlacedAt u k := by
  constructor
  · rintro ⟨e, he⟩
    by_contra hunplaced
    obtain ⟨u, -, f, -, hf⟩ := extent_eq_error_of_unplaced hunplaced
    rw [he] at hf
    cases hf
  · intro h
    obtain ⟨e, he, -⟩ := exists_extent_of_placed h
    exact ⟨e, he⟩

/-- An extent that is found is exact. -/
theorem isExtent_of_extent_eq_ok {e : Extent} (h : c.source.extent (some root) = .ok e) : c.IsExtent root e := by
  obtain ⟨e', he', hexact⟩ := exists_extent_of_placed (exists_extent_iff.1 ⟨e, h⟩)
  obtain rfl := Except.ok.inj (h.symm.trans he')
  exact hexact

/-- The extent of an operand lies in the extent of its token. -/
theorem IsExtent.contains {e inner : Extent} (h : c.IsExtent root e) (ho : c.HasOperand root t) (hinner : c.IsExtent t inner) :
    c.NoLater e.first inner.first ∧ c.NoLater inner.last e.last :=
  ⟨h.first_noLater _ (coverage_subset_of_hasOperand ho hinner.first_mem),
    h.noLater_last _ (coverage_subset_of_hasOperand ho hinner.last_mem)⟩

/-- The extent of a token is exact. The search visits every token that is reachable through operands, each one once, so it ends on
every graph. The extent is found exactly if all that the token covers has a place; it then starts at a minimum and ends at a maximum
of what is covered, and the extent of each operand is found as well and lies in it. Otherwise the fault is that of reading the line
or the column of a covered token outside of the list. -/
theorem extent_spans_coverage (c : Configuration) (root : TokenId) :
    (∃ visits : List TokenId, visits.Nodup ∧ (∀ u, u ∈ visits ↔ c.Reachable root u) ∧
      c.covered root = visits.flatMap c.coveredBy) ∧
    ((∃ e, c.source.extent (some root) = .ok e) ↔ ∀ u ∈ c.coverage root, ∃ k, c.PlacedAt u k) ∧
    (∀ e, c.source.extent (some root) = .ok e → c.IsExtent root e ∧
      ∀ o, c.HasOperand root o → ∃ inner, c.source.extent (some o) = .ok inner ∧
        c.NoLater e.first inner.first ∧ c.NoLater inner.last e.last) ∧
    ∀ f, c.source.extent (some root) = .error f → ∃ u ∈ c.coverage root, ¬c.Listed u ∧
      ((c.token u).line.value = .error f ∨ (c.token u).column.value = .error f) := by
  refine ⟨c.covered_eq_flatMap root, exists_extent_iff, ?_, ?_⟩
  · intro e he
    have hplaced := exists_extent_iff.1 ⟨e, he⟩
    have hexact := isExtent_of_extent_eq_ok he
    refine ⟨hexact, ?_⟩
    intro o ho
    obtain ⟨inner, hinner⟩ := exists_extent_iff.2 (fun u hu => hplaced u (coverage_subset_of_hasOperand ho hu))
    exact ⟨inner, hinner, hexact.contains ho (isExtent_of_extent_eq_ok hinner)⟩
  · intro f hf
    have hunplaced : ¬∀ u ∈ c.coverage root, ∃ k, c.PlacedAt u k := by
      intro hplaced
      obtain ⟨e, he⟩ := exists_extent_iff.2 hplaced
      rw [hf] at he
      cases he
    obtain ⟨u, hu, f', hkey, hf'⟩ := extent_eq_error_of_unplaced hunplaced
    obtain rfl := Except.error.inj (hf.symm.trans hf')
    exact ⟨u, hu, unreadable_of_key_eq_error hkey⟩

namespace CyclicCall

/-- The call `f(a)`, in which `a` stands outside of the list and has the call itself as its operand. -/
def config : Configuration :=
  { tokens := #[{ text := "(", operand1 := some 1, operand2 := some 2, link := some 3 }, { text := "f", isName := true },
      { text := "a", isName := true, line := .written "7", operand1 := some 0 }, { text := ")" }]
    tokenList := [1, 0, 3] }

end CyclicCall

/-- The extent of a call on a cycle reaches from the callee to the argument outside of the list, over the extent of the argument. -/
theorem cyclic_call_spanned : CyclicCall.config.source.extent (some 0) = .ok { first := 1, last := 2 } ∧
    CyclicCall.config.IsExtent 0 { first := 1, last := 2 } ∧
    ∃ inner, CyclicCall.config.source.extent (some 2) = .ok inner ∧
      CyclicCall.config.NoLater 1 inner.first ∧ CyclicCall.config.NoLater inner.last 2 := by
  have hextent : CyclicCall.config.source.extent (some 0) = .ok { first := 1, last := 2 } := by cbv
  obtain ⟨-, -, hfound, -⟩ := extent_spans_coverage CyclicCall.config 0
  obtain ⟨hexact, hoperands⟩ := hfound _ hextent
  exact ⟨hextent, hexact, hoperands 2 (Or.inr rfl)⟩

namespace UnreadableLine

/-- The negation `!a`, in which `a` stands outside of the list at a line that is no number. -/
def config : Configuration :=
  { tokens := #[{ text := "!", operand1 := some 1 }, { text := "a", isName := true, line := .written "zz" }]
    tokenList := [0] }

end UnreadableLine

/-- The places of the list come first, so `!` and `a` are a minimum and a maximum whatever the line of `a` is; and yet there is no
extent. -/
theorem unreadable_line_has_no_extent : UnreadableLine.config.Listed 0 ∧ ¬UnreadableLine.config.Listed 1 ∧
    UnreadableLine.config.coverage 0 = {0, 1} ∧
    UnreadableLine.config.source.extent (some 0) = .error (.notANumber "zz" .malformed) := by
  have hcovered : UnreadableLine.config.covered 0 = [0, 1] := by cbv
  refine ⟨⟨by decide, by decide⟩, fun h => absurd h.2 (by decide), ?_, by cbv⟩
  ext u
  rw [← covers_iff_mem_coverage, ← mem_covered_iff, hcovered]
  simp

end Configuration

end FormatAudit
