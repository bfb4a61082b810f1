import FormatAudit.Token.Range
import Mathlib.Data.List.Chain
import Mathlib.Data.List.Nodup
import Mathlib.Data.List.Perm.Subperm
import Mathlib.Logic.Function.Iterate

/-!
# Runs of tokens without a bound

A run of tokens is walked with a bound, the size of the table. `follow` is one turn of the same walk without any bound, and
`TokenRun` says what it meets on the way to its end. The walk ends exactly if the bounded one meets no token twice, and then the
bound cuts nothing off (`follow_ends_iff`): tokens outside of the table have no successor, so a walk that goes on for longer than
the table comes back to a token.
-/

namespace FormatAudit.Configuration

/-- What a walk from a token along the references to the next token meets, up to a last token or else to the end of the chain. -/
inductive TokenRun (c : Configuration) (stop : Option TokenId) : Option TokenId → List TokenId → Prop
  | ended : TokenRun c stop none []
  | stopped {t : TokenId} : stop = some t → TokenRun c stop (some t) [t]
  | next {t : TokenId} {tokens : List TokenId} : stop ≠ some t → TokenRun c stop (c.token t).next tokens →
      TokenRun c stop (some t) (t :: tokens)

variable {c : Configuration} {stop o : Option TokenId} {t u : TokenId} {tokens tokens' : List TokenId}

/-! ## The run of a token -/

/-- There is one run from a token. -/
theorem TokenRun.unique (h : c.TokenRun stop o tokens) (h' : c.TokenRun stop o tokens') : tokens = tokens' := by
  induction h generalizing tokens' with
  | ended =>
    cases h'
    rfl
  | stopped hstop =>
    cases h' with
    | stopped _ => rfl
    | next hgoes _ => exact absurd hstop hgoes
  | next hgoes _ ih =>
    cases h' with
    | stopped hstop => exact absurd hstop hgoes
    | next _ hrest => rw [ih hrest]

/-- From each token of a run its rest is a run. -/
theorem TokenRun.exists_of_mem (h : c.TokenRun stop o tokens) (ht : t ∈ tokens) :
    ∃ rest, rest <:+ tokens ∧ c.TokenRun stop (some t) rest := by
  induction h with
  | ended => cases ht
  | stopped hstop =>
    obtain rfl := List.mem_singleton.1 ht
    exact ⟨[t], List.suffix_rfl, .stopped hstop⟩
  | next hgoes hrest ih =>
    rcases List.mem_cons.1 ht with rfl | ht
    · exact ⟨_, List.suffix_rfl, .next hgoes hrest⟩
    · obtain ⟨rest, hsuffix, hrun⟩ := ih ht
      exact ⟨rest, hsuffix.trans (List.suffix_cons _ _), hrun⟩

/-- A run that ends meets no token twice: from both places it would go on in the same way. -/
theorem TokenRun.nodup (h : c.TokenRun stop o tokens) : tokens.Nodup := by
  induction h with
  | ended => exact List.nodup_nil
  | stopped _ => exact List.nodup_singleton _
  | @next t tokens hgoes hrest ih =>
    refine List.nodup_cons.2 ⟨fun ht => ?_, ih⟩
    -- the run from the second place is the whole run again, and yet part of what comes after its first token
    obtain ⟨rest, hsuffix, hrun⟩ := hrest.exists_of_mem ht
    have hlength := hsuffix.length_le
    rw [hrun.unique (.next hgoes hrest), List.length_cons] at hlength
    omega

/-- The run up to a token is the start of the run to the end of the chain. -/
theorem TokenRun.exists_stopped (h : c.TokenRun none o tokens) (stop : Option TokenId) : ∃ tokens', c.TokenRun stop o tokens' := by
  induction h with
  | ended => exact ⟨_, .ended⟩
  | stopped hstop => cases hstop
  | @next t tokens _ _ ih =>
    obtain ⟨rest, hrest⟩ := ih
    by_cases hstop : stop = some t
    · exact ⟨_, .stopped hstop⟩
    · exact ⟨_, .next hstop hrest⟩

/-! ## The walk with a bound -/

/-- A token that is followed by another one stands in the table. -/
theorem lt_size_of_next (h : (c.token t).next = some u) : t < c.tokens.size := by
  by_contra hsize
  rw [token_of_size_le (Nat.not_lt.1 hsize)] at h
  cases h

/-- The bounded walk meets the first tokens of the run. -/
theorem TokenRun.chain_eq_take (h : c.TokenRun stop o tokens) (count : Nat) : c.chain stop count o = tokens.take count := by
  induction h generalizing count with
  | ended => cases count <;> rfl
  | stopped hstop =>
    cases count with
    | zero => rfl
    | succ count => simp [chain, hstop]
  | next hgoes _ ih =>
    cases count with
    | zero => rfl
    | succ count => rw [chain, if_neg hgoes, ih, List.take_succ_cons]

/-- The bounded walk comes to the end of the run, or the bound is used up by tokens of the table. -/
theorem tokenRun_chain_or (c : Configuration) (stop : Option TokenId) (count : Nat) (o : Option TokenId) :
    c.TokenRun stop o (c.chain stop count o) ∨
      (c.chain stop count o).length = count ∧ ∀ t ∈ c.chain stop count o, t < c.tokens.size := by
  induction count generalizing o with
  | zero => exact Or.inr ⟨rfl, by simp [chain]⟩
  | succ count ih =>
    cases o with
    | none => exact Or.inl .ended
    | some t =>
      rw [chain]
      split
      · rename_i hstop
        exact Or.inl (.stopped hstop)
      · rename_i hgoes
        cases hnext : (c.token t).next with
        | none =>
          refine Or.inl (.next hgoes ?_)
          rw [hnext]
          cases count <;> exact .ended
        | some u =>
          rcases ih (some u) with hrun | ⟨hlength, hsize⟩
          · exact Or.inl (.next hgoes (by rwa [hnext]))
          · refine Or.inr ⟨congrArg (· + 1) hlength, List.forall_mem_cons.2 ⟨lt_size_of_next hnext, hsize⟩⟩

/-- If the bounded walk meets no token twice, it is the whole run. -/
theorem tokenRun_range_of_nodup (h : (c.range o stop).Nodup) : c.TokenRun stop o (c.range o stop) := by
  rcases tokenRun_chain_or c stop (c.tokens.size + 1) o with hrun | ⟨hlength, hsize⟩
  · exact hrun
  · -- more distinct tokens of the table than it has
    have hsubset : c.range o stop ⊆ List.range c.tokens.size := fun t ht => List.mem_range.2 (hsize t ht)
    have hle := (List.Nodup.subperm h hsubset).length_le
    rw [List.length_range, range, hlength] at hle
    omega

/-- The bound cuts nothing off a run that ends. -/
theorem TokenRun.range_eq (h : c.TokenRun stop o tokens) : c.range o stop = tokens := by
  have hnodup : (c.range o stop).Nodup := by
    rw [range, h.chain_eq_take]
    exact h.nodup.sublist (List.take_sublist _ _)
  exact (tokenRun_range_of_nodup hnodup).unique h

/-- The run from a token is what the bounded walk meets, if that meets no token twice. -/
theorem tokenRun_iff : c.TokenRun stop o tokens ↔ (c.range o stop).Nodup ∧ c.range o stop = tokens := by
  constructor
  · intro h
    refine ⟨?_, h.range_eq⟩
    rw [h.range_eq]
    exact h.nodup
  · rintro ⟨hnodup, rfl⟩
    exact tokenRun_range_of_nodup hnodup

/-- Distinct tokens, each of which is followed by the next one, are the run from the first to the last of them. -/
theorem tokenRun_of_isChain {stop : TokenId} (hchain : (t :: tokens).IsChain (fun t u => (c.token t).next = some u))
    (hnodup : (t :: tokens).Nodup) (hstop : (t :: tokens).getLast? = some stop) :
    c.TokenRun (some stop) (some t) (t :: tokens) := by
  induction tokens generalizing t with
  | nil =>
    obtain rfl : t = stop := by simpa using hstop
    exact .stopped rfl
  | cons u tokens ih =>
    obtain ⟨hnext, hrest⟩ := List.isChain_cons_cons.1 hchain
    obtain ⟨hnot, hnodup⟩ := List.nodup_cons.1 hnodup
    have hlast : (u :: tokens).getLast? = some stop := by simpa using hstop
    refine .next ?_ (hnext ▸ ih hrest hnodup hlast)
    rintro ⟨⟩
    exact hnot (List.mem_of_getLast? hlast)

/-! ## The walk without a bound -/

/-- One turn of the walk: notes the token that it has come to, and goes on to the next one. The second part holds the tokens met,
the last one first. -/
def follow (c : Configuration) (stop : Option TokenId) : Option TokenId × List TokenId → Option TokenId × List TokenId
  | (none, met) => (none, met)
  | (some t, met) => (if stop = some t then none else (c.token t).next, t :: met)

/-- The walk ends at its last token. -/
theorem follow_of_stop (h : stop = some t) (met : List TokenId) : c.follow stop (some t, met) = (none, t :: met) := by
  rw [follow, if_pos h]

/-- At any other token it goes on to the next one. -/
theorem follow_of_ne_stop (h : stop ≠ some t) (met : List TokenId) :
    c.follow stop (some t, met) = ((c.token t).next, t :: met) := by
  rw [follow, if_neg h]

/-- After one turn for each token of a run, the walk is at its end and has met them. -/
theorem TokenRun.follow_iterate (h : c.TokenRun stop o tokens) (met : List TokenId) :
    (c.follow stop)^[tokens.length] (o, met) = (none, tokens.reverse ++ met) := by
  induction h generalizing met with
  | ended => rfl
  | stopped hstop => exact follow_of_stop hstop met
  | next hgoes _ ih =>
    rw [List.length_cons, Function.iterate_succ_apply, follow_of_ne_stop hgoes, ih, List.reverse_cons, List.append_assoc]
    rfl

/-- A walk that comes to its end has made a run. -/
theorem exists_tokenRun_of_follow {turns : Nat} {met : List TokenId} (h : ((c.follow stop)^[turns] (o, met)).1 = none) :
    ∃ tokens, c.TokenRun stop o tokens := by
  induction turns generalizing o met with
  | zero =>
    obtain rfl : o = none := h
    exact ⟨[], .ended⟩
  | succ turns ih =>
    rw [Function.iterate_succ_apply] at h
    cases o with
    | none => exact ⟨[], .ended⟩
    | some t =>
      by_cases hstop : stop = some t
      · exact ⟨[t], .stopped hstop⟩
      · rw [follow_of_ne_stop hstop] at h
        obtain ⟨tokens, hrun⟩ := ih h
        exact ⟨t :: tokens, .next hstop hrun⟩

/-- The walk without a bound ends exactly if the bounded one meets no token twice. It meets the same tokens then, with one turn for
each of them. -/
theorem follow_ends_iff (c : Configuration) (start stop : Option TokenId) :
    ((∃ turns, ((c.follow stop)^[turns] (start, [])).1 = none) ↔ (c.range start stop).Nodup) ∧
    ((c.range start stop).Nodup →
      (c.follow stop)^[(c.range start stop).length] (start, []) = (none, (c.range start stop).reverse)) := by
  refine ⟨⟨?_, fun hnodup => ?_⟩, fun hnodup => ?_⟩
  · rintro ⟨turns, hend⟩
    obtain ⟨tokens, hrun⟩ := exists_tokenRun_of_follow hend
    exact (tokenRun_iff.1 hrun).1
  · exact ⟨_, by rw [(tokenRun_range_of_nodup hnodup).follow_iterate]⟩
  · rw [(tokenRun_range_of_nodup hnodup).follow_iterate, List.append_nil]

/-- Of two tokens that follow each other in a circle the run to a third one never ends. -/
example : ¬(({ tokens := #[{ next := some 1 }, { next := some 0 }] } : Configuration).range (some 0) none).Nodup := by
  decide

end FormatAudit.Configuration
