import FormatAudit.Proofs.Coverage
import FormatAudit.Proofs.Forms
import FormatAudit.Proofs.Ranges

/-!
# Token streams

A configuration whose token list is laid out as a stream: every token stands in it once and knows its neighbours. In a stream the
search for first and last tokens, the runs of tokens and the neighbours can be told from how the list splits. The extent of a
token whose covered tokens are known in the order of the source reaches from the first to the last of them (`extent_eq`), and a
run from the first to the last token of a stretch is that stretch (`range_eq`).
-/

namespace FormatAudit

namespace SourceOrder

/-- Tokens that are not in the list keep what was recorded for them. -/
theorem record_of_not_mem {start : Nat} {ts : List TokenId} {places : Array (Option Nat)} {t : TokenId} (h : t ∉ ts) :
    (record start ts places).getD t none = places.getD t none := by
  induction ts generalizing start places with
  | nil => rfl
  | cons u ts ih =>
    rw [record, ih (fun ht => h (List.mem_cons_of_mem _ ht))]
    have hne : u ≠ t := fun hu => h (hu ▸ List.mem_cons_self)
    simp [Array.getD_eq_getD_getElem?, Array.getElem?_setIfInBounds_ne hne]

/-- A token is recorded at the place where it stands for the last time. -/
theorem record_of_split {start : Nat} {before after : List TokenId} {places : Array (Option Nat)} {t : TokenId}
    (hafter : t ∉ after) (ht : t < places.size) :
    (record start (before ++ t :: after) places).getD t none = some (start + before.length) := by
  induction before generalizing start places with
  | nil =>
    rw [List.nil_append, record, record_of_not_mem hafter]
    simp [Array.getD_eq_getD_getElem?, ht]
  | cons u before ih =>
    rw [List.cons_append, record, ih (by simpa using ht), List.length_cons]
    congr 1
    omega

end SourceOrder

namespace Configuration

variable {c : Configuration} {t u root : TokenId} {before after : List TokenId}

@[simp]
theorem source_config (c : Configuration) : c.source.config = c := rfl

/-- The place of a token is where it stands in the token list for the last time. -/
theorem position?_of_split (ht : t < c.tokens.size) (hlist : c.tokenList = before ++ t :: after) (hafter : t ∉ after) :
    c.source.order.position? t = some before.length := by
  unfold source SourceOrder.position? SourceOrder.ofList
  rw [hlist, SourceOrder.record_of_split hafter (by simpa using ht), Nat.zero_add]

/-! ## Streams -/

/-- The token list of a configuration is a stream: every token stands in it once and in the table, and knows the tokens before and
after it. Lines and columns are numbers, and names can be resolved. -/
structure Stream (c : Configuration) : Prop where
  nodup : c.tokenList.Nodup
  inTable : ∀ t ∈ c.tokenList, t < c.tokens.size
  adjacent : c.tokenList.IsChain (fun t u => (c.token t).next = some u ∧ (c.token u).previous = some t)
  first : ∀ t, c.tokenList.head? = some t → (c.token t).previous = none
  last : ∀ t, c.tokenList.getLast? = some t → (c.token t).next = none
  located : c.Located
  resolvable : ∀ t ∈ c.tokenList, c.Resolvable t

namespace Stream

variable (h : c.Stream)

include h

/-- The previous token of a token is the last one before it in the list. -/
theorem previous_eq (hlist : c.tokenList = before ++ t :: after) : (c.token t).previous = before.getLast? := by
  rcases List.eq_nil_or_concat before with rfl | ⟨init, u, rfl⟩
  · exact h.first t (by rw [hlist]; rfl)
  · have hchain := h.adjacent
    rw [hlist, List.concat_eq_append, List.append_assoc] at hchain
    rw [(List.isChain_append_cons_cons.1 hchain).2.1.2, List.concat_eq_append, List.getLast?_concat]

/-- The next token of a token is the first one after it in the list. -/
theorem next_eq (hlist : c.tokenList = before ++ t :: after) : (c.token t).next = after.head? := by
  cases after with
  | nil => exact h.last t (by rw [hlist, List.getLast?_concat])
  | cons u after =>
    have hchain := h.adjacent
    rw [hlist] at hchain
    exact (List.isChain_append_cons_cons.1 hchain).2.1.1

/-- No token stands at two places. -/
theorem not_mem_of_split (hlist : c.tokenList = before ++ t :: after) : t ∉ before ∧ t ∉ after := by
  have hnodup := h.nodup
  rw [hlist, List.nodup_middle, List.nodup_cons, List.mem_append, not_or] at hnodup
  exact hnodup.1

/-- The key of a token in the list is its place. -/
theorem key_eq (hlist : c.tokenList = before ++ t :: after) : c.source.key t = .ok (.listed before.length) := by
  have ht : t < c.tokens.size := h.inTable t (by simp [hlist])
  rw [Source.key, position?_of_split ht hlist (h.not_mem_of_split hlist).2]

/-- Every token of the list has a key. -/
theorem exists_key (ht : t ∈ c.tokenList) : ∃ k, c.source.key t = .ok k := by
  obtain ⟨before, after, hlist⟩ := List.append_of_mem ht
  exact ⟨_, h.key_eq hlist⟩

/-- The order of a stream is the order of its list. -/
theorem precedes_of_sublist (hsub : [t, u].Sublist c.tokenList) : c.source.Precedes t u := by
  obtain ⟨before, rest, hrest, ht, hu⟩ := List.cons_sublist_iff.1 hsub
  obtain ⟨first, between, rfl⟩ := List.append_of_mem ht
  obtain ⟨more, after, rfl⟩ := List.append_of_mem (List.singleton_sublist.1 hu)
  have htlist : c.tokenList = first ++ t :: (between ++ more ++ u :: after) := by simp [hrest]
  have hulist : c.tokenList = (first ++ t :: between ++ more) ++ u :: after := by simp [hrest]
  refine ⟨_, _, h.key_eq htlist, h.key_eq hulist, ?_⟩
  simp [OrderKey.before]

/-- A token has one place. -/
theorem length_eq {before' after' : List TokenId} (hlist : c.tokenList = before ++ t :: after)
    (hlist' : c.tokenList = before' ++ t :: after') : before.length = before'.length :=
  OrderKey.listed.inj (Except.ok.inj ((h.key_eq hlist).symm.trans (h.key_eq hlist')))

/-- What stands before another token has the lower place. -/
theorem length_lt {before' after' : List TokenId} (hsub : [t, u].Sublist c.tokenList)
    (hlist : c.tokenList = before ++ t :: after) (hlist' : c.tokenList = before' ++ u :: after') :
    before.length < before'.length := by
  obtain ⟨k, k', hk, hk', hbefore⟩ := h.precedes_of_sublist hsub
  obtain rfl := Except.ok.inj ((h.key_eq hlist).symm.trans hk)
  obtain rfl := Except.ok.inj ((h.key_eq hlist').symm.trans hk')
  simpa [OrderKey.before] using hbefore

/-- The extent of a token whose covered tokens are given in the order of the source. -/
theorem extent_eq {stems : List TokenId} {lead trail : TokenId} {rest init : List TokenId}
    (hcovers : ∀ u, c.Covers root u ↔ u ∈ stems) (hsub : stems.Sublist c.tokenList) (hlead : stems = lead :: rest)
    (htrail : stems = init ++ [trail]) : c.source.extent (some root) = .ok { first := lead, last := trail } := by
  obtain ⟨e, he, hfirst, hlast, hextreme⟩ := Source.extent_eq_ok (s := c.source) root
    (fun u hu => h.exists_key (hsub.subset ((hcovers u).1 hu)))
  have hfirst : e.first = lead := by
    have hmem : e.first ∈ stems := (hcovers _).1 hfirst
    rw [hlead] at hmem
    rcases List.mem_cons.1 hmem with heq | hmem
    · exact heq
    · refine absurd (h.precedes_of_sublist ?_) (hextreme lead ((hcovers _).2 (by simp [hlead]))).1
      exact ((List.singleton_sublist.2 hmem).cons_cons lead).trans (hlead ▸ hsub)
  have hlast : e.last = trail := by
    have hmem : e.last ∈ stems := (hcovers _).1 hlast
    rw [htrail] at hmem
    rcases List.mem_append.1 hmem with hmem | heq
    · refine absurd (h.precedes_of_sublist ?_) (hextreme trail ((hcovers _).2 (by simp [htrail]))).2
      exact ((List.singleton_sublist.2 hmem).append_right [trail]).trans (htrail ▸ hsub)
    · exact List.mem_singleton.1 heq
  rw [he, ← hfirst, ← hlast]

/-- A stretch of a stream is no longer than the table. -/
theorem length_le (hsub : before.Sublist c.tokenList) : before.length ≤ c.tokens.size := by
  have hnodup : before.Nodup := h.nodup.sublist hsub
  have hsubset : before ⊆ List.range c.tokens.size := fun t ht => List.mem_range.2 (h.inTable t (hsub.subset ht))
  simpa using (List.Nodup.subperm hnodup hsubset).length_le

/-- The run from the first to the last token of a stretch is the stretch. -/
theorem range_eq {stretch : List TokenId} {stop : TokenId} (hlist : c.tokenList = before ++ t :: stretch ++ after)
    (hstop : (t :: stretch).getLast? = some stop) : c.range (some t) (some stop) = t :: stretch := by
  have hadjacent := h.adjacent
  have hnodup := h.nodup
  rw [hlist] at hadjacent hnodup
  have hchain := hadjacent.left_of_append.right_of_append
  exact (tokenRun_of_isChain (hchain.imp fun _ _ hnext => hnext.1) (List.Nodup.of_append_right hnodup.of_append_left) hstop).range_eq

end Stream

/-- What makes a token list a stream can be checked. -/
theorem stream_of_checks (hnodup : c.tokenList.Nodup) (htable : ∀ t ∈ c.tokenList, t < c.tokens.size)
    (hadjacent : c.tokenList.IsChain (fun t u => (c.token t).next = some u ∧ (c.token u).previous = some t))
    (hends : (∀ t ∈ c.tokenList.head?, (c.token t).previous = none) ∧ ∀ t ∈ c.tokenList.getLast?, (c.token t).next = none)
    (hlocated : ∀ x ∈ c.tokens.toList, x.location.isOk = true)
    (hresolvable : ∀ t ∈ c.tokenList, (c.resolve (c.token t) false).isOk = true) : c.Stream where
  nodup := hnodup
  inTable := htable
  adjacent := hadjacent
  first := hends.1
  last := hends.2
  located := located_of_forall_mem hlocated
  resolvable t ht := by
    have hok := hresolvable t ht
    unfold Resolvable
    cases hsymbol : c.resolve (c.token t) false with
    | ok symbol => exact ⟨symbol, rfl⟩
    | error fault =>
      rw [hsymbol] at hok
      cases hok

/-- A configuration whose tokens stand one after the other, each in a column of its own. -/
def inARow (tokens : List Token) : Configuration :=
  { tokens := (tokens.mapIdx fun i t =>
      { t with
        line := .written "1"
        column := .written (Number.natText (i + 1))
        previous := if i = 0 then none else some (i - 1)
        next := if i + 1 = tokens.length then none else some (i + 1) }).toArray
    tokenList := List.range tokens.length }

end Configuration

end FormatAudit
