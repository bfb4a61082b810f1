import FormatAudit.Proofs.CommaTrees
import FormatAudit.Proofs.Phrase
import FormatAudit.Proofs.Stream

/-!
# Phrases in a stream

How the tokens of a phrase refer to each other (`Fits`, for one node, and `Wired` for all of them), and what follows from it for a
phrase that stands in a stream: the tree covers its stems (`covers_iff_mem_stems`), its extent reaches from the first stem to the
last one, and the arguments of a call are found in their order. `Stands` says where a phrase stands, with the grouping parentheses
right around it set apart.
-/

namespace FormatAudit

namespace Configuration

variable {c : Configuration} {k : PhraseKind}

/-- A token without operands that is no opening bracket. -/
def IsLeaf (c : Configuration) (t : TokenId) : Prop :=
  (c.token t).operand1 = none ∧ (c.token t).operand2 = none ∧ (c.token t).isOpeningBracket = false

/-- A token that is no literal has the given operands. -/
def Heads (c : Configuration) (t : TokenId) (operand1 operand2 : Option TokenId) : Prop :=
  (c.token t).isLiteral = false ∧ (c.token t).operand1 = operand1 ∧ (c.token t).operand2 = operand2

/-- A parenthesis and its match call a phrase. A callee that is written as a word is a name, and no keyword. -/
def Calls (c : Configuration) (callee : Phrase .expression) (opening closing : TokenId) (arguments : Option TokenId) : Prop :=
  c.Heads opening (some callee.root) arguments ∧ (c.token opening).text = "(" ∧ (c.token opening).isCast = false ∧
    (c.token opening).link = some closing ∧ c.isCastKeyword callee.root = false ∧
    ((c.token callee.root).isName = true → callee.named.isSome = true)

/-- The tokens of the root node of a phrase refer to each other as the phrase is written. No argument is a bare comma, and
neither is the operand of a cast by a keyword. -/
def Fits (c : Configuration) {k : PhraseKind} (e : Phrase k) : Prop :=
  match e with
  | .name word => (c.token word).isName = true ∧ (c.token word).isLiteral = false ∧ c.IsLeaf word
  | .literal word => (c.token word).isLiteral = true ∧ c.IsLeaf word
  | .group opening _ closing => (c.token opening).opensGroup = true ∧ (c.token opening).link = some closing
  | .binary left op right => c.Heads op (some left.root) (some right.root) ∧ (c.token op).text ∈ binaryOperators
  | .leading op operand => c.Heads op (some operand.root) none ∧ (c.token op).text ∈ unaryOperators
  | .trailing operand op => c.Heads op (some operand.root) none ∧ (c.token op).text ∈ ["++", "--"]
  | .subscript container opening key closing =>
    c.Heads opening (some container.root) (some key.root) ∧ (c.token opening).text = "[" ∧
      (c.token opening).link = some closing
  | .member object op word =>
    c.Heads op (some object.root) (some word) ∧ (c.token op).text ∈ [".", "::"] ∧ (c.token word).isName = true ∧ c.IsLeaf word
  | .qualified op word =>
    c.Heads op (some word) none ∧ (c.token op).text = "::" ∧ (c.token word).isName = true ∧ c.IsLeaf word
  | .cast opening type closing operand =>
    c.Heads opening (some operand.root) none ∧ (c.token opening).text = "(" ∧ (c.token opening).isCast = true ∧
      (c.token opening).link = some closing ∧ type ≠ [] ∧ (c.token closing).text = ")"
  | .keywordCast keyword _ opening operand closing =>
    c.Heads opening (some keyword) (some operand.root) ∧ (c.token opening).text = "(" ∧ (c.token opening).isCast = false ∧
      (c.token opening).link = some closing ∧ c.isCastKeyword keyword = true ∧ c.IsLeaf keyword ∧
      (c.token operand.root).text ≠ ","
  | .conditional selector mark branch colon other =>
    c.Heads mark (some selector.root) (some colon) ∧ (c.token mark).text = "?" ∧ (c.token colon).text = ":" ∧
      (c.token colon).operand1 = some branch.root ∧ (c.token colon).operand2 = some other.root
  | .bareCall callee opening closing => c.Calls callee opening closing none
  | .call callee opening arguments closing => c.Calls callee opening closing (some arguments.root)
  | .first argument => (c.token argument.root).text ≠ ","
  | .next before comma argument =>
    (c.token comma).operand1 = some before.root ∧ (c.token comma).operand2 = some argument.root ∧
      (c.token comma).text = "," ∧ (c.token argument.root).text ≠ ","

instance (c : Configuration) (t : TokenId) : Decidable (c.IsLeaf t) :=
  inferInstanceAs (Decidable (_ ∧ _))

instance (c : Configuration) (t : TokenId) (operand1 operand2 : Option TokenId) : Decidable (c.Heads t operand1 operand2) :=
  inferInstanceAs (Decidable (_ ∧ _))

instance (c : Configuration) (callee : Phrase .expression) (opening closing : TokenId) (arguments : Option TokenId) :
    Decidable (c.Calls callee opening closing arguments) :=
  inferInstanceAs (Decidable (_ ∧ _))

instance decidableFits (c : Configuration) {k : PhraseKind} (e : Phrase k) : Decidable (c.Fits e) :=
  match e with
  | .name _ | .literal _ | .group _ _ _ | .binary _ _ _ | .leading _ _ | .trailing _ _ | .subscript _ _ _ _ | .member _ _ _
  | .qualified _ _ | .cast _ _ _ _ | .keywordCast _ _ _ _ _ | .conditional _ _ _ _ _ | .next _ _ _ =>
    inferInstanceAs (Decidable (_ ∧ _))
  | .bareCall callee opening closing => inferInstanceAs (Decidable (c.Calls callee opening closing none))
  | .call callee opening arguments closing => inferInstanceAs (Decidable (c.Calls callee opening closing (some arguments.root)))
  | .first argument => inferInstanceAs (Decidable ((c.token argument.root).text ≠ ","))

/-- All tokens of a phrase refer to each other as it is written. -/
def Wired (c : Configuration) (e : Phrase k) : Prop :=
  e.Every (fun _ e => c.Fits e)

/-! ## What a phrase covers -/

/-- A token that opens no bracket covers itself. -/
theorem mem_coveredBy_of_not_bracket {t u : TokenId} (h : (c.token t).isOpeningBracket = false) :
    u ∈ c.coveredBy t ↔ u = t := by
  simp [coveredBy, h]

/-- An opening bracket covers itself and the bracket that closes it. -/
theorem mem_coveredBy_of_bracket {t u closing : TokenId} (h : (c.token t).isOpeningBracket = true)
    (hlink : (c.token t).link = some closing) : u ∈ c.coveredBy t ↔ u = t ∨ u = closing := by
  simp [coveredBy, h, hlink]

/-- A token covers what it stands for itself and what its operands cover. -/
theorem covers_iff_of_operands {t u : TokenId} {a b : Option TokenId} (ha : (c.token t).operand1 = a)
    (hb : (c.token t).operand2 = b) :
    c.Covers t u ↔ u ∈ c.coveredBy t ∨ (∃ o, a = some o ∧ c.Covers o u) ∨ ∃ o, b = some o ∧ c.Covers o u := by
  rw [covers_iff]
  simp only [HasOperand, ha, hb, or_and_right, exists_or]

/-- A leaf covers itself and nothing else. -/
theorem IsLeaf.covers_iff {t u : TokenId} (h : c.IsLeaf t) : c.Covers t u ↔ u = t := by
  rw [covers_iff_of_operands h.1 h.2.1, mem_coveredBy_of_not_bracket h.2.2]
  simp

/-- A token with one of these texts opens no bracket. -/
theorem isOpeningBracket_of_mem {t : TokenId} {texts : List String} (h : (c.token t).text ∈ texts)
    (htexts : ∀ s ∈ texts, (s == "(" || s == "[" || s == "\x7b") = false) : (c.token t).isOpeningBracket = false :=
  htexts _ h

/-- The tree of a phrase covers its stems. -/
theorem covers_iff_mem_stems {e : Phrase k} (h : c.Wired e) (u : TokenId) : c.Covers e.root u ↔ u ∈ e.stems := by
  induction e with
  | name word => simp [Phrase.root, Phrase.stems, h.2.2.covers_iff]
  | literal word => simp [Phrase.root, Phrase.stems, h.2.covers_iff]
  | group opening inner closing ih => exact ih h.2
  | first argument ih => exact ih h.2
  | binary left op right ih ih' =>
    obtain ⟨⟨⟨-, h1, h2⟩, htext⟩, hl, hr⟩ := h
    rw [Phrase.root, covers_iff_of_operands h1 h2, mem_coveredBy_of_not_bracket (isOpeningBracket_of_mem htext (by decide))]
    simp only [Option.some.injEq, exists_eq_left', ih hl, ih' hr, Phrase.stems, List.mem_append, List.mem_cons]
    grind
  | leading op operand ih =>
    obtain ⟨⟨⟨-, h1, h2⟩, htext⟩, ho⟩ := h
    rw [Phrase.root, covers_iff_of_operands h1 h2, mem_coveredBy_of_not_bracket (isOpeningBracket_of_mem htext (by decide))]
    simp [ih ho, Phrase.stems]
  | trailing operand op ih =>
    obtain ⟨⟨⟨-, h1, h2⟩, htext⟩, ho⟩ := h
    rw [Phrase.root, covers_iff_of_operands h1 h2, mem_coveredBy_of_not_bracket (isOpeningBracket_of_mem htext (by decide))]
    simp [ih ho, Phrase.stems, or_comm]
  | subscript container opening key closing ih ih' =>
    obtain ⟨⟨⟨-, h1, h2⟩, htext, hlink⟩, hcontainer, hkey⟩ := h
    rw [Phrase.root, covers_iff_of_operands h1 h2, mem_coveredBy_of_bracket (by simp [Token.isOpeningBracket, htext]) hlink]
    simp only [Option.some.injEq, exists_eq_left', ih hcontainer, ih' hkey, Phrase.stems, List.mem_append, List.mem_cons,
      List.not_mem_nil]
    grind
  | member object op word ih =>
    obtain ⟨⟨⟨-, h1, h2⟩, htext, -, hword⟩, hobject⟩ := h
    rw [Phrase.root, covers_iff_of_operands h1 h2, mem_coveredBy_of_not_bracket (isOpeningBracket_of_mem htext (by decide))]
    simp only [Option.some.injEq, exists_eq_left', ih hobject, hword.covers_iff, Phrase.stems, List.mem_append, List.mem_cons,
      List.not_mem_nil]
    grind
  | qualified op word =>
    obtain ⟨⟨-, h1, h2⟩, htext, -, hword⟩ := h
    rw [Phrase.root, covers_iff_of_operands h1 h2, mem_coveredBy_of_not_bracket (by simp [Token.isOpeningBracket, htext])]
    simp [hword.covers_iff, Phrase.stems]
  | cast opening type closing operand ih =>
    obtain ⟨⟨⟨-, h1, h2⟩, htext, -, hlink, -⟩, ho⟩ := h
    rw [Phrase.root, covers_iff_of_operands h1 h2, mem_coveredBy_of_bracket (by simp [Token.isOpeningBracket, htext]) hlink]
    simp [ih ho, Phrase.stems, or_assoc]
  | keywordCast keyword type opening operand closing ih =>
    obtain ⟨⟨⟨-, h1, h2⟩, htext, -, hlink, -, hkeyword, -⟩, ho⟩ := h
    rw [Phrase.root, covers_iff_of_operands h1 h2, mem_coveredBy_of_bracket (by simp [Token.isOpeningBracket, htext]) hlink]
    simp only [Option.some.injEq, exists_eq_left', ih ho, hkeyword.covers_iff, Phrase.stems, List.mem_append, List.mem_cons,
      List.not_mem_nil]
    grind
  | conditional selector mark branch colon other ih ih' ih'' =>
    obtain ⟨⟨⟨-, h1, h2⟩, htext, hcolon, h1', h2'⟩, hs, hb, ho⟩ := h
    rw [Phrase.root, covers_iff_of_operands h1 h2, mem_coveredBy_of_not_bracket (by simp [Token.isOpeningBracket, htext])]
    simp only [Option.some.injEq, exists_eq_left', covers_iff_of_operands h1' h2',
      mem_coveredBy_of_not_bracket (c := c) (t := colon) (by simp [Token.isOpeningBracket, hcolon]), ih hs, ih' hb, ih'' ho,
      Phrase.stems, List.mem_append, List.mem_cons]
    grind
  | bareCall callee opening closing ih =>
    obtain ⟨⟨⟨-, h1, h2⟩, htext, -, hlink, -⟩, hcallee⟩ := h
    rw [Phrase.root, covers_iff_of_operands h1 h2, mem_coveredBy_of_bracket (by simp [Token.isOpeningBracket, htext]) hlink]
    simp only [Option.some.injEq, exists_eq_left', reduceCtorEq, false_and, exists_false, or_false, ih hcallee, Phrase.stems,
      List.mem_append, List.mem_cons, List.not_mem_nil]
    grind
  | call callee opening arguments closing ih ih' =>
    obtain ⟨⟨⟨-, h1, h2⟩, htext, -, hlink, -⟩, hcallee, harguments⟩ := h
    rw [Phrase.root, covers_iff_of_operands h1 h2, mem_coveredBy_of_bracket (by simp [Token.isOpeningBracket, htext]) hlink]
    simp only [Option.some.injEq, exists_eq_left', ih hcallee, ih' harguments, Phrase.stems, List.mem_append, List.mem_cons,
      List.not_mem_nil]
    grind
  | next before comma argument ih ih' =>
    obtain ⟨⟨h1, h2, htext, -⟩, hbefore, hargument⟩ := h
    rw [Phrase.root, covers_iff_of_operands h1 h2, mem_coveredBy_of_not_bracket (by simp [Token.isOpeningBracket, htext])]
    simp only [Option.some.injEq, exists_eq_left', ih hbefore, ih' hargument, Phrase.stems, List.mem_append, List.mem_cons]
    grind

/-- The extent of a phrase in a stream reaches from its first stem to its last one. -/
theorem Stream.extent_of_wired (hstream : c.Stream) {e : Phrase k} (h : c.Wired e) (hsub : e.tokens.Sublist c.tokenList) :
    c.source.extent (some e.root) = .ok { first := e.lead, last := e.trail } := by
  obtain ⟨rest, hlead⟩ := e.stems_eq_lead_cons
  obtain ⟨init, htrail⟩ := e.stems_eq_append_trail
  exact hstream.extent_eq (covers_iff_mem_stems h) (e.stems_sublist_tokens.trans hsub) hlead htrail

/-! ## Arguments -/

/-- How many commas stand between the arguments of a phrase. -/
def commas {k : PhraseKind} (e : Phrase k) : Nat :=
  match e with
  | .next before _ _ => commas before + 1
  | _ => 0

/-- The commas between the arguments of a phrase are a tree that has the roots of the arguments as its leaves. -/
theorem commaTree_of_wired {e : Phrase k} (hk : k = .arguments) (h : c.Wired e) :
    c.CommaTree (commas e) (some e.root) e.roots := by
  induction e with
  | first argument _ => exact .leaf h.1
  | next before comma argument ih _ =>
    obtain ⟨⟨h1, h2, htext, hargument⟩, hbefore, -⟩ := h
    have hleft : c.CommaTree (commas before) (c.token comma).operand1 before.roots := h1 ▸ ih rfl hbefore
    have hright : c.CommaTree 0 (c.token comma).operand2 [argument.root] := h2 ▸ .leaf hargument
    rw [commas, Phrase.root, Phrase.roots, ← Nat.max_zero (commas before)]
    exact .comma htext hleft hright
  | _ => cases hk

/-- The arguments of a call are found in their order. -/
theorem callArguments_of_wired {call : Token} {arguments : Phrase .arguments} (h : c.Wired arguments)
    (htext : call.text = "(") (hroot : call.operand2 = some arguments.root) : c.callArguments call = arguments.roots := by
  have htree := commaTree_of_wired rfl h
  rw [← hroot] at htree
  exact callArguments_of_commaTree htext htree

/-! ## Parentheses -/

/-- The opening parentheses of pairs that are given from the innermost on, in the order of the source. -/
def opens (around : List (TokenId × TokenId)) : List TokenId :=
  (around.map (·.1)).reverse

/-- The closing parentheses of pairs that are given from the innermost on, in the order of the source. -/
def closes (around : List (TokenId × TokenId)) : List TokenId :=
  around.map (·.2)

/-- The location of a token, empty if it cannot be read. -/
def placeOf (c : Configuration) (t : TokenId) : Location :=
  (c.token t).location.toOption.getD {}

/-- In a located configuration every token has a place. -/
theorem Located.location_eq (h : c.Located) (t : TokenId) : (c.token t).location = .ok (c.placeOf t) := by
  obtain ⟨l, hl⟩ := h t
  rw [placeOf, hl]
  rfl

/-- An expression in parentheses. -/
def inPair (c : Configuration) (x : Expression) (pair : TokenId × TokenId) : Expression :=
  .node { kind := .paren, location := c.placeOf pair.1, stop := some (c.placeOf pair.2) } [x] none

/-- An expression in all the given parentheses, from the innermost on. -/
def wrap (c : Configuration) (around : List (TokenId × TokenId)) (x : Expression) : Expression :=
  around.foldl c.inPair x

/-- A phrase stands in the token list, with the given pairs of grouping parentheses right around it. No parenthesis before them
is matched inside of the phrase, or is one more pair around it. -/
structure Stands (c : Configuration) (before : List TokenId) (around : List (TokenId × TokenId)) (e : Phrase k)
    (after : List TokenId) : Prop where
  list : c.tokenList = before ++ opens around ++ e.tokens ++ closes around ++ after
  grouped : ∀ p ∈ around, (c.token p.1).opensGroup = true ∧ (c.token p.1).link = some p.2
  detached : ∀ t, before.getLast? = some t → (c.token t).opensGroup = true → ∀ u, (c.token t).link = some u →
    u ∉ e.tokens ∧ after.head? ≠ some u

variable {before after : List TokenId} {around : List (TokenId × TokenId)} {e : Phrase k}

/-- The tokens of an expression stand in the token list in their order. -/
theorem Stands.sublist (h : c.Stands before around e after) : e.tokens.Sublist c.tokenList := by
  rw [h.list]
  exact ((List.sublist_append_right _ _).trans (List.sublist_append_left _ _)).trans (List.sublist_append_left _ _)

/-- What stands in parentheses has one more pair around it. -/
theorem Stands.inner {opening closing : TokenId} {inner : Phrase .expression}
    (h : c.Stands before around (.group opening inner closing) after) (hfits : c.Fits (.group opening inner closing)) :
    c.Stands before ((opening, closing) :: around) inner after where
  list := by
    rw [h.list]
    simp [opens, closes, Phrase.tokens]
  grouped := by
    intro p hp
    rcases List.mem_cons.1 hp with rfl | hp
    · exact hfits
    · exact h.grouped p hp
  detached t ht hgroup u hu := by
    obtain ⟨hmem, hhead⟩ := h.detached t ht hgroup u hu
    exact ⟨fun hinner => hmem (by simp [Phrase.tokens, hinner]), hhead⟩

/-- The parenthesis right before a phrase is not matched inside of it. -/
theorem Stands.link_not_mem (hstream : c.Stream) (h : c.Stands before around e after) {t u : TokenId}
    (ht : (before ++ opens around).getLast? = some t) (hgroup : (c.token t).opensGroup = true)
    (hu : (c.token t).link = some u) : u ∉ e.tokens := by
  cases around with
  | nil => exact (h.detached t (by simpa [opens] using ht) hgroup u hu).1
  | cons p around =>
    obtain rfl : p.1 = t := by simpa [opens] using ht
    obtain rfl : p.2 = u := by simpa [hu] using (h.grouped p List.mem_cons_self).2.symm
    intro hmem
    have hsub : (e.tokens ++ closes (p :: around)).Sublist c.tokenList := by
      rw [h.list, List.append_assoc _ e.tokens]
      exact (List.sublist_append_right _ _).trans (List.sublist_append_left _ _)
    exact (List.nodup_append.1 (hstream.nodup.sublist hsub)).2.2 p.2 hmem p.2 (by simp [closes]) rfl

/-- A part at the left end of a phrase stands with nothing around it. -/
theorem Stands.left (hstream : c.Stream) (h : c.Stands before around e after) {k' : PhraseKind} {part : Phrase k'}
    {rest : List TokenId} (htokens : e.tokens = part.tokens ++ rest) (hrest : rest ≠ []) :
    c.Stands (before ++ opens around) [] part (rest ++ closes around ++ after) where
  list := by
    rw [h.list, htokens]
    simp [opens, closes]
  grouped := nofun
  detached t ht hgroup u hu := by
    have hmem := h.link_not_mem hstream ht hgroup hu
    rw [htokens, List.mem_append, not_or] at hmem
    refine ⟨hmem.1, fun hhead => hmem.2 ?_⟩
    cases rest with
    | nil => exact absurd rfl hrest
    | cons v rest =>
      obtain rfl : v = u := by simpa using hhead
      exact List.mem_cons_self

/-- A part of a phrase after a token that opens no group stands with nothing around it. -/
theorem Stands.right (h : c.Stands before around e after) {k' : PhraseKind} {part : Phrase k'} {init rest : List TokenId}
    {t : TokenId} (htokens : e.tokens = init ++ t :: part.tokens ++ rest) (ht : (c.token t).opensGroup = false) :
    c.Stands (before ++ opens around ++ init ++ [t]) [] part (rest ++ closes around ++ after) where
  list := by
    rw [h.list, htokens]
    simp [opens, closes]
  grouped := nofun
  detached u hu hgroup := by
    obtain rfl : t = u := by simpa using hu
    rw [ht] at hgroup
    cases hgroup

/-- Neighbours that are no pair of grouping parentheses change nothing. -/
theorem enclose_of_not_pair {s : Source} {count : Nat} {previous next : Option TokenId} (x : Expression)
    (h : ∀ t u, previous = some t → next = some u → (s.config.token t).opensGroup = true → (s.config.token t).link ≠ some u) :
    s.enclose (m := Logged Fault) count previous next x = pure x := by
  cases count with
  | zero => rfl
  | succ count =>
    cases previous with
    | none => rfl
    | some t =>
      cases next with
      | none => rfl
      | some u =>
        refine if_neg ?_
        simp only [Bool.and_eq_true, beq_iff_eq, not_and]
        exact h t u rfl rfl

/-- Around a stretch with pairs of parentheses right around it, all of them are found. -/
theorem Stream.enclose_eq (hstream : c.Stream) {middle : List TokenId} {count : Nat} (x : Expression)
    (hlist : c.tokenList = before ++ opens around ++ middle ++ closes around ++ after)
    (hgrouped : ∀ p ∈ around, (c.token p.1).opensGroup = true ∧ (c.token p.1).link = some p.2)
    (hstop : ∀ t u, before.getLast? = some t → after.head? = some u → (c.token t).opensGroup = true →
      (c.token t).link ≠ some u) (hcount : around.length < count) :
    c.source.enclose (m := Logged Fault) count (before ++ opens around).getLast? (closes around ++ after).head? x =
      pure (c.wrap around x) := by
  induction around generalizing middle count x with
  | nil => exact enclose_of_not_pair x (by simpa [opens, closes] using hstop)
  | cons p around ih =>
    obtain ⟨count, rfl⟩ := Nat.exists_eq_succ_of_ne_zero (Nat.ne_of_gt (Nat.lt_of_le_of_lt (Nat.zero_le _) hcount))
    obtain ⟨hgroup, hlink⟩ := hgrouped p List.mem_cons_self
    have hopening : c.tokenList = (before ++ opens around) ++ p.1 :: (middle ++ p.2 :: closes around ++ after) := by
      simp [hlist, opens, closes]
    have hclosing : c.tokenList = (before ++ opens around ++ p.1 :: middle) ++ p.2 :: (closes around ++ after) := by
      simp [hlist, opens, closes]
    have hmiddle : c.tokenList = before ++ opens around ++ (p.1 :: middle ++ [p.2]) ++ closes around ++ after := by
      simp [hlist, opens, closes]
    have hlast : (before ++ opens (p :: around)).getLast? = some p.1 := by simp [opens]
    have hhead : (closes (p :: around) ++ after).head? = some p.2 := rfl
    rw [hlast, hhead, Source.enclose, if_pos (by simp [hgroup, hlink])]
    simp only [source_config, hstream.located.location_eq, Logged.liftM_ok_bind, make_eq, pure_bind, hstream.previous_eq hopening,
      hstream.next_eq hclosing]
    exact ih (c.inPair x p) hmiddle (fun q hq => hgrouped q (List.mem_cons_of_mem _ hq)) (by simpa using hcount)

/-- A phrase that is no group and whose first or last token is no stem has no pair of grouping parentheses as the neighbours of
its stems. -/
theorem Stands.not_pair (hstream : c.Stream) {e : Phrase .expression} (h : c.Stands before around e after) (hwired : c.Wired e)
    (hcore : e.isGroup = false) (hbare : e.isBare = false) {t u : TokenId} (ht : (c.token e.lead).previous = some t)
    (hu : (c.token e.trail).next = some u) (hgroup : (c.token t).opensGroup = true) : (c.token t).link ≠ some u := by
  intro hlink
  obtain ⟨init, hinit⟩ := e.stems_eq_append_trail
  have htrail : e.trail ∈ e.tokens := e.stems_sublist_tokens.subset e.trail_mem_stems
  obtain ⟨init', rest', hsplit⟩ := List.append_of_mem htrail
  have htrailList : c.tokenList = (before ++ opens around ++ init') ++ e.trail :: (rest' ++ closes around ++ after) := by
    simp [h.list, hsplit]
  have hnext := (hstream.next_eq htrailList).symm.trans hu
  rcases Phrase.left_edge rfl hwired with hstart | ⟨first, opening, inner, within, closing, rest, htokens, hfits, hroot⟩
  · -- the last token is no stem, so the token after the last stem belongs to the phrase
    obtain ⟨tail, htail⟩ := hstart
    have hleadList : c.tokenList = (before ++ opens around) ++ e.lead :: (tail ++ closes around ++ after) := by
      simp [h.list, htail]
    refine h.link_not_mem hstream ((hstream.previous_eq hleadList).symm.trans ht) hgroup hlink ?_
    cases rest' with
    | nil =>
      have := Phrase.isBare_iff.2 ⟨⟨tail, htail⟩, ⟨init', hsplit⟩⟩
      rw [hbare] at this
      cases this
    | cons v rest' =>
      obtain rfl : v = u := by simpa using hnext
      simp [hsplit]
  · -- the group that opens before the first stem closes before the root, and so not right after the last stem
    have hleadList : c.tokenList = (before ++ opens around ++ first ++ [opening]) ++
        e.lead :: (within ++ closing :: rest ++ closes around ++ after) := by
      simp [h.list, htokens]
    obtain rfl : opening = t := by simpa [hstream.previous_eq hleadList] using ht
    obtain rfl : closing = u := by simpa [hfits.2] using hlink
    have hclosingList : c.tokenList = (before ++ opens around ++ first ++ opening :: e.lead :: within) ++
        closing :: (rest ++ closes around ++ after) := by
      simp [h.list, htokens]
    have hclosingNext : c.tokenList = (before ++ opens around ++ init' ++ [e.trail]) ++
        closing :: (rest' ++ closes around ++ after).tail := by
      rw [htrailList, List.append_assoc _ [e.trail], List.singleton_append, List.cons_head?_tail hnext]
    obtain ⟨upto, onwards, hrest⟩ := List.append_of_mem (hroot hcore)
    have hrootList : c.tokenList = (before ++ opens around ++ first ++ opening :: e.lead :: within ++ closing :: upto) ++
        e.root :: (onwards ++ closes around ++ after) := by
      simp [h.list, htokens, hrest]
    have hafter := hstream.length_eq hclosingList hclosingNext
    have hmem := e.root_mem_stems
    rw [hinit] at hmem
    rcases List.mem_append.1 hmem with hmem | hmem
    · have hsub : [e.root, e.trail].Sublist c.tokenList :=
        ((List.singleton_sublist.2 hmem).append_right [e.trail]).trans
          (hinit ▸ e.stems_sublist_tokens.trans h.sublist)
      have hlt := hstream.length_lt hsub hrootList htrailList
      simp only [List.length_append, List.length_cons, List.length_nil] at hafter hlt
      omega
    · rw [List.mem_singleton.1 hmem] at hrootList
      have heq := hstream.length_eq hrootList htrailList
      simp only [List.length_append, List.length_cons, List.length_nil] at hafter heq
      omega

/-- The search for parentheses around a phrase that is no group finds all pairs right around it or, if the phrase does not start
and end with a stem, none. -/
theorem Stream.inParens_eq (hstream : c.Stream) {e : Phrase .expression} (h : c.Stands before around e after)
    (hwired : c.Wired e) (hcore : e.isGroup = false) (x : Expression) :
    c.source.inParens (m := Logged Fault) { first := e.lead, last := e.trail } x =
      pure (if e.isBare then c.wrap around x else x) := by
  unfold Source.inParens
  split
  · rename_i hbare
    obtain ⟨⟨tail, hlead⟩, ⟨init, htrail⟩⟩ := Phrase.isBare_iff.1 hbare
    have hleadList : c.tokenList = (before ++ opens around) ++ e.lead :: (tail ++ closes around ++ after) := by
      simp [h.list, hlead]
    have htrailList : c.tokenList = (before ++ opens around ++ init) ++ e.trail :: (closes around ++ after) := by
      simp [h.list, htrail]
    have hsub : (opens around).Sublist c.tokenList := by
      rw [h.list]
      simp only [List.append_assoc]
      exact (List.sublist_append_left _ _).trans (List.sublist_append_right _ _)
    have hcount : around.length < c.tokens.size + 1 := by
      simpa [opens, Nat.lt_succ_iff] using hstream.length_le hsub
    simp only [source_config, hstream.previous_eq hleadList, hstream.next_eq htrailList]
    exact hstream.enclose_eq x h.list h.grouped (fun t u ht hu hgroup hlink => (h.detached t ht hgroup u hlink).2 hu) hcount
  · rename_i hbare
    exact enclose_of_not_pair x fun t u ht hu hgroup => h.not_pair hstream hwired hcore (by simpa using hbare) ht hu hgroup

end Configuration

end FormatAudit
