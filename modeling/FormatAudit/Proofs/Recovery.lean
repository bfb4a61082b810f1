import FormatAudit.Proofs.Gaps
import FormatAudit.Proofs.Layout

/-!
# What a phrase becomes

The expression of a phrase, given by recursion on the phrase (`image`). A reading says which parentheses are kept and between
which tokens a node stands. Two readings matter: in `written` all parentheses are kept and a node reaches from its first token to
its last one; in `found` a node reaches from its first stem to its last one, and parentheses are kept only around what starts and
ends with a stem. What the analysis makes of a phrase that is laid out in a stream is its image in the second reading
(`expression_of_phrase`).
-/

namespace FormatAudit

/-- How phrases are read: which of them keep the grouping parentheses right around them, and between which tokens they stand. -/
structure Reading where
  keeps : Phrase .expression → Bool
  first : Phrase .expression → TokenId
  last : Phrase .expression → TokenId

/-- Phrases as they are written. -/
def Reading.written : Reading :=
  { keeps := fun _ => true, first := Phrase.start, last := Phrase.stop }

/-- Phrases as they are found from their stems. -/
def Reading.found : Reading :=
  { keeps := Phrase.isBare, first := Phrase.lead, last := Phrase.trail }

/-- What a phrase becomes: an expression, or the expressions of arguments. -/
abbrev Image : PhraseKind → Type
  | .expression => Expression
  | .arguments => List Expression

namespace Configuration

variable {c : Configuration} {k : PhraseKind}

/-- The symbol of a name token, none if it cannot be read. -/
def meaning (c : Configuration) (t : Token) (called : Bool) : Option Symbol :=
  (c.resolve t called).toOption.getD none

/-- The texts of some tokens with single spaces between them. -/
def words (c : Configuration) (ts : List TokenId) : String :=
  " ".intercalate (ts.map (fun t => (c.token t).text))

/-- The node of a phrase, in the parentheses right around it if they are kept. -/
def nodeOf (c : Configuration) (r : Reading) (e : Phrase .expression) (around : List (TokenId × TokenId)) (n : Node)
    (operands : List Expression) (callee : Option Expression) : Expression :=
  let x := .node { n with location := c.placeOf (r.first e), stop := some (c.placeOf (r.last e)) } operands callee
  if r.keeps e then c.wrap around x else x

/-- The callee of a call, given its image. A name is a function of some library if it is nothing else, and so is a member. -/
def calleeImage (c : Configuration) (callee : Phrase .expression) (x : Expression) : Expression :=
  match callee.named with
  | some word =>
    c.wrap callee.pairs (.ident (c.token word).text (c.meaning (c.token word) true) (c.placeOf word))
  | none =>
    if x.kind = .member && x.symbol.isNone then
      x.mapInfo (fun n => { n with symbol := c.meaning (c.look (c.token callee.root).operand2) true })
    else x

/-- The expression of a phrase with some grouping parentheses right around it. -/
def image (c : Configuration) (r : Reading) {k : PhraseKind} (e : Phrase k) (around : List (TokenId × TokenId)) : Image k :=
  match e with
  | .name word =>
    c.nodeOf r (.name word) around
      { kind := .ident, text := (c.token word).text, symbol := c.meaning (c.token word) false } [] none
  | .literal word => c.nodeOf r (.literal word) around { kind := .literal, text := (c.token word).text } [] none
  | .group opening inner closing => c.image r inner ((opening, closing) :: around)
  | .binary left op right =>
    c.nodeOf r (.binary left op right) around { kind := .binary, op := (c.token op).text }
      [c.image r left [], c.image r right []] none
  | .leading op operand =>
    c.nodeOf r (.leading op operand) around
      (if (c.token op).text = "*" then { kind := .deref } else { kind := .unary, op := (c.token op).text })
      [c.image r operand []] none
  | .trailing operand op =>
    c.nodeOf r (.trailing operand op) around { kind := .unary, op := (c.token op).text, trailing := true }
      [c.image r operand []] none
  | .subscript container opening key closing =>
    c.nodeOf r (.subscript container opening key closing) around { kind := .index }
      [c.image r container [], c.image r key []] none
  | .member object op word =>
    c.nodeOf r (.member object op word) around
      { kind := .member, op := if (c.token op).spelling = "" then (c.token op).text else (c.token op).spelling,
        text := (c.token word).text, symbol := c.meaning (c.token word) false } [c.image r object []] none
  | .qualified op word =>
    c.nodeOf r (.qualified op word) around
      { kind := .member, op := if (c.token op).spelling = "" then (c.token op).text else (c.token op).spelling,
        text := (c.token word).text, symbol := c.meaning (c.token word) false } [] none
  | .cast opening type closing operand =>
    c.nodeOf r (.cast opening type closing operand) around { kind := .call, cast := true } [c.image r operand []]
      (some (.ident (c.words type) (some (Symbol.ofType (c.words type))) (c.placeOf (type.headD closing))))
  | .keywordCast keyword type opening operand closing =>
    let spelled := tightBrackets (c.words (keyword :: type))
    if checkedCastKeywords.contains (c.token keyword).text then
      c.nodeOf r (.keywordCast keyword type opening operand closing) around { kind := .typeAssert, op := spelled }
        [c.image r operand []] none
    else
      c.nodeOf r (.keywordCast keyword type opening operand closing) around { kind := .call } [c.image r operand []]
        (some (.ident spelled (some (Symbol.ofType spelled)) (c.placeOf keyword)))
  | .conditional selector mark branch colon other =>
    c.nodeOf r (.conditional selector mark branch colon other) around { kind := .conditional }
      [c.image r selector [], c.image r branch [], c.image r other []] none
  | .bareCall callee opening closing =>
    c.nodeOf r (.bareCall callee opening closing) around { kind := .call } [] (some (c.calleeImage callee (c.image r callee [])))
  | .call callee opening arguments closing =>
    c.nodeOf r (.call callee opening arguments closing) around { kind := .call } (c.image r arguments [])
      (some (c.calleeImage callee (c.image r callee [])))
  | .first argument => [c.image r argument []]
  | .next before _ argument => c.image r before [] ++ [c.image r argument []]

/-! ## Forms of wired phrases -/

section Forms

variable {t a b : TokenId}

/-- A literal has the form of a literal. -/
theorem formOf_eq_literal (h : (c.token t).isLiteral = true) : c.formOf t = .literal := by
  simp [formOf, h]

/-- A name without operands has the form of a name. -/
theorem formOf_eq_name (hname : (c.token t).isName = true) (hliteral : (c.token t).isLiteral = false) (hleaf : c.IsLeaf t) :
    c.formOf t = .name := by
  simp [formOf, hliteral, hleaf.1, hleaf.2.1, hname]

/-- A token whose text is none of those with a form of their own is decided by its operands. -/
theorem formOf_of_operator {operand2 : Option TokenId} (h : c.Heads t (some a) operand2)
    (htext : (c.token t).text ∉ ["(", "[", ".", "::", "?"]) :
    c.formOf t = match operand2 with
      | none => if unaryOperators.contains (c.token t).text then .unary a else .unmodelled
      | some b => if binaryOperators.contains (c.token t).text then .binary a b else .unmodelled := by
  obtain ⟨hliteral, h1, h2⟩ := h
  simp only [List.mem_cons, List.not_mem_nil, or_false, not_or] at htext
  obtain ⟨hcall, hindex, hdot, hscope, hmark⟩ := htext
  have hmember : (c.token t).memberName = none := by simp [Token.memberName, hdot, hscope]
  cases operand2 <;> simp [formOf, hliteral, h1, h2, hcall, hindex, hmember, hmark]

/-- An operator between two operands has the form of a binary operation. -/
theorem formOf_eq_binary (h : c.Heads t (some a) (some b)) (htext : (c.token t).text ∈ binaryOperators) :
    c.formOf t = .binary a b := by
  have hnot : ∀ s ∈ binaryOperators, s ∉ ["(", "[", ".", "::", "?"] := by decide
  rw [formOf_of_operator h (hnot _ htext)]
  simp [htext]

/-- An operator with one operand has the form of a unary operation. -/
theorem formOf_eq_unary (h : c.Heads t (some a) none) (htext : (c.token t).text ∈ unaryOperators) :
    c.formOf t = .unary a := by
  have hnot : ∀ s ∈ unaryOperators, s ∉ ["(", "[", ".", "::", "?"] := by decide
  rw [formOf_of_operator h (hnot _ htext)]
  simp [htext]

/-- A bracket with two operands has the form of a subscript. -/
theorem formOf_eq_subscript (h : c.Heads t (some a) (some b)) (htext : (c.token t).text = "[") : c.formOf t = .subscript := by
  obtain ⟨hliteral, h1, h2⟩ := h
  simp [formOf, hliteral, h1, h2, htext]

/-- A member operator with a name has the form of a member access. -/
theorem formOf_eq_member {operand2 : Option TokenId} (h : c.Heads t (some a) operand2) (htext : (c.token t).text ∈ [".", "::"])
    (hmember : (c.token t).memberName = some b) (hname : (c.token b).isName = true) : c.formOf t = .member b := by
  obtain ⟨hliteral, h1, -⟩ := h
  have hfilter : Option.filter (fun name => (c.token name).isName) (some b) = some b := by
    rw [Option.filter_some, if_pos hname]
  rcases List.mem_pair.1 htext with htext | htext <;> simp [formOf, hliteral, h1, htext, hmember, hfilter]

/-- A parenthesis that is marked as a cast has the form of a cast. -/
theorem formOf_eq_cast {operand2 : Option TokenId} (h : c.Heads t (some a) operand2) (htext : (c.token t).text = "(")
    (hcast : (c.token t).isCast = true) : c.formOf t = .cast := by
  obtain ⟨hliteral, h1, -⟩ := h
  simp [formOf, hliteral, h1, htext, hcast]

/-- Any other parenthesis with an operand has the form of a call. -/
theorem formOf_eq_call {operand2 : Option TokenId} (h : c.Heads t (some a) operand2) (htext : (c.token t).text = "(")
    (hcast : (c.token t).isCast = false) : c.formOf t = .call a := by
  obtain ⟨hliteral, h1, -⟩ := h
  simp [formOf, hliteral, h1, htext, hcast]

/-- A question mark with a colon on its right has the form of a conditional. -/
theorem formOf_eq_conditional (h : c.Heads t (some a) (some b)) (htext : (c.token t).text = "?")
    (hcolon : (c.token b).text = ":") : c.formOf t = .conditional :=
  formOf_eq_conditional_iff.2 ⟨h.1, htext, by rw [h.2.2]; exact hcolon⟩

end Forms

/-! ## One node -/

variable {before after : List TokenId} {around : List (TokenId × TokenId)}

/-- A name means the symbol that it is resolved to. -/
theorem meaning_eq {t : Token} {called : Bool} {symbol : Option Symbol} (h : c.resolve t called = .ok symbol) :
    c.meaning t called = symbol := by
  rw [meaning, h]
  rfl

/-- Every name in the token list is resolved to what it means. -/
theorem Stream.resolve_eq (hstream : c.Stream) {t : TokenId} (ht : t ∈ c.tokenList) (called : Bool) :
    c.resolve (c.token t) called = .ok (c.meaning (c.token t) called) := by
  obtain ⟨symbol, hsymbol⟩ := hstream.resolvable t ht
  obtain ⟨symbol', hsymbol'⟩ := resolve_isOk_of_isOk hsymbol called
  rw [hsymbol', meaning_eq hsymbol']

/-- A token with an operand opens no group. -/
theorem opensGroup_of_operand {t a : TokenId} (h : (c.token t).operand1 = some a) : (c.token t).opensGroup = false := by
  simp [Token.opensGroup, h]

/-- The expression of a phrase that is no group is the node that its form makes, in the parentheses that are found. -/
theorem Stream.ofTokenWithin_eq (hstream : c.Stream) {e : Phrase .expression} (h : c.Stands before around e after)
    (hwired : c.Wired e) (hcore : e.isGroup = false) {steps : Nat} {form : Form} {n : Node} {operands : List Expression}
    {callee : Option Expression} (hform : c.formOf e.root = form)
    (hnode : (c.source.ofForm (c.source.treeWithin steps) e.root { first := e.lead, last := e.trail } (c.placeOf e.lead)
        (c.placeOf e.trail) form).result =
      .ok (.node { n with location := c.placeOf e.lead, stop := some (c.placeOf e.trail) } operands callee)) :
    (c.source.treeWithin (steps + 1) (some e.root)).result = .ok (c.nodeOf .found e around n operands callee) :=
  Source.ofTokenWithin_succ_eq_ok_iff.2 ⟨_, _, _, _, hstream.extent_of_wired hwired h.sublist, hstream.located.location_eq _,
    hstream.located.location_eq _, hform ▸ hnode, congrArg Logged.result (hstream.inParens_eq h hwired hcore _)⟩

/-! ## Callees -/

/-- A phrase that is a name in grouping parentheses stands for that name, with its parentheses around it. -/
theorem stands_of_named {e : Phrase k} {word : TokenId} (hnamed : e.named = some word) (hwired : c.Wired e)
    (h : c.Stands before around e after) :
    e.root = word ∧ c.Wired (.name word) ∧ c.Stands before (e.pairs ++ around) (.name word) after := by
  induction e generalizing around with
  | name =>
    obtain rfl := Option.some.inj hnamed
    exact ⟨rfl, hwired, h⟩
  | group opening inner closing ih =>
    obtain ⟨hroot, hword, hstands⟩ := ih hnamed hwired.2 (h.inner hwired.1)
    exact ⟨hroot, hword, by simpa [Phrase.pairs] using hstands⟩
  | _ => cases hnamed

/-- The callee of a call. -/
theorem Stream.calleeOf_eq (hstream : c.Stream) {callee : Phrase .expression} (h : c.Stands before [] callee after)
    (hwired : c.Wired callee) (hword : (c.token callee.root).isName = true → callee.named.isSome = true) {steps : Nat}
    {x : Expression} (hx : (c.source.treeWithin steps (some callee.root)).result = .ok x) :
    (c.source.calleeOf (c.source.treeWithin steps) callee.root).result = .ok (c.calleeImage callee x) := by
  unfold Source.calleeOf calleeImage
  cases hnamed : callee.named with
  | some word =>
    obtain ⟨hroot, hname, hstands⟩ := stands_of_named hnamed hwired h
    rw [List.append_nil] at hstands
    have hmem : word ∈ c.tokenList := hstands.sublist.subset (by simp [Phrase.tokens])
    have hparens := hstream.inParens_eq hstands hname rfl
      (.ident (c.token word).text (c.meaning (c.token word) true) (c.placeOf word))
    rw [hroot]
    rw [if_pos (by simp [Phrase.isBare, Phrase.lead, Phrase.trail, Phrase.start, Phrase.stop, Phrase.stems, Phrase.tokens])]
      at hparens
    simp only [source_config, hname.1, if_true, hstream.resolve_eq hmem, hstream.located.location_eq, Logged.liftM_ok_bind,
      make_eq, pure_bind]
    exact congrArg Logged.result hparens
  | none =>
    have hnot : ¬(c.token callee.root).isName = true := by
      intro hname
      have := hword hname
      rw [hnamed] at this
      cases this
    dsimp only [source_config]
    rw [if_neg hnot, Logged.result_bind, hx, except_ok_bind]
    split
    · rename_i hmember
      simp only [Bool.and_eq_true, decide_eq_true_eq, Option.isNone_iff_eq_none] at hmember
      obtain ⟨symbol, hsymbol⟩ := Source.namesMembers_ofTokenWithin c.source steps _ x hx hmember.1 hmember.2
      obtain ⟨symbol', hsymbol'⟩ := resolve_isOk_of_isOk hsymbol true
      rw [source_config] at hsymbol'
      rw [Logged.result_bind, Logged.result_liftM, hsymbol', meaning_eq hsymbol']
      rfl
    · rfl

/-! ## All nodes -/

/-- Wherever a phrase stands in the token list, the analysis makes its image of it. -/
def Recovered (c : Configuration) {k : PhraseKind} (e : Phrase k) : Prop :=
  match k, e with
  | .expression, e => ∀ before around after steps, c.Stands before around e after → e.height < steps →
    (c.source.treeWithin steps (some e.root)).result = .ok (c.image .found e around)
  | .arguments, e => ∀ before after steps, c.Stands before [] e after → e.height < steps →
    (mapList (fun a => c.source.treeWithin steps (some a)) e.roots).result = .ok (c.image .found e [])

/-- Two lists are mapped one after the other. -/
theorem mapList_append {α β : Type} {f : α → Logged Fault β} {as as' : List α} {bs bs' : List β}
    (h : (mapList f as).result = .ok bs) (h' : (mapList f as').result = .ok bs') :
    (mapList f (as ++ as')).result = .ok (bs ++ bs') := by
  induction as generalizing bs with
  | nil =>
    cases h
    exact h'
  | cons a as ih =>
    simp only [mapList, Logged.bind_result_eq_ok, Logged.result_pure, Except.ok.injEq] at h
    obtain ⟨b, hb, bs, hbs, rfl⟩ := h
    simp only [List.cons_append, mapList, Logged.result_bind, hb, ih hbs, except_ok_bind, Logged.result_pure]

/-- A list of one item is mapped to what the item is mapped to. -/
theorem mapList_singleton {α β : Type} {f : α → Logged Fault β} {a : α} {b : β} (h : (f a).result = .ok b) :
    (mapList f [a]).result = .ok [b] := by
  simp only [mapList, Logged.result_bind, h, except_ok_bind, Logged.result_pure]

/-- The text from a token up to the one before another. -/
theorem Stream.rangeText_eq (hstream : c.Stream) {t stop : TokenId} {stretch : List TokenId}
    (hlist : c.tokenList = before ++ t :: stretch ++ stop :: after) :
    c.rangeText (some t) (c.token stop).previous = c.words (t :: stretch) := by
  have hprevious : (c.token stop).previous = (t :: stretch).getLast? := by
    rw [hstream.previous_eq hlist, List.getLast?_append_of_ne_nil _ (List.cons_ne_nil t stretch)]
  obtain ⟨last, hlast⟩ : ∃ last, (t :: stretch).getLast? = some last :=
    ⟨_, List.getLast?_eq_some_getLast (List.cons_ne_nil t stretch)⟩
  rw [rangeText, words, hprevious, hlast, hstream.range_eq hlist hlast]

section Nodes

variable (hstream : c.Stream) {left right operand callee : Phrase .expression} {arguments : Phrase .arguments}
  {op word opening closing : TokenId}

include hstream

/-- A name is recovered. -/
theorem recovered_name (hwired : c.Wired (.name word)) : c.Recovered (.name word) := by
  rintro before around after (_ | steps) h hsteps
  · cases hsteps
  have hmem : word ∈ c.tokenList := h.sublist.subset (by simp [Phrase.tokens])
  refine hstream.ofTokenWithin_eq h hwired rfl (formOf_eq_name hwired.1 hwired.2.1 hwired.2.2) ?_
  simp only [Source.ofForm, source_config, Phrase.root, Logged.result_bind, Logged.result_liftM, hstream.resolve_eq hmem,
    except_ok_bind]
  rfl

/-- A literal is recovered. -/
theorem recovered_literal (hwired : c.Wired (.literal word)) : c.Recovered (.literal word) := by
  rintro before around after (_ | steps) h hsteps
  · cases hsteps
  exact hstream.ofTokenWithin_eq h hwired rfl (formOf_eq_literal hwired.1) rfl

/-- A binary operation is recovered if its operands are. -/
theorem recovered_binary (hwired : c.Wired (.binary left op right)) (ihl : c.Recovered left) (ihr : c.Recovered right) :
    c.Recovered (.binary left op right) := by
  rintro before around after (_ | steps) h hsteps
  · cases hsteps
  obtain ⟨hheads, htext⟩ := hwired.1
  rw [Phrase.height] at hsteps
  have hsplit : (Phrase.binary left op right).tokens = left.tokens ++ op :: right.tokens ++ [] := by simp [Phrase.tokens]
  have hx := ihl _ [] _ steps (h.left hstream rfl (by simp)) (by omega)
  have hy := ihr _ [] _ steps (h.right hsplit (opensGroup_of_operand hheads.2.1)) (by omega)
  refine hstream.ofTokenWithin_eq h hwired rfl (formOf_eq_binary hheads htext) ?_
  simp only [Source.ofForm, Source.ofPair, Logged.result_bind, hx, hy, except_ok_bind]
  rfl

/-- A subscript is recovered if the array and the index are. -/
theorem recovered_subscript (hwired : c.Wired (.subscript left opening right closing)) (ihl : c.Recovered left)
    (ihr : c.Recovered right) : c.Recovered (.subscript left opening right closing) := by
  rintro before around after (_ | steps) h hsteps
  · cases hsteps
  obtain ⟨hheads, htext, -⟩ := hwired.1
  rw [Phrase.height] at hsteps
  have hsplitl : (Phrase.subscript left opening right closing).tokens =
      left.tokens ++ (opening :: right.tokens ++ [closing]) := by
    simp [Phrase.tokens]
  have hx := ihl _ [] _ steps (h.left hstream hsplitl (by simp)) (by omega)
  have hy := ihr _ [] _ steps (h.right rfl (opensGroup_of_operand hheads.2.1)) (by omega)
  refine hstream.ofTokenWithin_eq h hwired rfl (formOf_eq_subscript hheads htext) ?_
  simp only [Source.ofForm, Source.ofPair, source_config, Phrase.root, hheads.2.1, hheads.2.2, Logged.result_bind, hx, hy,
    except_ok_bind]
  rfl

/-- A conditional is recovered if its three parts are. -/
theorem recovered_conditional {selector branch other : Phrase .expression} {mark colon : TokenId}
    (hwired : c.Wired (.conditional selector mark branch colon other)) (ihs : c.Recovered selector) (ihb : c.Recovered branch)
    (iho : c.Recovered other) : c.Recovered (.conditional selector mark branch colon other) := by
  rintro before around after (_ | steps) h hsteps
  · cases hsteps
  obtain ⟨hheads, htext, hcolon, h1, h2⟩ := hwired.1
  rw [Phrase.height] at hsteps
  have hsplits : (Phrase.conditional selector mark branch colon other).tokens =
      selector.tokens ++ (mark :: branch.tokens ++ colon :: other.tokens) := by
    simp [Phrase.tokens]
  have hsplito : (Phrase.conditional selector mark branch colon other).tokens =
      (selector.tokens ++ mark :: branch.tokens) ++ colon :: other.tokens ++ [] := by
    simp [Phrase.tokens]
  have hx := ihs _ [] _ steps (h.left hstream hsplits (by simp)) (by omega)
  have hy := ihb _ [] _ steps (h.right rfl (opensGroup_of_operand hheads.2.1)) (by omega)
  have hz := iho _ [] _ steps (h.right hsplito (opensGroup_of_operand h1)) (by omega)
  refine hstream.ofTokenWithin_eq h hwired rfl (formOf_eq_conditional hheads htext hcolon) ?_
  simp only [Source.ofForm, source_config, Phrase.root, hheads.2.1, hheads.2.2, look_some, h1, h2, Logged.result_bind, hx, hy,
    hz, except_ok_bind]
  rfl

/-- An operation before its operand is recovered if the operand is. -/
theorem recovered_leading (hwired : c.Wired (.leading op operand)) (ih : c.Recovered operand) :
    c.Recovered (.leading op operand) := by
  rintro before around after (_ | steps) h hsteps
  · cases hsteps
  obtain ⟨hheads, htext⟩ := hwired.1
  rw [Phrase.height] at hsteps
  have hsplit : (Phrase.leading op operand).tokens = [] ++ op :: operand.tokens ++ [] := by simp [Phrase.tokens]
  have hx := ih _ [] _ steps (h.right hsplit (opensGroup_of_operand hheads.2.1)) (by omega)
  have hsub : [op, operand.root].Sublist c.tokenList := by
    refine List.Sublist.trans ?_ h.sublist
    exact (List.singleton_sublist.2 (operand.stems_sublist_tokens.subset operand.root_mem_stems)).cons_cons op
  obtain ⟨key, key', hkey, hkey', hbefore⟩ := hstream.precedes_of_sublist hsub
  refine hstream.ofTokenWithin_eq h hwired rfl (formOf_eq_unary hheads htext) ?_
  simp only [Source.ofForm, Source.ofUnary, source_config, Phrase.root, Logged.result_bind, hx, except_ok_bind]
  by_cases hstar : (c.token op).text = "*"
  · simp only [hstar, if_true]
    rfl
  · simp only [hstar, if_false, Logged.result_bind, Logged.result_liftM, hkey, hkey', except_ok_bind,
      OrderKey.before_asymm _ _ hbefore]
    rfl

/-- So is one after its operand. -/
theorem recovered_trailing (hwired : c.Wired (.trailing operand op)) (ih : c.Recovered operand) :
    c.Recovered (.trailing operand op) := by
  rintro before around after (_ | steps) h hsteps
  · cases hsteps
  obtain ⟨hheads, htext⟩ := hwired.1
  rw [Phrase.height] at hsteps
  have hx := ih _ [] _ steps (h.left hstream rfl (by simp)) (by omega)
  have hsub : [operand.root, op].Sublist c.tokenList := by
    refine List.Sublist.trans ?_ h.sublist
    exact (List.singleton_sublist.2 (operand.stems_sublist_tokens.subset operand.root_mem_stems)).append_right [op]
  obtain ⟨key, key', hkey, hkey', hbefore⟩ := hstream.precedes_of_sublist hsub
  have hunary : ∀ s ∈ ["++", "--"], s ∈ unaryOperators ∧ s ≠ "*" := by decide
  refine hstream.ofTokenWithin_eq h hwired rfl (formOf_eq_unary hheads (hunary _ htext).1) ?_
  simp only [Source.ofForm, Source.ofUnary, source_config, Phrase.root, Logged.result_bind, hx, except_ok_bind,
    (hunary _ htext).2, if_false, Logged.result_liftM, hkey, hkey', hbefore]
  rfl

/-- A member access is recovered if the object is. -/
theorem recovered_member (hwired : c.Wired (.member operand op word)) (ih : c.Recovered operand) :
    c.Recovered (.member operand op word) := by
  rintro before around after (_ | steps) h hsteps
  · cases hsteps
  obtain ⟨hheads, htext, hname, -⟩ := hwired.1
  rw [Phrase.height] at hsteps
  have hx := ih _ [] _ steps (h.left hstream rfl (by simp)) (by omega)
  have hmem : word ∈ c.tokenList := h.sublist.subset (by simp [Phrase.tokens])
  have hmember : (c.token op).memberName = some word := by
    rcases List.mem_pair.1 htext with htext | htext <;> simp [Token.memberName, htext, hheads.2.2]
  refine hstream.ofTokenWithin_eq h hwired rfl (formOf_eq_member hheads htext hmember hname) ?_
  refine Source.ofMember_eq_ok_iff.2 ⟨_, _, ?_, hstream.resolve_eq hmem false, rfl⟩
  simp only [source_config, Phrase.root, hheads.2.1, hheads.2.2, if_true]
  exact mapList_singleton hx

/-- A name from the global namespace is recovered. -/
theorem recovered_qualified (hwired : c.Wired (.qualified op word)) : c.Recovered (.qualified op word) := by
  rintro before around after (_ | steps) h hsteps
  · cases hsteps
  obtain ⟨hheads, htext, hname, -⟩ := id hwired
  have hmem : word ∈ c.tokenList := h.sublist.subset (by simp [Phrase.tokens])
  have hmember : (c.token op).memberName = some word := by simp [Token.memberName, htext, hheads.2.1, hheads.2.2]
  have hform : c.formOf op = .member word := formOf_eq_member hheads (by simp [htext]) hmember hname
  refine hstream.ofTokenWithin_eq h hwired rfl hform ?_
  refine Source.ofMember_eq_ok_iff.2 ⟨[], _, ?_, hstream.resolve_eq hmem false, rfl⟩
  simp only [source_config, Phrase.root, hheads.2.2, reduceCtorEq, if_false]
  rfl

/-- A cast is recovered if what it converts is. -/
theorem recovered_cast {type : List TokenId} (hwired : c.Wired (.cast opening type closing operand))
    (ih : c.Recovered operand) : c.Recovered (.cast opening type closing operand) := by
  rintro before around after (_ | steps) h hsteps
  · cases hsteps
  obtain ⟨hheads, htext, hcast, hlink, htype, hclosing⟩ := hwired.1
  rw [Phrase.height] at hsteps
  obtain ⟨word, type, rfl⟩ := List.exists_cons_of_ne_nil htype
  have hsplit : (Phrase.cast opening (word :: type) closing operand).tokens =
      (opening :: word :: type) ++ closing :: operand.tokens ++ [] := by
    simp [Phrase.tokens]
  have hx := ih _ [] _ steps (h.right hsplit (by simp [Token.opensGroup, hclosing])) (by omega)
  have hlist : c.tokenList = (before ++ opens around ++ [opening]) ++ word :: type ++
      closing :: (operand.tokens ++ closes around ++ after) := by
    simp [h.list, Phrase.tokens]
  have hnext : (c.token opening).next = some word := by
    have hlist' : c.tokenList = (before ++ opens around) ++ opening :: (word :: type ++
        closing :: (operand.tokens ++ closes around ++ after)) := by
      simp [hlist]
    simp [hstream.next_eq hlist']
  refine hstream.ofTokenWithin_eq h hwired rfl (formOf_eq_cast hheads htext hcast) ?_
  simp only [Source.ofForm, Source.ofCast, source_config, Phrase.root, hlink, hnext, hstream.rangeText_eq hlist,
    hheads.2.1, Source.locationOrEmpty, look_some, hstream.located.location_eq, Logged.result_bind, Logged.result_liftM, hx,
    except_ok_bind]
  rfl

/-- So is a cast that is written with a keyword. -/
theorem recovered_keywordCast {keyword : TokenId} {type : List TokenId}
    (hwired : c.Wired (.keywordCast keyword type opening operand closing)) (ih : c.Recovered operand) :
    c.Recovered (.keywordCast keyword type opening operand closing) := by
  rintro before around after (_ | steps) h hsteps
  · cases hsteps
  obtain ⟨hheads, htext, hcast, hlink, hkeyword, hleaf, hcomma⟩ := hwired.1
  rw [Phrase.height] at hsteps
  have hx := ih _ [] _ steps (h.right rfl (opensGroup_of_operand hheads.2.1)) (by omega)
  have harguments : c.callArguments (c.token opening) = (Phrase.first operand).roots :=
    callArguments_of_wired ⟨hcomma, hwired.2⟩ htext hheads.2.2
  have hlist : c.tokenList = (before ++ opens around) ++ keyword :: type ++
      opening :: (operand.tokens ++ closing :: closes around ++ after) := by
    simp [h.list, Phrase.tokens]
  have hbelow := mapList_singleton (f := fun a => c.source.treeWithin steps (some a)) hx
  have hform : c.formOf opening = .call keyword := formOf_eq_call hheads htext hcast
  rw [image]
  unfold isCastKeyword at hkeyword
  split
  · rename_i hchecked
    refine hstream.ofTokenWithin_eq h hwired rfl hform ?_
    simp only [Source.ofForm, Source.ofCall, source_config, Phrase.root, Phrase.roots, harguments, Logged.result_bind, hbelow,
      except_ok_bind, hkeyword, if_true, hstream.rangeText_eq hlist]
    simp only [hchecked]
    rfl
  · rename_i hchecked
    refine hstream.ofTokenWithin_eq h hwired rfl hform ?_
    simp only [Source.ofForm, Source.ofCall, source_config, Phrase.root, Phrase.roots, harguments, Logged.result_bind, hbelow,
      except_ok_bind, hkeyword, if_true, hstream.rangeText_eq hlist]
    simp only [hchecked, Bool.false_and, Bool.false_eq_true, if_false, Logged.result_bind, Logged.result_liftM, except_ok_bind,
      hstream.located.location_eq]
    rfl

/-- A call without arguments is recovered if the callee is. -/
theorem recovered_bareCall (hwired : c.Wired (.bareCall callee opening closing)) (ih : c.Recovered callee) :
    c.Recovered (.bareCall callee opening closing) := by
  rintro before around after (_ | steps) h hsteps
  · cases hsteps
  obtain ⟨hheads, htext, hcast, hlink, hkeyword, hword⟩ := hwired.1
  rw [Phrase.height] at hsteps
  have hstands : c.Stands _ [] callee _ := h.left hstream rfl (by simp)
  have hcallee := hstream.calleeOf_eq hstands hwired.2 hword (ih _ [] _ steps hstands (by omega))
  have harguments : c.callArguments (c.token opening) = [] := by
    simp [callArguments, htext, hheads.2.2, collectArguments]
  refine hstream.ofTokenWithin_eq h hwired rfl (formOf_eq_call hheads htext hcast) ?_
  unfold isCastKeyword at hkeyword
  simp only [Source.ofForm, Source.ofCall, source_config, Phrase.root, harguments, mapList, Logged.result_bind,
    Logged.result_pure, except_ok_bind, hkeyword, Bool.false_eq_true, if_false, hcallee, make_eq]

/-- A call is recovered if its callee and its arguments are. -/
theorem recovered_call (hwired : c.Wired (.call callee opening arguments closing)) (ih : c.Recovered callee)
    (ih' : c.Recovered arguments) : c.Recovered (.call callee opening arguments closing) := by
  rintro before around after (_ | steps) h hsteps
  · cases hsteps
  obtain ⟨hheads, htext, hcast, hlink, hkeyword, hword⟩ := hwired.1
  rw [Phrase.height] at hsteps
  have hsplit : (Phrase.call callee opening arguments closing).tokens =
      callee.tokens ++ (opening :: arguments.tokens ++ [closing]) := by
    simp [Phrase.tokens]
  have hstands := h.left hstream hsplit (by simp)
  have hcallee := hstream.calleeOf_eq hstands hwired.2.1 hword (ih _ [] _ steps hstands (by omega))
  have hbelow := h.right rfl (opensGroup_of_operand hheads.2.1)
  have hx := ih' _ _ steps hbelow (by omega)
  have harguments := callArguments_of_wired hwired.2.2 htext hheads.2.2
  refine hstream.ofTokenWithin_eq h hwired rfl (formOf_eq_call hheads htext hcast) ?_
  unfold isCastKeyword at hkeyword
  simp only [Source.ofForm, Source.ofCall, source_config, Phrase.root, harguments, Logged.result_bind, hx, except_ok_bind,
    hkeyword, Bool.false_eq_true, if_false, hcallee]
  rfl

end Nodes

/-- The analysis makes its image of every phrase that is laid out in a stream. -/
theorem Stream.recovered (hstream : c.Stream) {e : Phrase k} (h : c.Wired e) : c.Recovered e := by
  induction e with
  | name word => exact recovered_name hstream h
  | literal word => exact recovered_literal hstream h
  | group opening inner closing ih =>
    intro before around after steps hstands hsteps
    exact ih h.2 before ((opening, closing) :: around) after steps (hstands.inner h.1) hsteps
  | binary left op right ihl ihr => exact recovered_binary hstream h (ihl h.2.1) (ihr h.2.2)
  | leading op operand ih => exact recovered_leading hstream h (ih h.2)
  | trailing operand op ih => exact recovered_trailing hstream h (ih h.2)
  | subscript container opening key closing ih ih' => exact recovered_subscript hstream h (ih h.2.1) (ih' h.2.2)
  | member object op word ih => exact recovered_member hstream h (ih h.2)
  | qualified op word => exact recovered_qualified hstream h
  | cast opening type closing operand ih => exact recovered_cast hstream h (ih h.2)
  | keywordCast keyword type opening operand closing ih => exact recovered_keywordCast hstream h (ih h.2)
  | conditional selector mark branch colon other ihs ihb iho =>
    exact recovered_conditional hstream h (ihs h.2.1) (ihb h.2.2.1) (iho h.2.2.2)
  | bareCall callee opening closing ih => exact recovered_bareCall hstream h (ih h.2)
  | call callee opening arguments closing ih ih' => exact recovered_call hstream h (ih h.2.1) (ih' h.2.2)
  | first argument ih =>
    intro before after steps hstands hsteps
    exact mapList_singleton (ih h.2 before [] after steps ⟨hstands.list, hstands.grouped, hstands.detached⟩ hsteps)
  | next before comma argument ih ih' =>
    intro pre post steps hstands hsteps
    obtain ⟨⟨hcomma, -⟩, hbefore, hargument⟩ := h
    rw [Phrase.height] at hsteps
    have hsplit : (Phrase.next before comma argument).tokens = before.tokens ++ comma :: argument.tokens ++ [] := by
      simp [Phrase.tokens]
    have hx := ih hbefore _ _ steps (hstands.left hstream rfl (by simp)) (by omega)
    have hy := ih' hargument _ [] _ steps (hstands.right hsplit (opensGroup_of_operand hcomma)) (by omega)
    exact mapList_append hx (mapList_singleton hy)

/-- The expression of a phrase that is laid out in a stream, and is not nested too deeply, is its image. -/
theorem Stream.expression_of_phrase (hstream : c.Stream) {e : Phrase .expression} (h : c.Stands before around e after)
    (hwired : c.Wired e) (hheight : e.height ≤ depthLimit) :
    (c.source.expression (some e.root)).result = .ok (c.image .found e around).numbered := by
  have hmade := hstream.recovered hwired before around after _ h (Nat.lt_succ_of_le hheight)
  rw [Source.expression_eq, Logged.result_bind, hmade, except_ok_bind, Logged.result_pure]

end Configuration

end FormatAudit
