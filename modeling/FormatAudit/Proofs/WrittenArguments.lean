import FormatAudit.Proofs.CommaTrees
import FormatAudit.Proofs.DepthLimit
import FormatAudit.Proofs.Phrase
import FormatAudit.Proofs.Stream
import FormatAudit.Proofs.Walk
import Mathlib

/-!
# Arguments as they are written

The arguments of a call are separated by commas, and so are the parts of a comma expression, which is an argument only inside of
grouping parentheses. Parentheses of that kind leave no trace in the syntax tree, so the two sorts of commas cannot be told apart
there: what is found below a call are the parts of its arguments (`WrittenCall.callArguments_eq`). These are the arguments that
were written exactly if no argument is a comma expression, and the first comma expression moves all arguments after it
(`arguments_found_as_written_iff`).
-/

namespace FormatAudit

/-- What stands between the parentheses of a call or of a group, as far as its commas go. -/
inductive ArgumentPhrase : PhraseKind → Type where
  /-- Some other expression, with its tokens and the root of its syntax tree. -/
  | plain (tokens : List TokenId) (root : TokenId) : ArgumentPhrase .expression
  /-- Grouping parentheses around one expression, or around several with commas between them. -/
  | group (opening : TokenId) (inner : ArgumentPhrase .arguments) (closing : TokenId) : ArgumentPhrase .expression
  | first (argument : ArgumentPhrase .expression) : ArgumentPhrase .arguments
  | next (before : ArgumentPhrase .arguments) (comma : TokenId) (argument : ArgumentPhrase .expression) :
      ArgumentPhrase .arguments

namespace ArgumentPhrase

variable {k : PhraseKind}

/-- All tokens of a phrase. -/
def tokens {k : PhraseKind} (e : ArgumentPhrase k) : List TokenId :=
  match e with
  | .plain tokens _ => tokens
  | .group opening inner closing => opening :: inner.tokens ++ [closing]
  | .first argument => argument.tokens
  | .next before comma argument => before.tokens ++ comma :: argument.tokens

/-- The token of a phrase that is the root of its syntax tree. -/
def root {k : PhraseKind} (e : ArgumentPhrase k) : TokenId :=
  match e with
  | .plain _ root => root
  | .group _ inner _ => inner.root
  | .first argument => argument.root
  | .next _ comma _ => comma

/-- Whether a phrase has several parts with commas between them, in whatever parentheses. -/
def several {k : PhraseKind} (e : ArgumentPhrase k) : Bool :=
  match e with
  | .plain _ _ => false
  | .group _ inner _ => inner.several
  | .first argument => argument.several
  | .next _ _ _ => true

/-- The roots of the parts of a phrase, in whatever parentheses. -/
def parts {k : PhraseKind} (e : ArgumentPhrase k) : List TokenId :=
  match e with
  | .plain _ root => [root]
  | .group _ inner _ => inner.parts
  | .first argument => argument.parts
  | .next before _ argument => before.parts ++ argument.parts

/-- The expressions between the commas of a phrase, in their order. -/
def items {k : PhraseKind} (e : ArgumentPhrase k) : List (ArgumentPhrase .expression) :=
  match e with
  | .plain tokens root => [.plain tokens root]
  | .group opening inner closing => [.group opening inner closing]
  | .first argument => argument.items
  | .next before _ argument => before.items ++ argument.items

/-! ## Parts -/

/-- An argument that is no sequence has one part, itself. -/
theorem parts_of_not_several {e : ArgumentPhrase k} (h : e.several = false) : e.parts = [e.root] := by
  induction e with
  | plain => rfl
  | group opening inner closing ih => exact ih h
  | first argument ih => exact ih h
  | next => cases h

/-- Every argument has a part. -/
theorem one_le_length_parts (e : ArgumentPhrase k) : 1 ≤ e.parts.length := by
  induction e with
  | plain => exact Nat.le_refl 1
  | group opening inner closing ih => exact ih
  | first argument ih => exact ih
  | next before comma argument ih _ =>
    rw [parts, List.length_append]
    omega

/-- A sequence has at least two. -/
theorem two_le_length_parts {e : ArgumentPhrase k} (h : e.several = true) : 2 ≤ e.parts.length := by
  induction e with
  | plain => cases h
  | group opening inner closing ih => exact ih h
  | first argument ih => exact ih h
  | next before comma argument _ _ =>
    have hbefore := before.one_le_length_parts
    have hargument := argument.one_le_length_parts
    rw [parts, List.length_append]
    omega

/-- The parts of a phrase are the parts of the expressions between its commas. -/
theorem parts_eq_flatMap (e : ArgumentPhrase k) : e.parts = e.items.flatMap parts := by
  induction e with
  | plain => simp [items]
  | group => simp [items]
  | first argument ih => exact ih
  | next before comma argument ihbefore ihargument => rw [parts, items, List.flatMap_append, ihbefore, ihargument]

/-- The items of a sequence stand in it in their order. -/
theorem items_tokens_sublist (e : ArgumentPhrase k) : (e.items.flatMap tokens).Sublist e.tokens := by
  induction e with
  | plain => simp [items]
  | group => simp [items]
  | first argument ih => exact ih
  | next before comma argument ihbefore ihargument =>
    rw [items, tokens, List.flatMap_append]
    exact ihbefore.append (ihargument.cons comma)

/-- Items of which none has several parts have as many parts as there are items, and only they do. -/
theorem not_several_of_length_le {l : List (ArgumentPhrase .expression)} (h : (l.flatMap parts).length ≤ l.length) :
    ∀ e ∈ l, e.several = false := by
  have hle : ∀ l : List (ArgumentPhrase .expression), l.length ≤ (l.flatMap parts).length := by
    intro l
    induction l with
    | nil => exact Nat.le_refl 0
    | cons e l ih =>
      have hone := e.one_le_length_parts
      rw [List.flatMap_cons, List.length_append, List.length_cons]
      omega
  induction l with
  | nil => simp
  | cons e l ih =>
    have hone := e.one_le_length_parts
    have hrest := hle l
    rw [List.flatMap_cons, List.length_append, List.length_cons] at h
    refine List.forall_mem_cons.2 ⟨?_, ih (by omega)⟩
    by_contra hseveral
    have htwo := two_le_length_parts (Bool.eq_true_of_not_eq_false hseveral)
    omega

/-- Without sequences the parts are the arguments. -/
theorem flatMap_parts_of_not_several {l : List (ArgumentPhrase .expression)} (h : ∀ e ∈ l, e.several = false) :
    l.flatMap parts = l.map root := by
  induction l with
  | nil => rfl
  | cons e l ih =>
    obtain ⟨he, hl⟩ := List.forall_mem_cons.1 h
    rw [List.flatMap_cons, List.map_cons, ih hl, parts_of_not_several he]
    rfl

end ArgumentPhrase

namespace Configuration

variable {c : Configuration} {k : PhraseKind} {call closing : TokenId} {arguments : Option (ArgumentPhrase .arguments)}

/-- The tokens of a phrase refer to each other as it is written: a comma has what stands before and after it as its operands, and
grouping parentheses belong to no operand. -/
def WiredArgument (c : Configuration) {k : PhraseKind} (e : ArgumentPhrase k) : Prop :=
  match e with
  | .plain tokens root => root ∈ tokens ∧ (c.token root).text ≠ ","
  | .group opening inner closing =>
    (c.token opening).opensGroup = true ∧ (c.token opening).link = some closing ∧ c.WiredArgument inner
  | .first argument => c.WiredArgument argument
  | .next before comma argument =>
    ((c.token comma).text = "," ∧ (c.token comma).operand1 = some before.root ∧
      (c.token comma).operand2 = some argument.root) ∧ c.WiredArgument before ∧ c.WiredArgument argument

/-- The commas of a phrase are a tree, with the parts of the phrase as its leaves. -/
theorem WiredArgument.commaTree {e : ArgumentPhrase k} (h : c.WiredArgument e) : ∃ n, c.CommaTree n (some e.root) e.parts := by
  induction e with
  | plain tokens root => exact ⟨0, .leaf h.2⟩
  | group opening inner closing ih => exact ih h.2.2
  | first argument ih => exact ih h
  | next before comma argument ihbefore ihargument =>
    obtain ⟨⟨htext, hleft, hright⟩, hbefore, hargument⟩ := h
    obtain ⟨n, left⟩ := ihbefore hbefore
    obtain ⟨n', right⟩ := ihargument hargument
    exact ⟨_, .comma htext (hleft ▸ left) (hright ▸ right)⟩

/-- A sequence is headed by a comma. -/
theorem WiredArgument.text_root {e : ArgumentPhrase k} (h : c.WiredArgument e) (hseveral : e.several = true) :
    (c.token e.root).text = "," := by
  induction e with
  | plain => cases hseveral
  | group opening inner closing ih => exact ih h.2.2 hseveral
  | first argument ih => exact ih h hseveral
  | next before comma argument _ _ => exact h.1.1

/-- The parts of an argument stand in it in their order. -/
theorem WiredArgument.parts_sublist {e : ArgumentPhrase k} (h : c.WiredArgument e) : e.parts.Sublist e.tokens := by
  induction e with
  | plain tokens root => exact List.singleton_sublist.2 h.1
  | group opening inner closing ih => exact (ih h.2.2).trans ((List.sublist_append_left _ _).cons opening)
  | first argument ih => exact ih h
  | next before comma argument ihbefore ihargument =>
    exact (ihbefore h.2.1).append ((ihargument h.2.2).cons comma)

/-- The items of a wired argument are wired. -/
theorem WiredArgument.items {e : ArgumentPhrase k} (h : c.WiredArgument e) : ∀ x ∈ e.items, c.WiredArgument x := by
  induction e with
  | plain => simpa [ArgumentPhrase.items] using h
  | group => simpa [ArgumentPhrase.items] using h
  | first argument ih => exact ih h
  | next before comma argument ihbefore ihargument =>
    intro x hx
    rcases List.mem_append.1 hx with hx | hx
    · exact ihbefore h.2.1 x hx
    · exact ihargument h.2.2 x hx

/-- A call is written with the given arguments, if any: the tree below its parenthesis is wired as they are written, and its
tokens stand in a row in the list of all tokens, in which no token comes twice. -/
structure WrittenCall (c : Configuration) (call closing : TokenId) (arguments : Option (ArgumentPhrase .arguments)) : Prop where
  text : (c.token call).text = "("
  link : (c.token call).link = some closing
  operand : (c.token call).operand2 = arguments.map ArgumentPhrase.root
  wired : ∀ e ∈ arguments, c.WiredArgument e
  inRow : (call :: (arguments.map ArgumentPhrase.tokens).getD [] ++ [closing]) <:+: c.tokenList
  nodup : c.tokenList.Nodup

/-- The arguments that a call is written with. -/
def writtenArguments (arguments : Option (ArgumentPhrase .arguments)) : List (ArgumentPhrase .expression) :=
  (arguments.map ArgumentPhrase.items).getD []

namespace WrittenCall

variable (h : c.WrittenCall call closing arguments)

include h

/-- Every written argument is wired. -/
theorem wired_of_mem {e : ArgumentPhrase .expression} (he : e ∈ writtenArguments arguments) : c.WiredArgument e := by
  cases arguments with
  | none => cases he
  | some all => exact (h.wired all rfl).items e he

/-- What is found below a call are the parts of its arguments. -/
theorem callArguments_eq : c.callArguments (c.token call) = (writtenArguments arguments).flatMap ArgumentPhrase.parts := by
  have hoperand := h.operand
  cases arguments with
  | none =>
    refine callArguments_of_commaTree (n := 0) h.text ?_
    rw [hoperand]
    exact .missing
  | some all =>
    obtain ⟨n, htree⟩ := (h.wired all rfl).commaTree
    rw [all.parts_eq_flatMap] at htree
    refine callArguments_of_commaTree (n := n) h.text ?_
    rw [hoperand]
    exact htree

/-- No part of an argument is a comma. -/
theorem text_ne_of_mem {t : TokenId} (ht : t ∈ (writtenArguments arguments).flatMap ArgumentPhrase.parts) :
    (c.token t).text ≠ "," := by
  obtain ⟨e, he, ht⟩ := List.mem_flatMap.1 ht
  obtain ⟨n, htree⟩ := (h.wired_of_mem he).commaTree
  exact htree.text_ne t ht

/-- No token stands in two arguments. -/
theorem tokens_nodup : ((writtenArguments arguments).flatMap ArgumentPhrase.tokens).Nodup := by
  have hrow := h.inRow.sublist
  cases arguments with
  | none => exact List.nodup_nil
  | some all =>
    have hsublist : (all.items.flatMap ArgumentPhrase.tokens).Sublist c.tokenList :=
      (all.items_tokens_sublist.trans ((List.sublist_append_left _ _).cons call)).trans hrow
    exact hsublist.nodup h.nodup

/-- An argument that is a part is no sequence. -/
theorem not_several_of_mem_parts {e : ArgumentPhrase .expression} (he : e ∈ writtenArguments arguments)
    (hroot : e.root ∈ (writtenArguments arguments).flatMap ArgumentPhrase.parts) : e.several = false := by
  by_contra hseveral
  exact h.text_ne_of_mem hroot ((h.wired_of_mem he).text_root (Bool.eq_true_of_not_eq_false hseveral))

/-- An argument is found at its place exactly if neither it nor an argument before it has several parts. -/
theorem found_at_place_iff {before after : List (ArgumentPhrase .expression)} {e : ArgumentPhrase .expression}
    (hsplit : writtenArguments arguments = before ++ e :: after) :
    ((writtenArguments arguments).flatMap ArgumentPhrase.parts)[before.length]? = some e.root ↔
      ∀ x ∈ before ++ [e], x.several = false := by
  have hparts : (writtenArguments arguments).flatMap ArgumentPhrase.parts =
      before.flatMap ArgumentPhrase.parts ++ (e.parts ++ after.flatMap ArgumentPhrase.parts) := by
    rw [hsplit, List.flatMap_append, List.flatMap_cons]
  have he : e ∈ writtenArguments arguments := by simp [hsplit]
  constructor
  · intro hfound
    have hself := h.not_several_of_mem_parts he (List.mem_of_getElem? hfound)
    have hlength : (before.flatMap ArgumentPhrase.parts).length ≤ before.length := by
      by_contra hlt
      -- then the root would be a token of an argument before it
      rw [hparts, List.getElem?_append_left (Nat.lt_of_not_le hlt)] at hfound
      obtain ⟨x, hx, hroot⟩ := List.mem_flatMap.1 (List.mem_of_getElem? hfound)
      have hnodup := h.tokens_nodup
      rw [hsplit, List.flatMap_append, List.flatMap_cons] at hnodup
      have hwired := h.wired_of_mem (e := x) (by simp [hsplit, hx])
      have hmem : e.root ∈ before.flatMap ArgumentPhrase.tokens := List.mem_flatMap.2 ⟨x, hx, hwired.parts_sublist.subset hroot⟩
      have hmem' : e.root ∈ e.tokens :=
        (h.wired_of_mem he).parts_sublist.subset (by simp [ArgumentPhrase.parts_of_not_several hself])
      exact (List.disjoint_of_nodup_append hnodup) hmem (List.mem_append_left _ hmem')
    intro x hx
    rcases List.mem_append.1 hx with hx | hx
    · exact ArgumentPhrase.not_several_of_length_le hlength x hx
    · rwa [List.mem_singleton.1 hx]
  · intro hnot
    have hbefore : before.flatMap ArgumentPhrase.parts = before.map ArgumentPhrase.root :=
      ArgumentPhrase.flatMap_parts_of_not_several fun x hx => hnot x (List.mem_append_left _ hx)
    have hself : e.parts = [e.root] := ArgumentPhrase.parts_of_not_several (hnot e (by simp))
    rw [hparts, hbefore, hself]
    simp

/-- The arguments that are found are the written ones if none of them is a sequence. -/
theorem found_eq_written_iff :
    (writtenArguments arguments).flatMap ArgumentPhrase.parts = (writtenArguments arguments).map ArgumentPhrase.root ↔
      ∀ e ∈ writtenArguments arguments, e.several = false := by
  constructor
  · intro heq e he
    refine h.not_several_of_mem_parts he ?_
    rw [heq]
    exact List.mem_map_of_mem he
  · exact ArgumentPhrase.flatMap_parts_of_not_several

end WrittenCall

end Configuration

namespace Auditor

variable {a : Auditor} {t : TokenId} {callee argument : Expression}

/-- A call passes a format if its arguments are the given ones. -/
def PassesWritten (a : Auditor) (t : TokenId) (written : List (ArgumentPhrase .expression)) (callee argument : Expression) :
    Prop :=
  (a.source.expression (a.source.config.token t).operand1).result = .ok callee ∧
    (callee.kind = .ident ∨ callee.kind = .member) ∧
    ∃ (symbol : Option Symbol) (place : Nat) (e : ArgumentPhrase .expression),
      a.source.config.calledSymbol (a.source.config.token t) = .ok symbol ∧
      a.table.slot? a.source.config symbol = place ∧
      written[place]? = some e ∧ (a.settings.skipBareCalls = true → place + 1 < written.length) ∧
      (a.source.expression (some e.root)).result = .ok argument

/-- A call passes a format exactly as it is written if the arguments that are found are the written ones. -/
theorem passesFormat_iff_passesWritten {written : List (ArgumentPhrase .expression)}
    (h : a.source.config.callArguments (a.source.config.token t) = written.map ArgumentPhrase.root) :
    a.PassesFormat t callee argument ↔ a.PassesWritten t written callee argument := by
  unfold PassesFormat PassesWritten
  rw [h]
  simp only [List.getElem?_map, Option.map_eq_some_iff, List.length_map]
  refine and_congr_right fun _ => and_congr_right fun _ => ?_
  constructor
  · rintro ⟨symbol, place, _, hsymbol, hplace, ⟨e, he, rfl⟩, hmore, hargument⟩
    exact ⟨symbol, place, e, hsymbol, hplace, he, hmore, hargument⟩
  · rintro ⟨symbol, place, e, hsymbol, hplace, he, hmore, hargument⟩
    exact ⟨symbol, place, e.root, hsymbol, hplace, ⟨e, he, rfl⟩, hmore, hargument⟩

end Auditor

namespace Configuration

/-- What is found below a call are the parts of its arguments. They are the arguments as written exactly if no argument is a
comma expression in parentheses, and an argument is found at its place exactly if neither it nor one before it is. Where no
argument is, the format that a call passes is the argument that is written at the place of the format. -/
theorem arguments_found_as_written_iff {c : Configuration} {call closing : TokenId}
    {arguments : Option (ArgumentPhrase .arguments)} (h : c.WrittenCall call closing arguments) :
    c.callArguments (c.token call) = (writtenArguments arguments).flatMap ArgumentPhrase.parts ∧
    (c.callArguments (c.token call) = (writtenArguments arguments).map ArgumentPhrase.root ↔
      ∀ e ∈ writtenArguments arguments, e.several = false) ∧
    (∀ before e after, writtenArguments arguments = before ++ e :: after →
      ((c.callArguments (c.token call))[before.length]? = some e.root ↔ ∀ x ∈ before ++ [e], x.several = false)) ∧
    ((∀ e ∈ writtenArguments arguments, e.several = false) → ∀ a : Auditor, a.source.config = c → ∀ callee argument,
      a.PassesFormat call callee argument ↔ a.PassesWritten call (writtenArguments arguments) callee argument) := by
  have hfound := h.callArguments_eq
  have hwritten := h.found_eq_written_iff
  rw [← hfound] at hwritten
  refine ⟨hfound, hwritten, ?_, ?_⟩
  · intro before e after hsplit
    rw [hfound]
    exact h.found_at_place_iff hsplit
  · rintro hnot a rfl callee argument
    exact Auditor.passesFormat_iff_passesWritten (hwritten.2 hnot)

namespace GroupedArguments

/-- The call `printf(("x"), v)`. -/
def plain : Configuration :=
  { inARow [{ text := "printf", isName := true }, { text := "(", operand1 := some 0, operand2 := some 5, link := some 7 },
      { text := "(", link := some 4 }, { text := "\"x\"", isString := true }, { text := ")", link := some 2 },
      { text := ",", operand1 := some 3, operand2 := some 6 }, { text := "v", isName := true, variableRef := some 0 },
      { text := ")", link := some 1 }] with
    variableDecls := #[{ name := "v" }] }

def plainArguments : ArgumentPhrase .arguments :=
  .next (.first (.group 2 (.first (.plain [3] 3)) 4)) 5 (.plain [6] 6)

/-- The call `printf(("x", v))`. -/
def comma : Configuration :=
  { inARow [{ text := "printf", isName := true }, { text := "(", operand1 := some 0, operand2 := some 4, link := some 7 },
      { text := "(", link := some 6 }, { text := "\"x\"", isString := true },
      { text := ",", operand1 := some 3, operand2 := some 5 }, { text := "v", isName := true, variableRef := some 0 },
      { text := ")", link := some 2 }, { text := ")", link := some 1 }] with
    variableDecls := #[{ name := "v" }] }

def commaArguments : ArgumentPhrase .arguments :=
  .first (.group 2 (.next (.first (.plain [3] 3)) 4 (.plain [5] 5)) 6)

theorem plain_written : plain.WrittenCall 1 7 (some plainArguments) := by
  refine ⟨by decide, by decide, by decide, ?_, by decide, by decide⟩
  intro e he
  obtain rfl := Option.some.inj he
  exact ⟨by decide, ⟨by decide, by decide, by decide, by decide⟩, by decide, by decide⟩

theorem comma_written : comma.WrittenCall 1 7 (some commaArguments) := by
  refine ⟨by decide, by decide, by decide, ?_, by decide, by decide⟩
  intro e he
  obtain rfl := Option.some.inj he
  exact ⟨by decide, by decide, by decide, ⟨by decide, by decide⟩, by decide, by decide⟩

def auditor : Auditor :=
  Auditor.ofSettings {} comma

def callee : Expression :=
  .leaf { kind := .ident, text := "printf", location := { line := 1, column := 1 }, stop := some { line := 1, column := 1 } }

def text : Expression :=
  .leaf { kind := .literal, text := "\"x\"", location := { line := 1, column := 4 },
          stop := some { line := 1, column := 4 } }

def name : Expression :=
  .leaf { id := 1, kind := .ident, text := "v", location := { line := 1, column := 6 },
          symbol := some { key := { space := "var", id := .unnamed 0 }, name := "v", kind := .variableName },
          stop := some { line := 1, column := 6 } }

/-- The comma expression `("x", v)`. -/
def sequence : Expression :=
  .node { id := 3, kind := .paren, location := { line := 1, column := 3 }, stop := some { line := 1, column := 7 } }
    [.node { id := 2, kind := .binary, op := ",", location := { line := 1, column := 4 },
             stop := some { line := 1, column := 6 } } [text, name] none] none

theorem made : (comma.source.expression (some 0)).result = .ok callee ∧
    (comma.source.expression (some 3)).result = .ok text ∧ (comma.source.expression (some 4)).result = .ok sequence :=
  ⟨by cbv, by cbv, by cbv⟩

end GroupedArguments

/-- The two arguments of `printf(("x"), v)` are found. -/
theorem grouped_text_found :
    GroupedArguments.plain.callArguments (GroupedArguments.plain.token 1) = [3, 6] :=
  (arguments_found_as_written_iff GroupedArguments.plain_written).2.1.2 (by decide)

/-- The format that `printf(("x", v))` is written with is the comma expression, which is not constant. What is judged is its first
part, which is. -/
theorem comma_expression_judged_by_first_part :
    GroupedArguments.comma.WrittenCall 1 7 (some GroupedArguments.commaArguments) ∧
    GroupedArguments.comma.callArguments (GroupedArguments.comma.token 1) = [3, 5] ∧
    GroupedArguments.auditor.PassesFormat 1 GroupedArguments.callee (GroupedArguments.text) ∧
    (GroupedArguments.text).JudgedConstant ∧
    (writtenArguments (some GroupedArguments.commaArguments)).map ArgumentPhrase.root = [4] ∧
    GroupedArguments.auditor.PassesWritten 1 (writtenArguments (some GroupedArguments.commaArguments))
      GroupedArguments.callee GroupedArguments.sequence ∧
    ¬GroupedArguments.sequence.JudgedConstant := by
  obtain ⟨hcallee, htext, hsequence⟩ := GroupedArguments.made
  have hfound : GroupedArguments.comma.callArguments (GroupedArguments.comma.token 1) = [3, 5] :=
    GroupedArguments.comma_written.callArguments_eq
  have hroot : (GroupedArguments.comma.callArguments (GroupedArguments.comma.token 1))[0]? = some 3 := by rw [hfound]; rfl
  refine ⟨GroupedArguments.comma_written, hfound, ?_, ⟨_, rfl⟩, rfl, ?_, ?_⟩
  · refine ⟨hcallee, Or.inl rfl, some (.ofLibraryFunction "printf"), 0, 3, rfl, rfl, hroot, ?_, htext⟩
    intro h
    cases h
  · refine ⟨hcallee, Or.inl rfl, some (.ofLibraryFunction "printf"), 0, _, rfl, rfl, rfl, ?_, hsequence⟩
    intro h
    cases h
  · rw [Expression.judgedConstant_iff (Source.composed_expression hsequence)]
    decide

end Configuration

end FormatAudit
