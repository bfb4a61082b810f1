import FormatAudit.Token.Basic
import Mathlib.Data.List.Basic

/-!
# Phrases

An expression as it is written: a tree whose nodes hold the very tokens they are written with, grouping parentheses included. Of a
phrase there are two lists of tokens, both in the order of the source. `tokens` are all of them; `stems` are those that the syntax
tree of the phrase covers, which leaves out grouping parentheses and the words of types.

A phrase that is no group has its root outside of all groups in it. So if a group opens right before its first stem, the root
comes after the closing parenthesis of that group (`left_edge`); the search for parentheses around a phrase rests on this.
-/

namespace FormatAudit

/-- The two kinds of phrases: expressions, and the arguments of a call with the commas between them. -/
inductive PhraseKind where
  | expression | arguments

/-- A phrase with the tokens it is written with. -/
inductive Phrase : PhraseKind → Type where
  | name (word : TokenId) : Phrase .expression
  | literal (word : TokenId) : Phrase .expression
  /-- An expression in grouping parentheses. -/
  | group (opening : TokenId) (inner : Phrase .expression) (closing : TokenId) : Phrase .expression
  | binary (left : Phrase .expression) (op : TokenId) (right : Phrase .expression) : Phrase .expression
  /-- An operator before its operand. -/
  | leading (op : TokenId) (operand : Phrase .expression) : Phrase .expression
  /-- An operator after its operand. -/
  | trailing (operand : Phrase .expression) (op : TokenId) : Phrase .expression
  | subscript (container : Phrase .expression) (opening : TokenId) (key : Phrase .expression) (closing : TokenId) :
      Phrase .expression
  | member (object : Phrase .expression) (op word : TokenId) : Phrase .expression
  /-- A name after a scope operator without an object. -/
  | qualified (op word : TokenId) : Phrase .expression
  /-- A cast with the words of its type in parentheses. -/
  | cast (opening : TokenId) (type : List TokenId) (closing : TokenId) (operand : Phrase .expression) : Phrase .expression
  /-- A cast by a keyword; `type` holds the words of its type with the angle brackets around them. -/
  | keywordCast (keyword : TokenId) (type : List TokenId) (opening : TokenId) (operand : Phrase .expression)
      (closing : TokenId) : Phrase .expression
  | conditional (selector : Phrase .expression) (mark : TokenId) (branch : Phrase .expression) (colon : TokenId)
      (other : Phrase .expression) : Phrase .expression
  /-- A call without arguments. -/
  | bareCall (callee : Phrase .expression) (opening closing : TokenId) : Phrase .expression
  | call (callee : Phrase .expression) (opening : TokenId) (arguments : Phrase .arguments) (closing : TokenId) :
      Phrase .expression
  /-- The first argument of a call. -/
  | first (argument : Phrase .expression) : Phrase .arguments
  /-- One more argument of a call. -/
  | next (before : Phrase .arguments) (comma : TokenId) (argument : Phrase .expression) : Phrase .arguments

namespace Phrase

variable {k : PhraseKind}

/-- All tokens of a phrase. -/
def tokens {k : PhraseKind} (e : Phrase k) : List TokenId :=
  match e with
  | .name word | .literal word => [word]
  | .group opening inner closing => opening :: inner.tokens ++ [closing]
  | .binary left op right => left.tokens ++ op :: right.tokens
  | .leading op operand => op :: operand.tokens
  | .trailing operand op => operand.tokens ++ [op]
  | .subscript container opening key closing => container.tokens ++ opening :: key.tokens ++ [closing]
  | .member object op word => object.tokens ++ [op, word]
  | .qualified op word => [op, word]
  | .cast opening type closing operand => opening :: type ++ closing :: operand.tokens
  | .keywordCast keyword type opening operand closing => keyword :: type ++ opening :: operand.tokens ++ [closing]
  | .conditional selector mark branch colon other =>
    selector.tokens ++ mark :: branch.tokens ++ colon :: other.tokens
  | .bareCall callee opening closing => callee.tokens ++ [opening, closing]
  | .call callee opening arguments closing => callee.tokens ++ opening :: arguments.tokens ++ [closing]
  | .first argument => argument.tokens
  | .next before comma argument => before.tokens ++ comma :: argument.tokens

/-- The token of a phrase that is the root of its syntax tree. -/
def root {k : PhraseKind} (e : Phrase k) : TokenId :=
  match e with
  | .name word | .literal word => word
  | .group _ inner _ => inner.root
  | .binary _ op _ | .leading op _ | .trailing _ op | .member _ op _ | .qualified op _ => op
  | .subscript _ opening _ _ | .cast opening _ _ _ | .keywordCast _ _ opening _ _ => opening
  | .bareCall _ opening _ | .call _ opening _ _ => opening
  | .conditional _ mark _ _ _ => mark
  | .first argument => argument.root
  | .next _ comma _ => comma

/-- The tokens of a phrase that its syntax tree covers. -/
def stems {k : PhraseKind} (e : Phrase k) : List TokenId :=
  match e with
  | .name word | .literal word => [word]
  | .group _ inner _ => inner.stems
  | .binary left op right => left.stems ++ op :: right.stems
  | .leading op operand => op :: operand.stems
  | .trailing operand op => operand.stems ++ [op]
  | .subscript container opening key closing => container.stems ++ opening :: key.stems ++ [closing]
  | .member object op word => object.stems ++ [op, word]
  | .qualified op word => [op, word]
  | .cast opening _ closing operand => opening :: closing :: operand.stems
  | .keywordCast keyword _ opening operand closing => keyword :: opening :: operand.stems ++ [closing]
  | .conditional selector mark branch colon other => selector.stems ++ mark :: branch.stems ++ colon :: other.stems
  | .bareCall callee opening closing => callee.stems ++ [opening, closing]
  | .call callee opening arguments closing => callee.stems ++ opening :: arguments.stems ++ [closing]
  | .first argument => argument.stems
  | .next before comma argument => before.stems ++ comma :: argument.stems

/-- The number of levels of the syntax tree below the root of a phrase. Arguments are one level below their call. -/
@[simp]
def height {k : PhraseKind} (e : Phrase k) : Nat :=
  match e with
  | .name _ | .literal _ | .qualified _ _ => 0
  | .group _ inner _ => inner.height
  | .binary left _ right => max left.height right.height + 1
  | .leading _ operand | .trailing operand _ => operand.height + 1
  | .subscript container _ key _ => max container.height key.height + 1
  | .member object _ _ => object.height + 1
  | .cast _ _ _ operand | .keywordCast _ _ _ operand _ => operand.height + 1
  | .conditional selector _ branch _ other => max selector.height (max branch.height other.height) + 1
  | .bareCall callee _ _ => callee.height + 1
  | .call callee _ arguments _ => max callee.height arguments.height + 1
  | .first argument => argument.height
  | .next before _ argument => max before.height argument.height

/-- A property holds of a phrase and of all phrases in it. -/
def Every (P : (k : PhraseKind) → Phrase k → Prop) {k : PhraseKind} (e : Phrase k) : Prop :=
  match e with
  | .name word => P _ (.name word)
  | .literal word => P _ (.literal word)
  | .group opening inner closing => P _ (.group opening inner closing) ∧ inner.Every P
  | .binary left op right => P _ (.binary left op right) ∧ left.Every P ∧ right.Every P
  | .leading op operand => P _ (.leading op operand) ∧ operand.Every P
  | .trailing operand op => P _ (.trailing operand op) ∧ operand.Every P
  | .subscript container opening key closing =>
    P _ (.subscript container opening key closing) ∧ container.Every P ∧ key.Every P
  | .member object op word => P _ (.member object op word) ∧ object.Every P
  | .qualified op word => P _ (.qualified op word)
  | .cast opening type closing operand => P _ (.cast opening type closing operand) ∧ operand.Every P
  | .keywordCast keyword type opening operand closing =>
    P _ (.keywordCast keyword type opening operand closing) ∧ operand.Every P
  | .conditional selector mark branch colon other =>
    P _ (.conditional selector mark branch colon other) ∧ selector.Every P ∧ branch.Every P ∧ other.Every P
  | .bareCall callee opening closing => P _ (.bareCall callee opening closing) ∧ callee.Every P
  | .call callee opening arguments closing =>
    P _ (.call callee opening arguments closing) ∧ callee.Every P ∧ arguments.Every P
  | .first argument => P _ (.first argument) ∧ argument.Every P
  | .next before comma argument => P _ (.next before comma argument) ∧ before.Every P ∧ argument.Every P

/-- The roots of the arguments of a call; of an expression, its own root. -/
def roots {k : PhraseKind} (e : Phrase k) : List TokenId :=
  match e with
  | .first argument => [argument.root]
  | .next before _ argument => before.roots ++ [argument.root]
  | _ => [e.root]

/-- A phrase in grouping parentheses. -/
def isGroup : Phrase k → Bool
  | .group _ _ _ => true
  | _ => false

/-- The word of a name, in grouping parentheses or not. -/
def named {k : PhraseKind} (e : Phrase k) : Option TokenId :=
  match e with
  | .name word => some word
  | .group _ inner _ => inner.named
  | _ => none

/-- The pairs of grouping parentheses around a phrase that belong to it, from the innermost on. -/
def pairs {k : PhraseKind} (e : Phrase k) : List (TokenId × TokenId) :=
  match e with
  | .group opening inner closing => inner.pairs ++ [(opening, closing)]
  | _ => []

/-- What holds of every phrase within one holds of the phrase. -/
theorem Every.self {P : (k : PhraseKind) → Phrase k → Prop} {e : Phrase k} (h : e.Every P) : P k e := by
  cases e with
  | name | literal | qualified => exact h
  | _ => exact h.1

/-- Whether every phrase in a phrase has a property can be decided where it can be for each of them. -/
instance decidableEvery (P : (k : PhraseKind) → Phrase k → Prop) [∀ k (e : Phrase k), Decidable (P k e)]
    {k : PhraseKind} (e : Phrase k) : Decidable (e.Every P) :=
  match e with
  | .name word => inferInstanceAs (Decidable (P _ (.name word)))
  | .literal word => inferInstanceAs (Decidable (P _ (.literal word)))
  | .qualified op word => inferInstanceAs (Decidable (P _ (.qualified op word)))
  | .group _ inner _ => @instDecidableAnd _ _ _ (decidableEvery P inner)
  | .leading _ operand => @instDecidableAnd _ _ _ (decidableEvery P operand)
  | .trailing operand _ => @instDecidableAnd _ _ _ (decidableEvery P operand)
  | .member object _ _ => @instDecidableAnd _ _ _ (decidableEvery P object)
  | .cast _ _ _ operand => @instDecidableAnd _ _ _ (decidableEvery P operand)
  | .keywordCast _ _ _ operand _ => @instDecidableAnd _ _ _ (decidableEvery P operand)
  | .bareCall callee _ _ => @instDecidableAnd _ _ _ (decidableEvery P callee)
  | .first argument => @instDecidableAnd _ _ _ (decidableEvery P argument)
  | .binary left _ right =>
    @instDecidableAnd _ _ _ (@instDecidableAnd _ _ (decidableEvery P left) (decidableEvery P right))
  | .subscript container _ key _ =>
    @instDecidableAnd _ _ _ (@instDecidableAnd _ _ (decidableEvery P container) (decidableEvery P key))
  | .call callee _ arguments _ =>
    @instDecidableAnd _ _ _ (@instDecidableAnd _ _ (decidableEvery P callee) (decidableEvery P arguments))
  | .next before _ argument =>
    @instDecidableAnd _ _ _ (@instDecidableAnd _ _ (decidableEvery P before) (decidableEvery P argument))
  | .conditional selector _ branch _ other =>
    @instDecidableAnd _ _ _ (@instDecidableAnd _ _ (decidableEvery P selector)
      (@instDecidableAnd _ _ (decidableEvery P branch) (decidableEvery P other)))

/-! ## Stems -/

/-- The root is one of the stems. -/
theorem root_mem_stems (e : Phrase k) : e.root ∈ e.stems := by
  induction e with
  | name | literal => exact List.mem_singleton.2 rfl
  | group _ _ _ ih | first _ ih => exact ih
  | _ => simp [root, stems]

/-- The stems stand among the tokens in their order. -/
theorem stems_sublist_tokens (e : Phrase k) : e.stems.Sublist e.tokens := by
  induction e with
  | name | literal | qualified => exact List.Sublist.refl _
  | group _ _ _ ih => exact (ih.trans (List.sublist_append_left _ _)).cons _
  | first _ ih => exact ih
  | leading _ _ ih => exact ih.cons_cons _
  | trailing _ _ ih | member _ _ _ ih | bareCall _ _ _ ih => exact ih.append_right _
  | binary _ _ _ ih ih' | next _ _ _ ih ih' => exact ih.append (ih'.cons_cons _)
  | subscript _ _ _ _ ih ih' | call _ _ _ _ ih ih' => exact (ih.append (ih'.cons_cons _)).append_right _
  | cast _ type _ _ ih => exact ((ih.cons_cons _).trans (List.sublist_append_right type _)).cons_cons _
  | keywordCast _ type _ _ _ ih =>
    exact (((ih.cons_cons _).trans (List.sublist_append_right type _)).cons_cons _).append_right _
  | conditional _ _ _ _ _ ih ih' ih'' => exact (ih.append (ih'.cons_cons _)).append (ih''.cons_cons _)

/-- The first stem of a phrase. -/
def lead (e : Phrase k) : TokenId := e.stems.headD e.root

/-- The last stem of a phrase. -/
def trail (e : Phrase k) : TokenId := e.stems.getLastD e.root

/-- The first token of a phrase. -/
def start (e : Phrase k) : TokenId := e.tokens.headD e.root

/-- The last token of a phrase. -/
def stop (e : Phrase k) : TokenId := e.tokens.getLastD e.root

/-- The stems start with the lead. -/
theorem stems_eq_lead_cons (e : Phrase k) : ∃ rest, e.stems = e.lead :: rest := by
  unfold lead
  cases h : e.stems with
  | nil => exact absurd (h ▸ e.root_mem_stems) List.not_mem_nil
  | cons t rest => exact ⟨rest, rfl⟩

/-- The stems end with the trail. -/
theorem stems_eq_append_trail (e : Phrase k) : ∃ rest, e.stems = rest ++ [e.trail] := by
  unfold trail
  rcases List.eq_nil_or_concat e.stems with h | ⟨rest, t, h⟩
  · exact absurd (h ▸ e.root_mem_stems) List.not_mem_nil
  · exact ⟨rest, by simp [h]⟩

/-- The lead is one of the stems. -/
theorem lead_mem_stems (e : Phrase k) : e.lead ∈ e.stems := by
  obtain ⟨rest, h⟩ := e.stems_eq_lead_cons
  simp [h]

/-- So is the trail. -/
theorem trail_mem_stems (e : Phrase k) : e.trail ∈ e.stems := by
  obtain ⟨rest, h⟩ := e.stems_eq_append_trail
  simp [h]

/-- A phrase whose stems start with those of another one has its lead. -/
theorem lead_of_stems_eq {k' : PhraseKind} {e : Phrase k} {e' : Phrase k'} {rest : List TokenId}
    (h : e.stems = e'.stems ++ rest) : e.lead = e'.lead := by
  obtain ⟨more, hmore⟩ := e'.stems_eq_lead_cons
  rw [lead, h, hmore]
  rfl

/-- A phrase whose stems end with those of another one has its trail. -/
theorem trail_of_stems_eq {k' : PhraseKind} {e : Phrase k} {e' : Phrase k'} {rest : List TokenId}
    (h : e.stems = rest ++ e'.stems) : e.trail = e'.trail := by
  obtain ⟨more, hmore⟩ := e'.stems_eq_append_trail
  rw [trail, h, hmore, ← List.append_assoc]
  exact List.getLastD_concat

/-! ## Edges -/

/-- The first token of a phrase is a stem. -/
def StartsBare (e : Phrase k) : Prop :=
  ∃ rest, e.tokens = e.lead :: rest

/-- The last token of a phrase is a stem. -/
def EndsBare (e : Phrase k) : Prop :=
  ∃ rest, e.tokens = rest ++ [e.trail]

/-- Whether a phrase starts and ends with a stem, so that the tokens around it are those around its stems. -/
def isBare (e : Phrase k) : Bool :=
  e.lead == e.start && e.trail == e.stop

/-- A phrase is bare if it starts and ends bare. -/
theorem isBare_iff {e : Phrase k} : e.isBare = true ↔ e.StartsBare ∧ e.EndsBare := by
  have hmem : e.root ∈ e.tokens := e.stems_sublist_tokens.subset e.root_mem_stems
  have hstart : e.lead = e.start ↔ e.StartsBare := by
    unfold StartsBare start
    cases h : e.tokens with
    | nil => exact absurd (h ▸ hmem) List.not_mem_nil
    | cons t rest => simp [eq_comm]
  have hstop : e.trail = e.stop ↔ e.EndsBare := by
    unfold EndsBare stop
    rcases List.eq_nil_or_concat e.tokens with h | ⟨rest, t, h⟩
    · exact absurd (h ▸ hmem) List.not_mem_nil
    · simp [h, eq_comm]
  simp [isBare, hstart, hstop]

/-- The left edge of a phrase: its first stem is its first token, or a group opens right before it. That group closes inside the
phrase and, unless the phrase is a group itself, before its root. -/
def LeftEdge (P : (k : PhraseKind) → Phrase k → Prop) (e : Phrase k) : Prop :=
  e.StartsBare ∨
    ∃ before opening inner within closing after, e.tokens = before ++ opening :: e.lead :: within ++ closing :: after ∧
      P _ (.group opening inner closing) ∧ (e.isGroup = false → e.root ∈ after)

/-- A phrase that goes on after another one has the same left edge, and its root comes after that. -/
theorem LeftEdge.of_append {P : (k : PhraseKind) → Phrase k → Prop} {k' : PhraseKind} {e : Phrase k} {e' : Phrase k'}
    {rest more : List TokenId} (h : e'.LeftEdge P) (hstems : e.stems = e'.stems ++ more) (htokens : e.tokens = e'.tokens ++ rest)
    (hroot : e.root ∈ rest) : e.LeftEdge P := by
  unfold LeftEdge StartsBare
  rw [lead_of_stems_eq hstems, htokens]
  rcases h with ⟨tail, h⟩ | ⟨before, opening, inner, within, closing, after, h, hP, -⟩
  · exact Or.inl ⟨tail ++ rest, by simp [h]⟩
  · exact Or.inr ⟨before, opening, inner, within, closing, after ++ rest, by simp [h], hP,
      fun _ => List.mem_append_right _ hroot⟩

/-- What holds of every phrase within one holds along its left edge. -/
theorem left_edge {P : (k : PhraseKind) → Phrase k → Prop} {e : Phrase k} (hk : k = .expression) (h : e.Every P) :
    e.LeftEdge P := by
  induction e with
  | first | next => cases hk
  | name | literal | qualified | leading | cast | keywordCast => exact Or.inl ⟨_, rfl⟩
  | binary _ _ _ ih _ => exact (ih hk h.2.1).of_append rfl rfl (by simp [root])
  | subscript _ _ _ _ ih _ | conditional _ _ _ _ _ ih _ _ | call _ _ _ _ ih _ =>
    exact (ih hk h.2.1).of_append (List.append_assoc _ _ _) (List.append_assoc _ _ _) (by simp [root])
  | trailing _ _ ih | member _ _ _ ih | bareCall _ _ _ ih => exact (ih hk h.2).of_append rfl rfl (by simp [root])
  | group opening inner closing ih =>
    right
    rcases ih hk h.2 with ⟨rest, hrest⟩ | ⟨before, opening', inner', within, closing', after, htokens, hP, -⟩
    · exact ⟨[], opening, inner, rest, closing, [], by simp [tokens, hrest, lead, stems, root], h.1, nofun⟩
    · exact ⟨opening :: before, opening', inner', within, closing', after ++ [closing],
        by simp [tokens, htokens, lead, stems, root], hP, nofun⟩

/-- A phrase whose last part is a phrase ends as that does. -/
theorem EndsBare.of_append {k' : PhraseKind} {e : Phrase k} {e' : Phrase k'} (h : e'.EndsBare) (more rest : List TokenId)
    (hstems : e.stems = more ++ e'.stems) (htokens : e.tokens = rest ++ e'.tokens) : e.EndsBare := by
  obtain ⟨init, h⟩ := h
  exact ⟨rest ++ init, by rw [trail_of_stems_eq hstems, htokens, h, List.append_assoc]⟩

/-- There are no grouping parentheses in a phrase. -/
def Ungrouped (e : Phrase k) : Prop :=
  e.Every (fun _ e => e.isGroup = false)

/-- A phrase without groups ends bare. -/
theorem Ungrouped.endsBare {e : Phrase k} (h : e.Ungrouped) : e.EndsBare := by
  induction e with
  | group => cases h.1
  | name | literal => exact ⟨[], rfl⟩
  | qualified op word => exact ⟨[op], rfl⟩
  | trailing | subscript | keywordCast | call => exact ⟨_, by rw [tokens, trail, stems, List.getLastD_concat]⟩
  | member object op word _ => exact ⟨object.tokens ++ [op], by simp [tokens, trail, stems]⟩
  | bareCall callee opening closing _ => exact ⟨callee.tokens ++ [opening], by simp [tokens, trail, stems]⟩
  | first argument ih => exact (ih h.2).of_append [] [] rfl rfl
  | leading op operand ih => exact (ih h.2).of_append [op] [op] rfl rfl
  | cast opening type closing operand ih =>
    exact (ih h.2).of_append [opening, closing] (opening :: type ++ [closing]) rfl (by simp [tokens])
  | binary left op right _ ih =>
    exact (ih h.2.2).of_append (left.stems ++ [op]) (left.tokens ++ [op]) (by simp [stems]) (by simp [tokens])
  | next before comma argument _ ih =>
    exact (ih h.2.2).of_append (before.stems ++ [comma]) (before.tokens ++ [comma]) (by simp [stems]) (by simp [tokens])
  | conditional selector mark branch colon other _ _ ih =>
    exact (ih h.2.2.2).of_append (selector.stems ++ mark :: branch.stems ++ [colon])
      (selector.tokens ++ mark :: branch.tokens ++ [colon]) (by simp [stems]) (by simp [tokens])

/-- Without grouping parentheses in it an expression starts and ends with a stem. -/
theorem Ungrouped.isBare {e : Phrase .expression} (h : e.Ungrouped) : e.isBare = true := by
  refine isBare_iff.2 ⟨?_, h.endsBare⟩
  rcases left_edge rfl h with hbare | ⟨_, _, _, _, _, _, -, hgroup, -⟩
  · exact hbare
  · cases hgroup

end Phrase

end FormatAudit
