import FormatAudit.Finding.OfArgument
import FormatAudit.Proofs.Reporting
import FormatAudit.Proofs.Sharing
import FormatAudit.Proofs.WellFormed
import Mathlib

/-!
# What a finding tells

A finding for a format is made along two ways. A plain variable and a declared constant are recognised by their symbol, without
judging; everything else is judged, and the culprits become notes. Both ways agree with the judgement: there is a finding exactly
if the format is not passed on and not constant (`finding_cases`, `expressionFinding_isOk`). What the finding says is true: the
notes tell of the culprits, one by one and in source order (`Arranged`), and the message quotes a culprit only if it is the only
one and short.
-/

namespace FormatAudit

namespace Location

/-- Locations are compared by their files, then by their lines and then by their columns. -/
theorem le_iff {a b : Location} : a.le b = true ↔
    a.file < b.file ∨ a.file = b.file ∧ (a.line < b.line ∨ a.line = b.line ∧ a.column ≤ b.column) := by
  simp [le]

theorem le_trans {a b c : Location} (hab : a.le b = true) (hbc : b.le c = true) : a.le c = true := by
  rw [le_iff] at hab hbc ⊢
  rcases hab with hab | ⟨hab, hab'⟩
  · rcases hbc with hbc | ⟨hbc, -⟩
    · exact Or.inl (hab.trans hbc)
    · exact Or.inl (hbc ▸ hab)
  · rcases hbc with hbc | ⟨hbc, hbc'⟩
    · exact Or.inl (hab ▸ hbc)
    · exact Or.inr ⟨hab.trans hbc, by omega⟩

theorem le_total (a b : Location) : (a.le b || b.le a) = true := by
  rw [Bool.or_eq_true, le_iff, le_iff]
  rcases lt_trichotomy a.file b.file with h | h | h
  · exact Or.inl (Or.inl h)
  · rcases lt_trichotomy a.line b.line with hline | hline | hline
    · exact Or.inl (Or.inr ⟨h, Or.inl hline⟩)
    · rcases Int.le_total a.column b.column with hcolumn | hcolumn
      · exact Or.inl (Or.inr ⟨h, Or.inr ⟨hline, hcolumn⟩⟩)
      · exact Or.inr (Or.inr ⟨h.symm, Or.inr ⟨hline.symm, hcolumn⟩⟩)
    · exact Or.inr (Or.inr ⟨h.symm, Or.inl hline⟩)
  · exact Or.inr (Or.inl h)

theorem le_refl (a : Location) : a.le a = true :=
  le_iff.2 (Or.inr ⟨rfl, Or.inr ⟨rfl, Int.le_refl _⟩⟩)

end Location

namespace Culprits

/-- A list has the culprits by file, line and column, and those at one location in the order in which they were added. -/
structure Arranged (cs : Culprits) (order : List Expression) : Prop where
  perm : order.Perm cs.members
  sorted : order.Pairwise (fun a b => a.location.le b.location = true)
  stable : ∀ l, order.filter (fun n => n.location = l) = cs.members.filter (fun n => n.location = l)

/-- Sorting the culprits by location arranges them. -/
theorem arranged_bySource (cs : Culprits) : cs.Arranged cs.bySource := by
  have htrans : ∀ a b c : Expression, a.location.le b.location = true → b.location.le c.location = true →
      a.location.le c.location = true := fun _ _ _ => Location.le_trans
  have htotal : ∀ a b : Expression, (a.location.le b.location || b.location.le a.location) = true :=
    fun a b => Location.le_total _ _
  have hperm : cs.bySource.Perm cs.members := List.mergeSort_perm cs.members _
  refine ⟨hperm, List.pairwise_mergeSort htrans htotal cs.members, fun l => ?_⟩
  -- the members at one location are sorted already, so sorting keeps them as they are
  have hsame : (cs.members.filter (fun n => n.location = l)).Pairwise (fun a b => a.location.le b.location = true) := by
    refine List.pairwise_of_forall_mem_list (fun a ha b hb => ?_)
    rw [List.mem_filter, decide_eq_true_eq] at ha hb
    rw [ha.2, hb.2]
    exact l.le_refl
  have hsub : (cs.members.filter (fun n => n.location = l)).Sublist cs.bySource :=
    List.sublist_mergeSort htrans htotal hsame List.filter_sublist
  have hfilter := hsub.filter (fun n => n.location = l)
  rw [List.filter_filter] at hfilter
  simp only [Bool.and_self] at hfilter
  exact (hfilter.eq_of_length (hperm.filter _).length_eq.symm).symm

end Culprits

/-- An expression is a plain name that stands for a variable. -/
def Expression.IsVariable (e : Expression) : Prop :=
  e.kind = .ident ∧ ∃ s, e.symbol = some s ∧ s.kind = .variableName

namespace FindingStyle

/-- The message that quotes a text as the format of a function. -/
def quoting (text function : String) : String :=
  "variable `" ++ text ++ "` used for " ++ function ++ " format parameter"

/-- The message about the format of a function that quotes nothing. -/
def general (function : String) : String :=
  "non-constant expression used for " ++ function ++ " format parameter"

/-- A note tells of a culprit: where it is, and its text. -/
def NotesOn (style : FindingStyle) (n : Expression) (note : Note) : Prop :=
  note.location = n.location ∧ note.stop = some n.stopLocation ∧
    ∃ text, style.printer n = .ok text ∧ note.message = "Non-constant: " ++ text

/-- A finding tells of a variable that is passed to a function: it quotes the variable and notes its declaration, if that is
known. -/
structure TellsVariable (style : FindingStyle) (argument : Expression) (name : String) (f : Finding) : Prop where
  message : ∃ text, style.printer argument = .ok text ∧ f.message = quoting text name
  notes : ∀ s, argument.symbol = some s →
    f.notes = s.declaredAt.toList.map (fun l => { location := l, message := "defined here" })

/-- A finding tells of culprits of the format of a function: there are some, each has one note and the notes are in source order,
and the message quotes a culprit exactly if it is the only one and shorter than 32 characters. -/
structure TellsCulprits (style : FindingStyle) (culprits : Culprits) (name : String) (f : Finding) : Prop where
  blamed : culprits.members ≠ []
  notes : ∃ order, culprits.Arranged order ∧ List.Forall₂ style.NotesOn order f.notes
  quotes : (∃ n ∈ culprits.members, ∃ text, style.printer n = .ok text ∧ f.message = quoting text name) ↔
    ∃ n text, culprits.members = [n] ∧ style.printer n = .ok text ∧ text.length < 32

variable {style : FindingStyle} {argument function : Expression} {name : String}

/-- A message that quotes an expression is never the general one. -/
theorem quoting_ne_general (text name : String) : quoting text name ≠ general name := by
  have hquoting : (quoting text name).toList.head? = some 'v' := by
    unfold quoting
    simp
  have hgeneral : (general name).toList.head? = some 'n' := by
    unfold general
    simp
  intro h
  rw [h, hgeneral] at hquoting
  cases hquoting

/-- Culprits that can be shown have notes, one for each. -/
theorem culpritNotes_isOk {es : List Expression} (hshown : ∀ n ∈ es, ∃ text, style.printer n = .ok text) :
    ∃ notes, style.culpritNotes es = .ok notes ∧ List.Forall₂ style.NotesOn es notes := by
  induction es with
  | nil => exact ⟨[], rfl, .nil⟩
  | cons n es ih =>
    obtain ⟨hn, hes⟩ := List.forall_mem_cons.1 hshown
    obtain ⟨text, htext⟩ := hn
    obtain ⟨notes, hnotes, htell⟩ := ih hes
    refine ⟨{ location := n.location, message := "Non-constant: " ++ text, stop := some n.stopLocation } :: notes, ?_, ?_⟩
    · rw [culpritNotes, htext, hnotes]
      rfl
    · exact .cons ⟨rfl, rfl, text, htext, rfl⟩ htell

/-- The subject of the message, and the two messages that it leads to. -/
theorem subject_isOk {es : List Expression} (hshown : ∀ n ∈ es, ∃ text, style.printer n = .ok text) (name : String) :
    ∃ subject, style.subject es = .ok subject ∧
      ((∃ n text, es = [n] ∧ style.printer n = .ok text ∧ text.length < 32 ∧
          subject ++ " used for " ++ name ++ " format parameter" = quoting text name) ∨
        (¬∃ n text, es = [n] ∧ style.printer n = .ok text ∧ text.length < 32) ∧
          subject ++ " used for " ++ name ++ " format parameter" = general name) := by
  have hgeneral : "non-constant expression" ++ " used for " ++ name ++ " format parameter" = general name := rfl
  rcases es with _ | ⟨n, _ | ⟨n', rest⟩⟩
  · exact ⟨_, rfl, Or.inr ⟨by simp, hgeneral⟩⟩
  · obtain ⟨text, htext⟩ := hshown n List.mem_cons_self
    by_cases hshort : text.length < 32
    · refine ⟨"variable `" ++ text ++ "`", ?_, Or.inl ⟨n, text, rfl, htext, hshort, ?_⟩⟩
      · rw [subject, htext, except_ok_bind, quotedLimit, if_pos hshort]
        rfl
      · simp only [quoting, String.append_assoc]
        rfl
    · refine ⟨"non-constant expression", ?_, Or.inr ⟨?_, hgeneral⟩⟩
      · rw [subject, htext, except_ok_bind, quotedLimit, if_neg hshort]
        rfl
      · rintro ⟨m, text', hm, htext', hshort'⟩
        obtain rfl := List.singleton_inj.1 hm
        obtain rfl := Except.ok.inj (htext.symm.trans htext')
        exact hshort hshort'
  · exact ⟨_, rfl, Or.inr ⟨by simp, hgeneral⟩⟩

/-- The finding for an expression that is judged: there is none if it is constant, and else it tells of the culprits. -/
theorem expressionFinding_isOk (hcomposed : argument.Composed)
    (hshown : ∀ n, argument.Judged n → ∃ text, style.printer n = .ok text) (name : String) {verdict : Bool}
    {culprits : Culprits} (hjudge : argument.judge {} = (verdict, culprits)) :
    ∃ found, (style.expressionFinding argument name).result = .ok found ∧ (found = none ↔ verdict = true) ∧
      ∀ f ∈ found, f.location = argument.location ∧ f.stop = some argument.stopLocation ∧
        style.TellsCulprits culprits name f := by
  have hlogged := Expression.judgeLogged_result_of_judged (fun n hn _ => hshown n hn) {}
  have hblames := Expression.blames_judge hcomposed {}
  rw [hjudge] at hlogged hblames
  rw [expressionFinding, Logged.result_bind, hlogged, except_ok_bind]
  cases verdict with
  | true => exact ⟨none, rfl, by simp, by simp⟩
  | false =>
    have harranged := culprits.arranged_bySource
    have hordered : ∀ n ∈ culprits.bySource, ∃ text, style.printer n = .ok text := by
      intro n hn
      rcases hblames.differsBy.1 n (harranged.perm.mem_iff.1 hn) with hn | hn
      · cases hn
      · exact hshown n (Expression.mem_judgedNodes_iff.1 hn)
    have hsingle : ∀ n, culprits.bySource = [n] ↔ culprits.members = [n] := by
      intro n
      rw [← List.perm_singleton, ← List.perm_singleton]
      exact ⟨harranged.perm.symm.trans, harranged.perm.trans⟩
    obtain ⟨subject, hsubject, hmessage⟩ := subject_isOk hordered name
    obtain ⟨notes, hnotes, htell⟩ := culpritNotes_isOk hordered
    simp only [hsingle] at hmessage
    refine ⟨some (style.findingAt argument (subject ++ " used for " ++ name ++ " format parameter") notes .medium), ?_, by simp,
      ?_⟩
    · simp only [Bool.false_eq_true, if_false, Logged.result_bind, Logged.result_liftM, hsubject, hnotes, except_ok_bind,
        Logged.result_pure]
    · rintro f ⟨⟩
      refine ⟨rfl, rfl, ?_, ⟨_, harranged, htell⟩, ?_⟩
      · obtain ⟨n, -, hhas⟩ := hblames.blamed rfl
        intro hnil
        simp [Culprits.has, hnil] at hhas
      · rcases hmessage with ⟨n, text, hn, htext, hshort, hquoting⟩ | ⟨hnot, hgeneral⟩
        · exact ⟨fun _ => ⟨n, text, hn, htext, hshort⟩, fun _ => ⟨n, by simp [hn], text, htext, hquoting⟩⟩
        · refine ⟨fun hquotes => ?_, fun hsole => absurd hsole hnot⟩
          obtain ⟨_, -, text, -, hquoting⟩ := hquotes
          exact absurd (hquoting.symm.trans hgeneral) (quoting_ne_general text name)

/-- The finding for a variable quotes it. -/
theorem variableFinding_isOk {s : Symbol} (hsymbol : argument.symbol = some s) {text : String}
    (htext : style.printer argument = .ok text) (name : String) :
    ∃ f, style.variableFinding argument name s = .ok f ∧ f.location = argument.location ∧
      f.stop = some argument.stopLocation ∧ style.TellsVariable argument name f := by
  rw [variableFinding, htext, except_ok_bind]
  refine ⟨_, rfl, rfl, rfl, ⟨text, htext, rfl⟩, ?_⟩
  intro s' hs'
  obtain rfl := Option.some.inj (hsymbol.symm.trans hs')
  cases hdeclared : s.declaredAt with
  | none => simp [findingAt]
  | some l => simp [findingAt]

/-- The three ways to a finding for a format that is not passed on: none for the name of a declared constant, that of a variable,
and that of an expression which is judged. -/
theorem finding_cases (argument : Expression) (hname : style.printer function = .ok name) :
    (argument.Constant ∧ (style.finding argument function false).result = .ok none) ∨
    (∃ s, argument.kind = .ident ∧ argument.symbol = some s ∧ s.kind = .variableName ∧
      (style.finding argument function false).result = (style.variableFinding argument name s).map some) ∨
    (¬argument.IsVariable ∧
      (style.finding argument function false).result = (style.expressionFinding argument name).result) := by
  rw [finding, if_neg Bool.false_ne_true, Logged.result_bind, Logged.result_liftM, hname, except_ok_bind]
  split
  · rename_i s hkind hsymbol
    split
    · rename_i hconst
      refine Or.inl ⟨?_, rfl⟩
      rw [Expression.constant_of_ident hkind, Expression.isConstantName, hsymbol, beq_iff_eq]
      exact hconst
    · rename_i hvariable
      exact Or.inr (Or.inl ⟨s, hkind, hsymbol, hvariable, by cases style.variableFinding argument name s <;> rfl⟩)
    · rename_i hvariable
      refine Or.inr (Or.inr ⟨?_, rfl⟩)
      rintro ⟨-, s', hs', hvariable'⟩
      obtain rfl := Option.some.inj (hsymbol.symm.trans hs')
      exact hvariable hvariable'
  · rename_i hother
    refine Or.inr (Or.inr ⟨?_, rfl⟩)
    rintro ⟨hkind, s, hsymbol, -⟩
    exact hother s hkind hsymbol

/-- Whether there is a finding for a format depends on two things: whether it is passed on, and the verdict on it. A finding is
located at the format. For a variable it quotes the variable and notes where that is declared; for anything else it has one note
for each culprit of the judgement, in source order, and quotes a culprit exactly if it is the only one and short. -/
theorem finding_tells_verdict (style : FindingStyle) (argument function : Expression) (forwarded : Bool)
    (hargument : argument.Everywhere Expression.Complete)
    (hshown : ∀ n, argument.Judged n → ∃ text, style.printer n = .ok text) (name : String)
    (hname : style.printer function = .ok name) :
    ∃ verdict culprits found, (argument.judgeLogged style.printer {}).result = .ok (verdict, culprits) ∧
      (style.finding argument function forwarded).result = .ok found ∧
      (found = none ↔ forwarded = true ∨ verdict = true) ∧
      ∀ f ∈ found, f.location = argument.location ∧ f.stop = some argument.stopLocation ∧
        (argument.IsVariable → style.TellsVariable argument name f) ∧
        (¬argument.IsVariable → style.TellsCulprits culprits name f) := by
  have hcomposed := Expression.composed_of_complete hargument
  have hverdict := Expression.judge_verdict hcomposed {}
  have hlogged := Expression.judgeLogged_result_of_judged (fun n hn _ => hshown n hn) {}
  rcases hjudge : argument.judge {} with ⟨verdict, culprits⟩
  rw [hjudge] at hverdict hlogged
  refine ⟨verdict, culprits, ?_⟩
  cases forwarded with
  | true => exact ⟨none, hlogged, rfl, by simp, by simp⟩
  | false =>
    simp only [Bool.false_eq_true, false_or]
    rcases finding_cases argument hname with ⟨hconstant, hresult⟩ | ⟨s, hkind, hsymbol, hvariable, hresult⟩ |
      ⟨hvariable, hresult⟩
    · exact ⟨none, hlogged, hresult, iff_of_true rfl (hverdict.2 hconstant), by simp⟩
    · obtain ⟨text, htext⟩ := hshown argument (.self argument)
      obtain ⟨f, hf, hlocation, hstop, htell⟩ := variableFinding_isOk hsymbol htext name
      have hnot : ¬verdict = true := by
        intro hconstant
        have hconst := (Expression.constant_of_ident hkind).1 (hverdict.1 hconstant)
        rw [Expression.isConstantName, hsymbol, beq_iff_eq, hvariable] at hconst
        cases hconst
      refine ⟨some f, hlogged, by rw [hresult, hf]; rfl, by simp [hnot], ?_⟩
      rintro f ⟨⟩
      exact ⟨hlocation, hstop, fun _ => htell, fun hno => absurd ⟨hkind, s, hsymbol, hvariable⟩ hno⟩
    · obtain ⟨found, hfound, hnone, htells⟩ := expressionFinding_isOk hcomposed hshown name hjudge
      refine ⟨found, hlogged, hresult.trans hfound, hnone, fun f hf => ?_⟩
      obtain ⟨hlocation, hstop, htell⟩ := htells f hf
      exact ⟨hlocation, hstop, fun h => absurd h hvariable, fun _ => htell⟩

end FindingStyle

namespace EnclosedSum

/-- The name of a variable or a constant at a column. -/
def name (id : Nat) (text : String) (kind : SymbolSort) (column : Int) : Expression :=
  .leaf { id, kind := .ident, text, location := { line := 5, column },
          symbol := some { key := { space := "var", id := .text text }, name := text, kind } }

/-- The format `(v + C)`, where `v` is a variable and `C` a declared constant. -/
def format : Expression :=
  .node { id := 1, kind := .paren, location := { line := 5, column := 8 } }
    [.node { id := 2, kind := .binary, op := "+", location := { line := 5, column := 9 } }
      [name 3 "v" .variableName 9, name 4 "C" .constantName 13] none] none

def function : Expression :=
  .leaf { kind := .ident, text := "printf" }

theorem complete : format.Everywhere Expression.Complete := by
  simp [format, name, Expression.leaf, Expression.everywhere_node, Expression.Complete, Expression.kind, Expression.info,
    Expression.operands]

end EnclosedSum

/-- Judging `(v + C)` blames `v` and then the whole; the notes have the whole first, since it starts further left. -/
theorem enclosed_sum_told : EnclosedSum.format.Everywhere Expression.Complete ∧
    ∃ culprits f, (EnclosedSum.format.judgeLogged Expression.render {}).result = .ok (false, culprits) ∧
      culprits.members.map Expression.id = [3, 1] ∧
      (({} : FindingStyle).finding EnclosedSum.format EnclosedSum.function false).result = .ok (some f) ∧
      f.message = "non-constant expression used for printf format parameter" ∧
      f.notes.map Note.message = ["Non-constant: (v + C)", "Non-constant: v"] ∧
      ({} : FindingStyle).TellsCulprits culprits "printf" f := by
  have hshown : ∀ n, EnclosedSum.format.Judged n → ∃ text, Expression.render n = .ok text :=
    fun n hn => Expression.render_isOk_of_complete (EnclosedSum.complete.judged hn)
  obtain ⟨verdict, culprits, found, hjudge, hfound, -, htells⟩ := FindingStyle.finding_tells_verdict {} EnclosedSum.format
    EnclosedSum.function false EnclosedSum.complete hshown "printf" rfl
  have hculprits : (EnclosedSum.format.judgeLogged Expression.render {}).result =
      .ok (false, { members := [EnclosedSum.name 3 "v" .variableName 9, EnclosedSum.format] }) := rfl
  obtain ⟨rfl, rfl⟩ := Prod.mk.inj (Except.ok.inj (hjudge.symm.trans hculprits))
  have hmessages : (({} : FindingStyle).finding EnclosedSum.format EnclosedSum.function false).result.map
      (fun found => found.map (fun f => (f.message, f.notes.map Note.message))) =
      .ok (some ("non-constant expression used for printf format parameter",
        ["Non-constant: (v + C)", "Non-constant: v"])) := by cbv
  rw [hfound] at hmessages
  obtain ⟨f, rfl, hf⟩ := Option.map_eq_some_iff.1 (Except.ok.inj hmessages)
  obtain ⟨hmessage, hnotes⟩ := Prod.mk.inj hf
  have hvariable : ¬EnclosedSum.format.IsVariable := fun h => Kind.noConfusion h.1
  exact ⟨EnclosedSum.complete, _, f, hjudge, rfl, hfound, hmessage, hnotes, (htells f rfl).2.2.2 hvariable⟩

end FormatAudit
