import FormatAudit.Proofs.Outline
import FormatAudit.Proofs.Recovery

/-!
# Phrases without grouping parentheses in them

Without grouping parentheses in it, a phrase starts and ends with a stem, and so do all phrases in it. What is found from the
stems is then what is written (`image_found_of_ungrouped`): a tree that has one node for each phrase, from the first to the last
token of that phrase, in as many parentheses as stand around it.
-/

namespace FormatAudit

namespace Configuration

variable {c : Configuration} {k : PhraseKind} {before after : List TokenId} {around : List (TokenId × TokenId)}

/-- What starts and ends with a stem is found as it is written. -/
theorem nodeOf_of_bare {e : Phrase .expression} (h : e.isBare = true) (n : Node) (operands : List Expression)
    (callee : Option Expression) : c.nodeOf .found e around n operands callee = c.nodeOf .written e around n operands callee := by
  obtain ⟨hlead, htrail⟩ : e.lead = e.start ∧ e.trail = e.stop := by simpa [Phrase.isBare] using h
  simp only [nodeOf, Reading.found, Reading.written, hlead, htrail, h]

/-- A phrase without grouping parentheses in it is found as it is written. -/
theorem image_found_of_ungrouped {e : Phrase k} (h : e.Ungrouped) (around : List (TokenId × TokenId)) :
    c.image .found e around = c.image .written e around := by
  induction e generalizing around with
  | group => cases h.1
  | name | literal | qualified => rw [image, image, nodeOf_of_bare h.isBare]
  | leading _ _ ih | trailing _ _ ih | member _ _ _ ih | cast _ _ _ _ ih | keywordCast _ _ _ _ _ ih | bareCall _ _ _ ih =>
    simp only [image, nodeOf_of_bare h.isBare, ih h.2]
  | binary _ _ _ ih ih' | subscript _ _ _ _ ih ih' | call _ _ _ _ ih ih' =>
    simp only [image, nodeOf_of_bare h.isBare, ih h.2.1, ih' h.2.2]
  | conditional _ _ _ _ _ ih ih' ih'' => simp only [image, nodeOf_of_bare h.isBare, ih h.2.1, ih' h.2.2.1, ih'' h.2.2.2]
  | first _ ih => simp only [image, ih h.2]
  | next _ _ _ ih ih' => simp only [image, ih h.2.1, ih' h.2.2]

/-- In a reading that keeps all parentheses, those right around a phrase are put around its image. -/
theorem image_eq_wrap {r : Reading} (hkeeps : ∀ e, r.keeps e = true) :
    (e : Phrase .expression) → (around : List (TokenId × TokenId)) → c.image r e around = c.wrap around (c.image r e [])
  | .group opening inner closing, around => by
    rw [image, image, image_eq_wrap hkeeps inner, image_eq_wrap hkeeps inner [_]]
    rfl
  | .keywordCast keyword type opening operand closing, around => by
    simp only [image, nodeOf, hkeeps, if_true]
    split <;> rfl
  | .name _, around | .literal _, around | .qualified _ _, around | .leading _ _, around | .trailing _ _, around
  | .member _ _ _, around | .cast _ _ _ _, around | .bareCall _ _ _, around | .binary _ _ _, around
  | .subscript _ _ _ _, around | .call _ _ _ _, around | .conditional _ _ _ _ _, around => by
    simp only [image, nodeOf, hkeeps, if_true]
    rfl

/-! ## Ordinary nodes -/

/-- A node that is neither in parentheses nor unknown. -/
def Ordinary (x : Expression) : Prop :=
  x.kind ≠ .paren ∧ x.kind ≠ .unknown

/-- All nodes of what a phrase becomes are ordinary. -/
def OrdinaryImage : {k : PhraseKind} → Image k → Prop
  | .expression, x => x.Everywhere Ordinary
  | .arguments, xs => ∀ x ∈ xs, x.Everywhere Ordinary

/-- A written node is ordinary if its operands and its callee are and it is neither opaque nor a pair of parentheses. -/
theorem ordinary_nodeOf {e : Phrase .expression} {n : Node} {operands : List Expression} {callee : Option Expression}
    (hkind : n.kind ≠ .paren ∧ n.kind ≠ .unknown) (hoperands : ∀ x ∈ operands, x.Everywhere Ordinary)
    (hcallee : ∀ x ∈ callee, x.Everywhere Ordinary) : (c.nodeOf .written e [] n operands callee).Everywhere Ordinary :=
  .node hkind hoperands hcallee

/-- A name is ordinary. -/
theorem ordinary_ident (text : String) (symbol : Option Symbol) (location : Location) :
    (Expression.ident text symbol location).Everywhere Ordinary :=
  Expression.everywhere_leaf (by simp [Ordinary, Expression.kind, Expression.info])

/-- The callee of a call without groups is ordinary if it was before. -/
theorem ordinary_calleeImage {callee : Phrase .expression} (h : callee.Ungrouped) {x : Expression}
    (hx : x.Everywhere Ordinary) : (c.calleeImage callee x).Everywhere Ordinary := by
  unfold calleeImage
  split
  · have hpairs : callee.pairs = [] := by
      cases callee with
      | group => cases h.1
      | _ => rfl
    rw [hpairs]
    exact ordinary_ident _ _ _
  · split
    · obtain ⟨hkind, hoperands, hcallee⟩ := hx
      exact .node hkind hoperands hcallee
    · exact hx

/-- Without grouping parentheses in a phrase there are none in its image, and nothing in it is unknown. -/
theorem ordinary_image {e : Phrase k} (h : e.Ungrouped) : OrdinaryImage (c.image .written e []) := by
  induction e with
  | group => cases h.1
  | name | literal | qualified => exact ordinary_nodeOf (by simp) (by simp) (by simp)
  | leading op operand ih =>
    refine ordinary_nodeOf ?_ (List.forall_mem_singleton.2 (ih h.2)) (by simp)
    split <;> simp
  | trailing _ _ ih | member _ _ _ ih => exact ordinary_nodeOf (by simp) (List.forall_mem_singleton.2 (ih h.2)) (by simp)
  | cast _ _ _ _ ih =>
    exact ordinary_nodeOf (by simp) (List.forall_mem_singleton.2 (ih h.2)) (by simpa using ordinary_ident _ _ _)
  | keywordCast _ _ _ _ _ ih =>
    rw [image]
    split
    · exact ordinary_nodeOf (by simp) (List.forall_mem_singleton.2 (ih h.2)) (by simp)
    · exact ordinary_nodeOf (by simp) (List.forall_mem_singleton.2 (ih h.2)) (by simpa using ordinary_ident _ _ _)
  | binary _ _ _ ih ih' | subscript _ _ _ _ ih ih' =>
    exact ordinary_nodeOf (by simp) (by simpa using ⟨ih h.2.1, ih' h.2.2⟩) (by simp)
  | conditional _ _ _ _ _ ih ih' ih'' =>
    exact ordinary_nodeOf (by simp) (by simpa using ⟨ih h.2.1, ih' h.2.2.1, ih'' h.2.2.2⟩) (by simp)
  | bareCall _ _ _ ih => exact ordinary_nodeOf (by simp) (by simp) (by simpa using ordinary_calleeImage h.2 (ih h.2))
  | call _ _ _ _ ih ih' =>
    exact ordinary_nodeOf (by simp) (ih' h.2.2) (by simpa using ordinary_calleeImage h.2.1 (ih h.2.1))
  | first _ ih =>
    intro x hx
    rw [List.mem_singleton.1 hx]
    exact ih h.2
  | next _ _ _ ih ih' =>
    intro x hx
    rcases List.mem_append.1 hx with hx | hx
    · exact ih h.2.1 x hx
    · rw [List.mem_singleton.1 hx]
      exact ih' h.2.2

/-- A phrase without grouping parentheses in it becomes the tree that it is written as, in the parentheses that stand around it,
and no other node of that tree is in parentheses or unknown. -/
theorem expression_mirrors_phrase {e : Phrase .expression} (hstream : c.Stream) (h : c.Stands before around e after)
    (hwired : c.Wired e) (hungrouped : e.Ungrouped) (hheight : e.height ≤ depthLimit) :
    (c.source.expression (some e.root)).result = .ok (c.wrap around (c.image .written e [])).numbered ∧
      (c.image .written e []).Everywhere Ordinary := by
  refine ⟨?_, ordinary_image hungrouped⟩
  rw [hstream.expression_of_phrase h hwired hheight, image_found_of_ungrouped hungrouped, image_eq_wrap (fun _ => rfl)]

namespace Selection

/-- The tokens of `(p->f(a, 1) ? (int)b : c[i]++)`. -/
def config : Configuration :=
  inARow [{ text := "(", link := some 20 }, { text := "p", isName := true },
    { text := ".", spelling := "->", operand1 := some 1, operand2 := some 3 }, { text := "f", isName := true },
    { text := "(", operand1 := some 2, operand2 := some 6, link := some 8 }, { text := "a", isName := true },
    { text := ",", operand1 := some 5, operand2 := some 7 }, { text := "1", isNumber := true }, { text := ")", link := some 4 },
    { text := "?", operand1 := some 4, operand2 := some 14 },
    { text := "(", isCast := true, operand1 := some 13, link := some 12 }, { text := "int", isName := true },
    { text := ")", link := some 10 }, { text := "b", isName := true }, { text := ":", operand1 := some 10, operand2 := some 19 },
    { text := "c", isName := true }, { text := "[", operand1 := some 15, operand2 := some 17, link := some 18 },
    { text := "i", isName := true }, { text := "]", link := some 16 }, { text := "++", operand1 := some 16 },
    { text := ")", link := some 0 }]

/-- What stands in the parentheses. -/
def phrase : Phrase .expression :=
  .conditional (.call (.member (.name 1) 2 3) 4 (.next (.first (.name 5)) 6 (.literal 7)) 8) 9 (.cast 10 [11] 12 (.name 13)) 14
    (.trailing (.subscript (.name 15) 16 (.name 17) 18) 19)

theorem stream : config.Stream :=
  stream_of_checks (by decide) (by decide) (by decide) (by decide) (by decide)
    (by decide)

theorem stands : config.Stands [] [(0, 20)] phrase [] where
  list := by decide
  grouped := by decide
  detached := nofun

theorem wired : config.Wired phrase := by
  unfold Wired
  decide

theorem ungrouped : phrase.Ungrouped := by
  unfold Phrase.Ungrouped
  decide

end Selection

/-- The tree of `(p->f(a, 1) ? (int)b : c[i]++)` is one pair of parentheses around the tree that mirrors the conditional. -/
theorem selection_mirrored : Selection.config.Stream ∧ Selection.config.Stands [] [(0, 20)] Selection.phrase [] ∧
    (Selection.config.source.expression (some 9)).result =
      .ok (Selection.config.wrap [(0, 20)] (Selection.config.image .written Selection.phrase [])).numbered :=
  ⟨Selection.stream, Selection.stands,
    (expression_mirrors_phrase Selection.stream Selection.stands Selection.wired Selection.ungrouped (by decide)).1⟩

namespace CommaCast

/-- The tokens of `static_cast<T>(a, b)`. -/
def config : Configuration :=
  inARow [{ text := "static_cast", isName := true }, { text := "<", link := some 3 }, { text := "T", isName := true },
    { text := ">", link := some 1 }, { text := "(", operand1 := some 0, operand2 := some 6, link := some 8 },
    { text := "a", isName := true }, { text := ",", operand1 := some 5, operand2 := some 7 }, { text := "b", isName := true },
    { text := ")", link := some 4 }]

/-- A cast of a comma expression. -/
def phrase : Phrase .expression :=
  .keywordCast 0 [1, 2, 3] 4 (.binary (.name 5) 6 (.name 7)) 8

theorem stream : config.Stream :=
  stream_of_checks (by decide) (by decide) (by decide) (by decide) (by decide)
    (by decide)

theorem stands : config.Stands [] [] phrase [] :=
  ⟨by decide, nofun, nofun⟩

end CommaCast

namespace LiteralCallee

/-- The tokens of `true(x)`. -/
def config : Configuration :=
  inARow [{ text := "true", isName := true, isBoolean := true },
    { text := "(", operand1 := some 0, operand2 := some 2, link := some 3 }, { text := "x", isName := true },
    { text := ")", link := some 1 }]

/-- A call of a literal. -/
def phrase : Phrase .expression :=
  .call (.literal 0) 1 (.first (.name 2)) 3

theorem stream : config.Stream :=
  stream_of_checks (by decide) (by decide) (by decide) (by decide) (by decide)
    (by decide)

theorem stands : config.Stands [] [] phrase [] :=
  ⟨by decide, nofun, nofun⟩

end LiteralCallee

/-- A comma expression in a cast by a keyword becomes two operands, and a literal that is called becomes a name: these phrases
are laid out in streams and hold no grouping parentheses, and are not mirrored. -/
theorem comma_cast_and_literal_callee_not_mirrored :
    (CommaCast.config.Stream ∧ CommaCast.config.Stands [] [] CommaCast.phrase [] ∧ CommaCast.phrase.Ungrouped ∧
      (CommaCast.config.image .written CommaCast.phrase []).operands.map (·.kind) = [.binary] ∧
      (CommaCast.config.source.expression (some 4)).result.toOption.map (·.operands.map (·.kind)) = some [.ident, .ident]) ∧
    LiteralCallee.config.Stream ∧ LiteralCallee.config.Stands [] [] LiteralCallee.phrase [] ∧ LiteralCallee.phrase.Ungrouped ∧
      (LiteralCallee.config.image .written LiteralCallee.phrase []).callee.map (·.kind) = some .literal ∧
      (LiteralCallee.config.source.expression (some 1)).result.toOption.map (·.callee.map (·.kind)) = some (some .ident) :=
  ⟨⟨CommaCast.stream, CommaCast.stands, ⟨rfl, rfl, rfl, rfl⟩, by decide, by cbv⟩,
    LiteralCallee.stream, LiteralCallee.stands, ⟨rfl, rfl, rfl, rfl⟩, by decide, by cbv⟩

end Configuration

end FormatAudit
