import Mathlib
import FormatAudit.SExpr.Printer
import FormatAudit.SExpr.Reader
import FormatAudit.Proofs.Numerals

/-!
# Reading forms back

Forms of names, strings, whole numbers and lists (`Plain`) can be read back from what the printer writes for them.

The reader goes over the characters of such a form, whatever it has read before, and has one item more than before
(`ReadsAs`): over an atom by `Reader.run_atom`, over a string by `Reader.run_stringChars`, over a list by `Reader.run_enclosed`.
The item is the form itself, except that a whole number is what its numeral is read as (`readBack`), which is the number only if
it has not too many digits (`Plain.readBack_eq_self_iff`).

The characters of a form also tell where it ends (`Plain.selfDelimiting`), so different forms have different texts
(`Plain.text_inj`). This holds for numbers of any length, which is why it is not taken from the reader.
-/

namespace FormatAudit.SExpr

/-! ## Forms that are written plainly -/

/-- Whether a character stands for itself inside an atom. -/
def isAtomChar (c : Char) : Bool :=
  !endsAtom c && c != '\\'

/-- A text that is one atom. An apostrophe in front would quote it. -/
structure IsAtom (w : List Char) : Prop where
  ne_nil : w ≠ []
  chars : ∀ c ∈ w, isAtomChar c = true
  start : w.head? ≠ some (Char.ofNat 39)

/-- Whether a character starts an atom that is neither quoted nor a number. -/
def startsName (c : Char) : Bool :=
  !c.isDigit && c != '-' && c != Char.ofNat 39

/-- A name that is written and read as a symbol. -/
structure IsName (name : String) : Prop where
  chars : name.toList.all isAtomChar = true
  start : name.toList.head?.any startsName = true
  ofAtom : SExpr.ofAtom name = .symbol name

/-- A name starts with a character that starts no number and no quotation. -/
theorem IsName.exists_cons {name : String} (h : IsName name) :
    ∃ c w, name.toList = c :: w ∧ c.isDigit = false ∧ c ≠ '-' ∧ c ≠ Char.ofNat 39 := by
  have hstart := h.start
  cases hname : name.toList with
  | nil =>
    rw [hname] at hstart
    cases hstart
  | cons c w =>
    rw [hname, List.head?_cons, Option.any_some, startsName, Bool.and_eq_true, Bool.and_eq_true] at hstart
    obtain ⟨⟨hdigit, hminus⟩, hquote⟩ := hstart
    exact ⟨c, w, rfl, by simpa using hdigit, by simpa using hminus, by simpa using hquote⟩

/-- A name is an atom. -/
theorem IsName.isAtom {name : String} (h : IsName name) : IsAtom name.toList := by
  obtain ⟨c, w, hname, -, -, hquote⟩ := h.exists_cons
  refine ⟨by rw [hname]; exact List.cons_ne_nil c w, List.all_eq_true.1 h.chars, ?_⟩
  rw [hname]
  intro hhead
  exact hquote (Option.some.inj hhead)

/-- Forms of names, strings, whole numbers, lists and lists in brackets. -/
inductive Plain : SExpr → Prop where
  | symbol {name : String} (h : IsName name) : Plain (.symbol name)
  | string (text : String) : Plain (.string text)
  | whole (n : Int) : Plain (.whole n)
  | list {items : List SExpr} (h : ∀ x ∈ items, Plain x) : Plain (.list items)
  | brackets {items : List SExpr} (h : ∀ x ∈ items, Plain x) : Plain (.brackets items)

mutual

/-- The form that is read where this one is written: a whole number is what its text is read as. -/
def readBack : SExpr → SExpr
  | .whole n => ofAtom (Number.intText n)
  | .list items => .list (readBackAll items)
  | .brackets items => .brackets (readBackAll items)
  | x => x

/-- The forms that are read where these are written. -/
def readBackAll : List SExpr → List SExpr
  | [] => []
  | x :: xs => readBack x :: readBackAll xs

end

/-- Forms are read back one by one. -/
theorem readBackAll_eq (xs : List SExpr) : readBackAll xs = xs.map readBack := by
  induction xs with
  | nil => rfl
  | cons x xs ih => rw [readBackAll, ih, List.map_cons]

/-- The numbers in forms are those in each of them. -/
theorem numbersOfAll_eq (xs : List SExpr) : numbersOfAll xs = xs.flatMap numbers := by
  induction xs with
  | nil => rfl
  | cons x xs ih => rw [numbersOfAll, ih, List.flatMap_cons]

/-- The items of a list after the first one, each with a space in front. -/
def moreChars : List SExpr → List Char
  | [] => []
  | x :: xs => ' ' :: chars x ++ moreChars xs

/-- Items are written as the first one and what follows it. -/
theorem itemChars_cons (x : SExpr) (xs : List SExpr) : itemChars (x :: xs) = chars x ++ moreChars xs := by
  induction xs generalizing x with
  | nil => rw [itemChars, moreChars, List.append_nil]
  | cons y xs ih => rw [itemChars, ih, moreChars, List.cons_append]; simp

/-! ## Steps of the reader -/

namespace Reader

/-- The reader goes on after the character that it took. -/
theorem run_cons {r r' : Reader} {c : Char} {cs : List Char} (h : r.take c (c :: cs) = .ok r') :
    run (c :: cs) r = run cs { r' with position := r'.position + 1 } := by
  rw [run, h]

/-- Between forms it goes on in the same way. -/
theorem run_between {items : List SExpr} {stack : List (Opening × List SExpr)} {position : Nat} {r : Reader} {c : Char}
    {cs : List Char} (h : takeBetween { items, stack, position } c (c :: cs) = .ok r) :
    run (c :: cs) { items, stack, position } = run cs { r with position := r.position + 1 } :=
  run_cons h

/-- An atom ends at a character that ends atoms. -/
theorem run_endAtom {items : List SExpr} {stack : List (Opening × List SExpr)} {text : List Char} {position : Nat} {c : Char}
    (hc : endsAtom c = true) (cs : List Char) :
    run (c :: cs) { items, stack, mode := .atom text, position } =
      run (c :: cs) { items := ofAtom (String.ofList text.reverse) :: items, stack, position } := by
  rw [run, run]
  simp only [take, hc, ↓reduceIte, endAtom]

/-- The reader collects the characters of an atom. -/
theorem run_atomChars {w : List Char} (hw : ∀ c ∈ w, isAtomChar c = true) (items : List SExpr)
    (stack : List (Opening × List SExpr)) (text : List Char) (position : Nat) (rest : List Char) :
    ∃ p, run (w ++ rest) { items, stack, mode := .atom text, position } =
      run rest { items, stack, mode := .atom (w.reverse ++ text), position := p } := by
  induction w generalizing text position with
  | nil => exact ⟨position, rfl⟩
  | cons c w ih =>
    obtain ⟨hc, hw⟩ := List.forall_mem_cons.1 hw
    have hend : endsAtom c = false := by simpa using (Bool.and_eq_true_iff.1 hc).1
    have hslash : c ≠ '\\' := by simpa using (Bool.and_eq_true_iff.1 hc).2
    obtain ⟨p, hp⟩ := ih hw (c :: text) (position + 1)
    refine ⟨p, ?_⟩
    rw [List.cons_append, run_cons (show take _ c _ = .ok { items, stack, mode := .atom (c :: text), position } by
      simp [take, hend, hslash]), hp, List.reverse_cons, List.append_assoc]
    rfl

/-- A character of an atom starts one. -/
theorem takeBetween_atomChar {c : Char} (hc : isAtomChar c = true) (hquote : c ≠ Char.ofNat 39) (r : Reader) (rest : List Char) :
    r.takeBetween c rest = .ok { r with mode := .atom [c] } := by
  simp only [isAtomChar, endsAtom, Bool.and_eq_true, Bool.not_eq_true', Bool.or_eq_false_iff, beq_eq_false_iff_ne,
    bne_iff_ne] at hc
  simp [takeBetween, hc, hquote]

/-- An atom becomes one item. -/
theorem run_atom {w : List Char} (hw : IsAtom w) (items : List SExpr) (stack : List (Opening × List SExpr)) (position : Nat)
    {c : Char} (hc : endsAtom c = true) (cs : List Char) :
    ∃ p, run (w ++ c :: cs) { items, stack, position } =
      run (c :: cs) { items := ofAtom (String.ofList w) :: items, stack, position := p } := by
  obtain ⟨a, w, rfl⟩ := List.exists_cons_of_ne_nil hw.ne_nil
  obtain ⟨ha, hrest⟩ := List.forall_mem_cons.1 hw.chars
  have hquote : a ≠ Char.ofNat 39 := by
    rintro rfl
    exact hw.start rfl
  obtain ⟨p, hp⟩ := run_atomChars hrest items stack [a] (position + 1) (c :: cs)
  refine ⟨p, ?_⟩
  rw [List.cons_append, run_between (takeBetween_atomChar ha hquote _ _), hp, run_endAtom hc, List.reverse_append,
    List.reverse_reverse]
  rfl

end Reader

/-- A character in a string is written behind a backslash or as it is. -/
theorem stringChar_cases (c : Char) :
    (∃ e, stringChar c = ['\\', e] ∧ unescapeString e = [c]) ∨ stringChar c = [c] ∧ c ≠ '\\' ∧ c ≠ '"' := by
  fun_cases stringChar c with
  | case1 h => exact .inl ⟨'\\', rfl, by rw [h]; rfl⟩
  | case2 _ h => exact .inl ⟨'"', rfl, by rw [h]; rfl⟩
  | case3 _ _ h => exact .inl ⟨'b', rfl, by rw [h]; rfl⟩
  | case4 _ _ _ h => exact .inl ⟨'f', rfl, by rw [h]; rfl⟩
  | case5 _ _ _ _ h => exact .inl ⟨'n', rfl, by rw [h]; rfl⟩
  | case6 _ _ _ _ _ h => exact .inl ⟨'r', rfl, by rw [h]; rfl⟩
  | case7 _ _ _ _ _ _ h => exact .inl ⟨'t', rfl, by rw [h]; rfl⟩
  | case8 hslash hquote => exact .inr ⟨rfl, hslash, hquote⟩

namespace Reader

/-- A character of a string, escaped or not, is read as itself. -/
theorem run_stringChar (c : Char) (items : List SExpr) (stack : List (Opening × List SExpr)) (text : List Char) (position : Nat)
    (rest : List Char) :
    ∃ p, run (stringChar c ++ rest) { items, stack, mode := .string text, position } =
      run rest { items, stack, mode := .string (c :: text), position := p } := by
  rcases stringChar_cases c with ⟨e, hchar, hback⟩ | ⟨hchar, hslash, hquote⟩
  · refine ⟨position + 1 + 1, ?_⟩
    rw [hchar]
    change run rest { items, stack, mode := .string (unescapeString e ++ text), position := _ } = _
    rw [hback]
    rfl
  · refine ⟨position + 1, ?_⟩
    rw [hchar, List.singleton_append,
      run_cons (show take _ c _ = .ok { items, stack, mode := .string (c :: text), position } by simp [take, hslash, hquote])]

/-- The characters of a string are read as they are. -/
theorem run_stringChars (l : List Char) (items : List SExpr) (stack : List (Opening × List SExpr)) (text : List Char)
    (position : Nat) (rest : List Char) :
    ∃ p, run (l.flatMap stringChar ++ rest) { items, stack, mode := .string text, position } =
      run rest { items, stack, mode := .string (l.reverse ++ text), position := p } := by
  induction l generalizing text position with
  | nil => exact ⟨position, rfl⟩
  | cons c l ih =>
    obtain ⟨q, hq⟩ := run_stringChar c items stack text position (l.flatMap stringChar ++ rest)
    obtain ⟨p, hp⟩ := ih (c :: text) q
    refine ⟨p, ?_⟩
    rw [List.flatMap_cons, List.append_assoc, hq, hp, List.reverse_cons, List.append_assoc]
    rfl

end Reader

/-! ## What a written form is read as -/

/-- The characters of one form, followed by the end of an atom, become another form as one item, whatever was read before. -/
def ReadsAs (x y : SExpr) : Prop :=
  ∀ (items : List SExpr) (stack : List (Opening × List SExpr)) (position : Nat) (c : Char) (cs : List Char), endsAtom c = true →
    ∃ p, Reader.run (chars x ++ c :: cs) { items, stack, position } =
      Reader.run (c :: cs) { items := y :: items, stack, position := p }

/-- A string reads as itself. -/
theorem ReadsAs.string (text : String) : ReadsAs (.string text) (.string text) := by
  intro items stack position c cs _
  obtain ⟨p, hp⟩ := Reader.run_stringChars text.toList items stack [] (position + 1) ('"' :: c :: cs)
  refine ⟨p + 1, ?_⟩
  have hchars : chars (.string text) ++ c :: cs = '"' :: (text.toList.flatMap stringChar ++ '"' :: c :: cs) := by
    simp [chars, stringChars]
  rw [hchars, Reader.run_cons (show Reader.take _ '"' _ = .ok { items, stack, mode := .string [], position } from rfl), hp,
    List.append_nil, Reader.run_cons (show Reader.take _ '"' _ = .ok { items := .string text :: items, stack, position := p } by
      simp [Reader.take, String.ofList_toList])]

/-- An atom reads as what its text stands for. -/
theorem ReadsAs.atom {x : SExpr} (h : IsAtom (chars x)) : ReadsAs x (ofAtom (String.ofList (chars x))) := by
  intro items stack position c cs hc
  exact Reader.run_atom h items stack position hc cs

/-- After an item there is always a character that ends an atom. -/
theorem exists_moreChars_cons (xs : List SExpr) {b : Char} (hb : endsAtom b = true) (rest : List Char) :
    ∃ c cs, moreChars xs ++ b :: rest = c :: cs ∧ endsAtom c = true := by
  cases xs with
  | nil => exact ⟨b, rest, rfl, hb⟩
  | cons x xs => exact ⟨' ', chars x ++ moreChars xs ++ b :: rest, rfl, rfl⟩

namespace Reader

/-- The items that follow one are read in their order. -/
theorem run_moreChars {xs ys : List SExpr} (h : List.Forall₂ ReadsAs xs ys) (items : List SExpr)
    (stack : List (Opening × List SExpr)) (position : Nat) {b : Char} (hb : endsAtom b = true) (rest : List Char) :
    ∃ p, run (moreChars xs ++ b :: rest) { items, stack, position } =
      run (b :: rest) { items := ys.reverse ++ items, stack, position := p } := by
  induction h generalizing items position with
  | nil => exact ⟨position, rfl⟩
  | @cons x y xs ys hxy _ ih =>
    obtain ⟨c, cs, hmore, hc⟩ := exists_moreChars_cons xs hb rest
    obtain ⟨q, hq⟩ := hxy items stack (position + 1) c cs hc
    obtain ⟨p, hp⟩ := ih (y :: items) q
    refine ⟨p, ?_⟩
    have hchars : moreChars (x :: xs) ++ b :: rest = ' ' :: (chars x ++ c :: cs) := by
      rw [moreChars, List.cons_append, List.cons_append, List.append_assoc, hmore]
    rw [hchars, run_between (show takeBetween _ ' ' _ = .ok { items, stack, position } from rfl), hq, ← hmore, hp,
      List.reverse_cons, List.append_assoc]
    rfl

/-- Items are read in their order. -/
theorem run_itemChars {xs ys : List SExpr} (h : List.Forall₂ ReadsAs xs ys) (items : List SExpr)
    (stack : List (Opening × List SExpr)) (position : Nat) {b : Char} (hb : endsAtom b = true) (rest : List Char) :
    ∃ p, run (itemChars xs ++ b :: rest) { items, stack, position } =
      run (b :: rest) { items := ys.reverse ++ items, stack, position := p } := by
  cases h with
  | nil => exact ⟨position, rfl⟩
  | @cons x y xs ys hxy hrest =>
    obtain ⟨c, cs, hmore, hc⟩ := exists_moreChars_cons xs hb rest
    obtain ⟨q, hq⟩ := hxy items stack position c cs hc
    obtain ⟨p, hp⟩ := run_moreChars hrest (y :: items) stack q hb rest
    refine ⟨p, ?_⟩
    rw [itemChars_cons, List.append_assoc, hmore, hq, ← hmore, hp, List.reverse_cons, List.append_assoc]
    rfl

/-- Items between an opening and a closing character become one list. -/
theorem run_enclosed {a b : Char} {o : Opening} {make : List SExpr → SExpr} (hb : endsAtom b = true)
    (hopen : ∀ (r : Reader) (rest : List Char), r.takeBetween a rest = .ok (r.openList o))
    (hclose : ∀ (items outer : List SExpr) (stack : List (Opening × List SExpr)) (position : Nat) (rest : List Char),
      takeBetween { items, stack := (o, outer) :: stack, position } b rest =
        .ok { items := make items.reverse :: outer, stack, position })
    {xs ys : List SExpr} (h : List.Forall₂ ReadsAs xs ys) (items : List SExpr) (stack : List (Opening × List SExpr))
    (position : Nat) (rest : List Char) :
    ∃ p, run (a :: itemChars xs ++ b :: rest) { items, stack, position } =
      run rest { items := make ys :: items, stack, position := p } := by
  obtain ⟨p, hp⟩ := run_itemChars h [] ((o, items) :: stack) (position + 1) hb rest
  refine ⟨p + 1, ?_⟩
  rw [List.cons_append, run_between (hopen _ _), openList, hp, List.append_nil, run_between (hclose _ _ _ _ _),
    List.reverse_reverse]

/-- A list is read as the list of what its items read as. -/
theorem run_list {xs ys : List SExpr} (h : List.Forall₂ ReadsAs xs ys) (items : List SExpr)
    (stack : List (Opening × List SExpr)) (position : Nat) (rest : List Char) :
    ∃ p, run (chars (.list xs) ++ rest) { items, stack, position } =
      run rest { items := .list ys :: items, stack, position := p } := by
  rw [chars, List.append_assoc, List.singleton_append]
  exact run_enclosed (o := .paren) rfl (fun _ _ => rfl) (fun _ _ _ _ _ => rfl) h items stack position rest

/-- So are items in brackets. -/
theorem run_brackets {xs ys : List SExpr} (h : List.Forall₂ ReadsAs xs ys) (items : List SExpr)
    (stack : List (Opening × List SExpr)) (position : Nat) (rest : List Char) :
    ∃ p, run (chars (.brackets xs) ++ rest) { items, stack, position } =
      run rest { items := .brackets ys :: items, stack, position := p } := by
  rw [chars, List.append_assoc, List.singleton_append]
  exact run_enclosed (o := .bracket) rfl (fun _ _ => rfl) (fun _ _ _ _ _ => rfl) h items stack position rest

end Reader

/-- A digit can stand in an atom. -/
theorem isAtomChar_of_isDigit {c : Char} (h : c.isDigit = true) : isAtomChar c = true := by
  have hall : ∀ n ∈ List.range' 48 10, isAtomChar (Char.ofNat n) = true := by decide
  have hrange : '0'.toNat ≤ c.toNat ∧ c.toNat ≤ '9'.toNat := Char.isDigit_iff_toNat.1 h
  have hchar := hall c.toNat (List.mem_range'_1.2 ⟨hrange.1, Nat.lt_succ_of_le hrange.2⟩)
  rwa [Char.ofNat_toNat] at hchar

/-- An integer is an atom. -/
theorem isAtom_intChars (n : Int) : IsAtom (Number.intChars n) := by
  obtain ⟨c, w, hchars, hc⟩ := Number.exists_intChars_cons n
  refine ⟨by rw [hchars]; exact List.cons_ne_nil c w, ?_, ?_⟩
  · intro c hc
    rcases Number.mem_intChars hc with hdigit | rfl
    · exact isAtomChar_of_isDigit hdigit
    · rfl
  · rw [hchars]
    intro hquote
    cases hquote
    rcases hc with hdigit | hminus
    · cases hdigit
    · exact absurd hminus (by decide)

/-- A plain form reads as what it is read back as. -/
theorem Plain.readsAs_readBack {x : SExpr} (h : Plain x) : ReadsAs x x.readBack := by
  induction h with
  | @symbol name h =>
    have hread := ReadsAs.atom (x := .symbol name) (by rw [chars]; exact h.isAtom)
    rw [chars, String.ofList_toList, h.ofAtom] at hread
    exact hread
  | string text => exact ReadsAs.string text
  | whole n => exact ReadsAs.atom (x := .whole n) (isAtom_intChars n)
  | @list items _ ih =>
    intro outer stack position c cs _
    have hitems := List.forall₂_map_right_iff.2 (List.forall₂_same.2 ih)
    rw [readBack, readBackAll_eq]
    exact Reader.run_list hitems outer stack position (c :: cs)
  | @brackets items _ ih =>
    intro outer stack position c cs _
    have hitems := List.forall₂_map_right_iff.2 (List.forall₂_same.2 ih)
    rw [readBack, readBackAll_eq]
    exact Reader.run_brackets hitems outer stack position (c :: cs)

/-- The text of a list is read as one form. -/
theorem read_text_list {items : List SExpr} (h : Plain (.list items)) :
    read (text (.list items)) = .ok (readBack (.list items)) := by
  have hplain : ∀ x ∈ items, Plain x := by
    cases h with
    | list h => exact h
  have hitems : List.Forall₂ ReadsAs items (items.map readBack) :=
    List.forall₂_map_right_iff.2 (List.forall₂_same.2 (fun x hx => (hplain x hx).readsAs_readBack))
  obtain ⟨p, hp⟩ := Reader.run_list hitems [] [] 0 []
  rw [List.append_nil] at hp
  rw [read, text, String.toList_ofList, hp, readBack, readBackAll_eq]
  rfl

/-- The numeral of an integer is read as the integer if and only if it is not too long. -/
theorem ofAtom_intText_iff (n : Int) : ofAtom (Number.intText n) = .whole n ↔ n.natAbs < 10 ^ Number.digitLimit := by
  have hread : Number.readChars (Number.intChars n) = .ok n ↔ n.natAbs < 10 ^ Number.digitLimit := by
    have hpadded := Number.readChars_padded_iff n (List.forall_mem_nil _) (List.forall_mem_nil _)
    rw [List.nil_append, List.append_nil] at hpadded
    rw [hpadded, ← Number.isWritable_iff, Number.isWritable, decide_eq_true_iff]
  rw [← hread, ofAtom, Number.read, Number.intText, String.toList_ofList]
  cases Number.readChars (Number.intChars n) with
  | ok m => simp
  | error e =>
    cases Number.Real.read? (String.ofList (Number.intChars n)) <;> simp

/-- Items are read back unchanged if all their numbers are. -/
theorem readBackAll_eq_self_iff {items : List SExpr}
    (h : ∀ x ∈ items, (readBack x = x ↔ ∀ n ∈ numbers x, n.natAbs < 10 ^ Number.digitLimit)) :
    readBackAll items = items ↔ ∀ n ∈ numbersOfAll items, n.natAbs < 10 ^ Number.digitLimit := by
  have hself : items.map readBack = items ↔ ∀ x ∈ items, readBack x = x := by
    simpa using List.map_inj_left (l := items) (f := readBack) (g := id)
  rw [readBackAll_eq, numbersOfAll_eq, hself]
  constructor
  · intro hback n hn
    obtain ⟨x, hx, hn⟩ := List.mem_flatMap.1 hn
    exact (h x hx).1 (hback x hx) n hn
  · intro hshort x hx
    refine (h x hx).2 (fun n hn => ?_)
    exact hshort n (List.mem_flatMap.2 ⟨x, hx, hn⟩)

/-- A form is read as itself exactly if its numbers can be read. -/
theorem Plain.readBack_eq_self_iff {x : SExpr} (h : Plain x) :
    readBack x = x ↔ ∀ n ∈ numbers x, n.natAbs < 10 ^ Number.digitLimit := by
  induction h with
  | symbol => simp [readBack, numbers]
  | string => simp [readBack, numbers]
  | whole n => simp [readBack, numbers, ofAtom_intText_iff]
  | list _ ih => rw [readBack, numbers, SExpr.list.injEq, readBackAll_eq_self_iff ih]
  | brackets _ ih => rw [readBack, numbers, SExpr.brackets.injEq, readBackAll_eq_self_iff ih]

/-! ## Where a written form ends -/

/-- The character that opens a form other than an atom. -/
def opener : SExpr → Option Char
  | .string _ => some '"'
  | .list _ => some '('
  | .brackets _ => some '['
  | _ => none

/-- An atom does not start with a character that ends one. -/
theorem IsAtom.head_not_endsAtom {w : List Char} (h : IsAtom w) (rest : List Char) :
    (w ++ rest).head?.filter endsAtom = none := by
  obtain ⟨c, w, rfl⟩ := List.exists_cons_of_ne_nil h.ne_nil
  have hc := (Bool.and_eq_true_iff.1 (h.chars c List.mem_cons_self)).1
  simpa [Option.filter] using hc

/-- A form that is no atom can be told by its first character. -/
theorem Plain.opener_eq {x : SExpr} (h : Plain x) (rest : List Char) : opener x = (chars x ++ rest).head?.filter endsAtom := by
  cases h with
  | symbol h => rw [chars, h.isAtom.head_not_endsAtom]; rfl
  | string text => rw [chars]; rfl
  | whole n => rw [chars, (isAtom_intChars n).head_not_endsAtom]; rfl
  | list h => rw [chars]; rfl
  | brackets h => rw [chars]; rfl

/-- Plain forms with the same text open alike. -/
theorem Plain.opener_congr {x y : SExpr} (hx : Plain x) (hy : Plain y) {u v : List Char} (h : chars x ++ u = chars y ++ v) :
    opener x = opener y := by
  rw [hx.opener_eq u, h, ← hy.opener_eq v]

/-- An atom goes on up to the first character that ends atoms. -/
theorem IsAtom.append_inj {w v : List Char} (hw : IsAtom w) (hv : IsAtom v) {c d : Char} (hc : endsAtom c = true)
    (hd : endsAtom d = true) {cs ds : List Char} (h : w ++ c :: cs = v ++ d :: ds) : w = v ∧ c :: cs = d :: ds := by
  have hspan : ∀ {u : List Char} {e : Char} (es : List Char), IsAtom u → endsAtom e = true →
      (u ++ e :: es).takeWhile (fun c => !endsAtom c) = u := by
    intro u e es hu he
    rw [List.takeWhile_append_of_pos (fun c hc => (Bool.and_eq_true_iff.1 (hu.chars c hc)).1),
      List.takeWhile_cons_of_neg (by simp [he]), List.append_nil]
  have hwv : w = v := by rw [← hspan cs hw hc, h, hspan ds hv hd]
  subst hwv
  exact ⟨rfl, List.append_cancel_left h⟩

/-- The written characters of a string can be told apart. -/
theorem stringChar_append_inj {c d : Char} {u v : List Char} (h : stringChar c ++ u = stringChar d ++ v) : c = d ∧ u = v := by
  rcases stringChar_cases c with ⟨e, hc, hback⟩ | ⟨hc, hslash, -⟩
  · rcases stringChar_cases d with ⟨e', hd, hback'⟩ | ⟨hd, hslash', -⟩
    · rw [hc, hd] at h
      obtain ⟨rfl, rfl⟩ : e = e' ∧ u = v := by simpa using h
      exact ⟨(List.cons.inj (hback.symm.trans hback')).1, rfl⟩
    · rw [hc, hd] at h
      exact absurd (List.cons.inj h).1.symm hslash'
  · rcases stringChar_cases d with ⟨e', hd, -⟩ | ⟨hd, -, -⟩
    · rw [hc, hd] at h
      exact absurd (List.cons.inj h).1 hslash
    · rw [hc, hd] at h
      exact List.cons.inj h

/-- No written character of a string is the closing quote. -/
theorem stringChar_append_ne_quote (c : Char) (u v : List Char) : stringChar c ++ u ≠ '"' :: v := by
  intro h
  rcases stringChar_cases c with ⟨e, hc, -⟩ | ⟨hc, -, hquote⟩
  · rw [hc] at h
    exact absurd (List.cons.inj h).1 (by decide)
  · rw [hc] at h
    exact hquote (List.cons.inj h).1

/-- A string goes on up to the first quote that no backslash stands before. -/
theorem stringChars_append_inj {l l' u v : List Char}
    (h : l.flatMap stringChar ++ '"' :: u = l'.flatMap stringChar ++ '"' :: v) : l = l' ∧ u = v := by
  induction l generalizing l' with
  | nil =>
    cases l' with
    | nil => exact ⟨rfl, (List.cons.inj h).2⟩
    | cons c l' =>
      rw [List.flatMap_cons, List.append_assoc] at h
      exact absurd h.symm (stringChar_append_ne_quote c _ u)
  | cons c l ih =>
    cases l' with
    | nil =>
      rw [List.flatMap_cons, List.append_assoc] at h
      exact absurd h (stringChar_append_ne_quote c _ v)
    | cons d l' =>
      rw [List.flatMap_cons, List.flatMap_cons, List.append_assoc, List.append_assoc] at h
      obtain ⟨rfl, hrest⟩ := stringChar_append_inj h
      obtain ⟨rfl, rfl⟩ := ih hrest
      exact ⟨rfl, rfl⟩

/-- The characters of a form tell the form and where it ends, if what follows is the end of an atom. -/
def SelfDelimiting (x : SExpr) : Prop :=
  ∀ (y : SExpr), Plain y → ∀ (c d : Char) (cs ds : List Char), endsAtom c = true → endsAtom d = true →
    chars x ++ c :: cs = chars y ++ d :: ds → x = y ∧ c :: cs = d :: ds

/-- The items that follow one can be told from what stands after them. -/
theorem moreChars_append_inj {xs ys : List SExpr} (hxs : ∀ x ∈ xs, SelfDelimiting x) (hys : ∀ y ∈ ys, Plain y) {b : Char}
    (hb : endsAtom b = true) (hspace : b ≠ ' ') {u v : List Char} (h : moreChars xs ++ b :: u = moreChars ys ++ b :: v) :
    xs = ys ∧ u = v := by
  induction xs generalizing ys with
  | nil =>
    cases ys with
    | nil => exact ⟨rfl, (List.cons.inj h).2⟩
    | cons y ys => exact absurd (List.cons.inj h).1 hspace
  | cons x xs ih =>
    cases ys with
    | nil => exact absurd (List.cons.inj h).1.symm hspace
    | cons y ys =>
      obtain ⟨hx, hxs'⟩ := List.forall_mem_cons.1 hxs
      obtain ⟨hy, hys'⟩ := List.forall_mem_cons.1 hys
      obtain ⟨c, cs, hc, hcend⟩ := exists_moreChars_cons xs hb u
      obtain ⟨d, ds, hd, hdend⟩ := exists_moreChars_cons ys hb v
      have htail : chars x ++ (moreChars xs ++ b :: u) = chars y ++ (moreChars ys ++ b :: v) := by
        simpa [moreChars] using h
      rw [hc, hd] at htail
      obtain ⟨rfl, hrest⟩ := hx y hy c d cs ds hcend hdend htail
      rw [← hc, ← hd] at hrest
      obtain ⟨rfl, rfl⟩ := ih hxs' hys' hrest
      exact ⟨rfl, rfl⟩

/-- No form begins with a closing character. -/
theorem Plain.chars_ne_closing {x : SExpr} (h : Plain x) {b : Char} (hb : b = ')' ∨ b = ']') (rest u : List Char) :
    chars x ++ rest ≠ b :: u := by
  intro heq
  have hopener := h.opener_eq rest
  rw [heq] at hopener
  rcases hb with rfl | rfl
  · cases h <;> cases hopener
  · cases h <;> cases hopener

/-- So can all items of a list. -/
theorem itemChars_append_inj {xs ys : List SExpr} (hxs : ∀ x ∈ xs, SelfDelimiting x) (hplain : ∀ x ∈ xs, Plain x)
    (hys : ∀ y ∈ ys, Plain y) {b : Char} (hb : b = ')' ∨ b = ']') {u v : List Char}
    (h : itemChars xs ++ b :: u = itemChars ys ++ b :: v) : xs = ys ∧ u = v := by
  have hend : endsAtom b = true := by rcases hb with rfl | rfl <;> rfl
  have hspace : b ≠ ' ' := by rcases hb with rfl | rfl <;> decide
  cases xs with
  | nil =>
    cases ys with
    | nil => exact ⟨rfl, (List.cons.inj h).2⟩
    | cons y ys =>
      rw [itemChars_cons, List.append_assoc] at h
      exact absurd h.symm ((hys y List.mem_cons_self).chars_ne_closing hb _ u)
  | cons x xs =>
    cases ys with
    | nil =>
      rw [itemChars_cons, List.append_assoc] at h
      exact absurd h ((hplain x List.mem_cons_self).chars_ne_closing hb _ v)
    | cons y ys =>
      -- with a space in front, all items are items that follow one
      have hmore : moreChars (x :: xs) ++ b :: u = moreChars (y :: ys) ++ b :: v := by
        rw [itemChars_cons, itemChars_cons] at h
        rw [moreChars, moreChars, List.cons_append, List.cons_append, List.cons_append, List.cons_append, h]
      exact moreChars_append_inj hxs hys hend hspace hmore

/-- No name is a numeral. -/
theorem IsName.toList_ne_intChars {name : String} (h : IsName name) (n : Int) : name.toList ≠ Number.intChars n := by
  intro heq
  obtain ⟨c, w, hname, hdigit, hminus, -⟩ := h.exists_cons
  obtain ⟨c', w', hchars, hc⟩ := Number.exists_intChars_cons n
  obtain ⟨rfl, rfl⟩ := List.cons.inj (hname.symm.trans (heq.trans hchars))
  rcases hc with hc | hc
  · rw [hdigit] at hc
    cases hc
  · exact hminus hc

/-- Where a plain form ends can be told from its text. -/
theorem Plain.selfDelimiting {x : SExpr} (h : Plain x) : SelfDelimiting x := by
  induction h with
  | @symbol name h =>
    intro y hy c d cs ds hc hd heq
    have hopener := (Plain.symbol h).opener_congr hy heq
    cases hy with
    | symbol h' =>
      obtain ⟨hname, hrest⟩ := h.isAtom.append_inj h'.isAtom hc hd (by simpa [chars] using heq)
      exact ⟨by rw [String.toList_inj.1 hname], hrest⟩
    | whole n =>
      obtain ⟨hname, -⟩ := h.isAtom.append_inj (isAtom_intChars n) hc hd (by simpa [chars] using heq)
      exact absurd hname (h.toList_ne_intChars n)
    | string | list | brackets => cases hopener
  | string text =>
    intro y hy c d cs ds hc hd heq
    have hopener := (Plain.string text).opener_congr hy heq
    cases hy with
    | string text' =>
      have hquoted : text.toList.flatMap stringChar ++ '"' :: c :: cs = text'.toList.flatMap stringChar ++ '"' :: d :: ds := by
        simpa [chars, stringChars] using heq
      obtain ⟨htext, hrest⟩ := stringChars_append_inj hquoted
      exact ⟨by rw [String.toList_inj.1 htext], hrest⟩
    | symbol | whole | list | brackets => cases hopener
  | whole n =>
    intro y hy c d cs ds hc hd heq
    have hopener := (Plain.whole n).opener_congr hy heq
    cases hy with
    | symbol h' =>
      obtain ⟨hname, -⟩ := (isAtom_intChars n).append_inj h'.isAtom hc hd (by simpa [chars] using heq)
      exact absurd hname.symm (h'.toList_ne_intChars n)
    | whole m =>
      obtain ⟨hchars, hrest⟩ := (isAtom_intChars n).append_inj (isAtom_intChars m) hc hd (by simpa [chars] using heq)
      exact ⟨by rw [Number.intChars_injective hchars], hrest⟩
    | string | list | brackets => cases hopener
  | @list items h ih =>
    intro y hy c d cs ds hc hd heq
    have hopener := (Plain.list h).opener_congr hy heq
    cases hy with
    | list h' =>
      obtain ⟨rfl, hrest⟩ := itemChars_append_inj ih h h' (.inl rfl) (by simpa [chars] using heq)
      exact ⟨rfl, hrest⟩
    | symbol | string | whole | brackets => cases hopener
  | @brackets items h ih =>
    intro y hy c d cs ds hc hd heq
    have hopener := (Plain.brackets h).opener_congr hy heq
    cases hy with
    | brackets h' =>
      obtain ⟨rfl, hrest⟩ := itemChars_append_inj ih h h' (.inr rfl) (by simpa [chars] using heq)
      exact ⟨rfl, hrest⟩
    | symbol | string | whole | list => cases hopener

/-- Different forms are written differently. -/
theorem Plain.text_inj {x y : SExpr} (hx : Plain x) (hy : Plain y) (h : text x = text y) : x = y := by
  have hchars : chars x = chars y := by
    rw [← String.toList_ofList (l := chars x), ← String.toList_ofList (l := chars y)]
    exact congrArg String.toList h
  exact (hx.selfDelimiting y hy ' ' ' ' [] [] rfl rfl (by rw [hchars])).1

end FormatAudit.SExpr
