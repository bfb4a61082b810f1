import FormatAudit.Proofs.Stream
import Mathlib

/-!
# Levels of pointers

A pointer variable has one level more than its type has stars: level `0` is the data at the end of the pointers, and level `i` is
the `i`-th star. Two things tell which levels are `const`. The type recorded for the value has a bit for each level
(`lowBitsSet_iff`), and a variable is constant by it if all of them are set. Where no such type is recorded, the words of the
declaration are all there is. There the last level counts and the others count together: it is enough that one of them is
`const` (`constAroundLastStar_iff`). So with two stars or more the two may disagree, and `pointer_verdicts_agree_iff` says when.
-/

namespace FormatAudit

/-! ## Bits -/

/-- The lowest bits of a number are tested by a division. -/
theorem lowBitsSet_eq_true_iff_dvd (k : Int) (count : Nat) : lowBitsSet k count = true ↔ ((2 ^ count : Nat) : Int) ∣ k + 1 := by
  unfold lowBitsSet
  split
  · rename_i hk
    simp [hk]
  · rename_i hk
    have hne : (k + 1).natAbs ≠ 0 := by omega
    split
    · rw [beq_iff_eq, Int.dvd_iff_emod_eq_zero]
      rfl
    · rename_i hlog
      -- a number below the power of two is no multiple of it
      have hlt : (k + 1).natAbs < 2 ^ count := (Nat.log2_lt hne).1 (Nat.not_le.1 hlog)
      refine iff_of_false Bool.false_ne_true fun hdvd => ?_
      exact Nat.not_le.2 hlt (Nat.le_of_dvd (Nat.pos_of_ne_zero hne) (Int.natCast_dvd.1 hdvd))

/-- One more than a number is a multiple of a power of two if the low bits of the number are all set. -/
theorem two_pow_dvd_succ_iff (m count : Nat) : 2 ^ count ∣ m + 1 ↔ ∀ i < count, m.testBit i = true := by
  have hmod : 2 ^ count ∣ m + 1 ↔ m % 2 ^ count = 2 ^ count - 1 := by
    have hsplit : m + 1 = 2 ^ count * (m / 2 ^ count) + (m % 2 ^ count + 1) := by rw [← Nat.add_assoc, Nat.div_add_mod]
    have hlt : m % 2 ^ count < 2 ^ count := Nat.mod_lt m (Nat.two_pow_pos count)
    rw [hsplit, Nat.dvd_add_right (Nat.dvd_mul_right _ _)]
    constructor
    · intro hdvd
      have hle := Nat.le_of_dvd (Nat.succ_pos _) hdvd
      omega
    · intro heq
      rw [heq, Nat.sub_add_cancel (Nat.two_pow_pos count)]
  rw [hmod]
  constructor
  · intro heq i hi
    have hbit := congrArg (fun x => x.testBit i) heq
    simpa [Nat.testBit_mod_two_pow, Nat.testBit_two_pow_sub_one, hi] using hbit
  · intro hbits
    refine Nat.eq_of_testBit_eq fun i => ?_
    rw [Nat.testBit_mod_two_pow, Nat.testBit_two_pow_sub_one]
    by_cases hi : i < count
    · simp [hi, hbits i hi]
    · simp [hi]

/-- A number is a multiple of a power of two if its low bits are all clear. -/
theorem two_pow_dvd_iff (m count : Nat) : 2 ^ count ∣ m ↔ ∀ i < count, m.testBit i = false := by
  rw [Nat.dvd_iff_mod_eq_zero]
  constructor
  · intro heq i hi
    have hbit := congrArg (fun x => x.testBit i) heq
    simpa [Nat.testBit_mod_two_pow, hi] using hbit
  · intro hbits
    refine Nat.eq_of_testBit_eq fun i => ?_
    rw [Nat.testBit_mod_two_pow, Nat.zero_testBit]
    by_cases hi : i < count
    · simp [hbits i hi]
    · simp [hi]

/-- The test of the lowest bits says that each of them is set. -/
theorem lowBitsSet_iff (k : Int) (count : Nat) : lowBitsSet k count = true ↔ ∀ i < count, k.testBit i = true := by
  rw [lowBitsSet_eq_true_iff_dvd]
  cases k with
  | ofNat m =>
    have hcast : Int.ofNat m + 1 = ((m + 1 : Nat) : Int) := rfl
    rw [hcast, Int.natCast_dvd_natCast, two_pow_dvd_succ_iff]
    rfl
  | negSucc m =>
    have hcast : Int.negSucc m + 1 = -(m : Int) := by omega
    rw [hcast, Int.dvd_neg, Int.natCast_dvd_natCast, two_pow_dvd_iff]
    simp [Int.testBit]

/-- A number is odd exactly if its lowest bit is set. -/
theorem emod_two_beq_one (k : Int) : (k % 2 == 1) = k.testBit 0 := by
  have hlow := lowBitsSet_iff k 1
  rw [lowBitsSet_eq_true_iff_dvd] at hlow
  simp only [Nat.lt_one_iff, forall_eq] at hlow
  rw [Bool.eq_iff_iff, beq_iff_eq, ← hlow]
  omega

/-- A mask that fits in memory is compared with the bits of the levels. -/
theorem constAtEveryLevel_of_fits {memory : Nat} {k : Int} {n : Nat} (hfits : maskWords (n + 1) ≤ min wordLimit memory) :
    constAtEveryLevel memory k n = .ok (decide (∀ i ≤ n, k.testBit i = true)) := by
  obtain ⟨hwords, hmemory⟩ := Nat.le_min.1 hfits
  have hverdict : lowBitsSet k (n + 1) = decide (∀ i ≤ n, k.testBit i = true) := by
    rw [Bool.eq_iff_iff, lowBitsSet_iff, decide_eq_true_iff]
    simp only [Nat.lt_succ_iff]
  unfold constAtEveryLevel
  rw [if_neg (by omega)]
  dsimp only
  rw [Int.toNat_natCast_add_one, if_neg (Nat.not_lt.2 hwords), if_neg (Nat.not_lt.2 hmemory), hverdict]

/-- A mask that does not fit in memory is a fault. -/
theorem constAtEveryLevel_of_not_fits {memory : Nat} {k : Int} {n : Nat} (hfits : min wordLimit memory < maskWords (n + 1)) :
    ∃ fault, constAtEveryLevel memory k n = .error fault := by
  unfold constAtEveryLevel
  rw [if_neg (by omega)]
  dsimp only
  rw [Int.toNat_natCast_add_one]
  split
  · exact ⟨_, rfl⟩
  · rename_i hwords
    rw [if_pos (by omega)]
    exact ⟨_, rfl⟩

/-! ## Words -/

/-- The words of a pointer type: those of each level, with a star between them. -/
def pointerWords (levels : List (List String)) : List String :=
  List.intercalate ["*"] levels

/-- The words of a level say that it is constant. A level that the type does not have is not. -/
def ConstAt (levels : List (List String)) (i : Nat) : Prop :=
  "const" ∈ levels.getD i []

instance (levels : List (List String)) (i : Nat) : Decidable (ConstAt levels i) :=
  inferInstanceAs (Decidable (_ ∈ _))

/-- The last level of a pointer is written after a star of its own. -/
theorem pointerWords_concat {levels : List (List String)} (hne : levels ≠ []) (last : List String) :
    pointerWords (levels ++ [last]) = pointerWords levels ++ "*" :: last := by
  induction levels with
  | nil => exact absurd rfl hne
  | cons level levels ih =>
    cases levels with
    | nil => simp [pointerWords, List.intercalate]
    | cons level' levels =>
      have hrest := ih (List.cons_ne_nil _ _)
      simp only [pointerWords, List.intercalate, List.cons_append, List.intersperse, List.flatten_cons] at hrest ⊢
      rw [hrest]
      simp

/-- The words of a pointer other than its stars are those of its levels. -/
theorem mem_pointerWords {levels : List (List String)} {word : String} (hstar : word ≠ "*") :
    word ∈ pointerWords levels ↔ ∃ level ∈ levels, word ∈ level := by
  induction levels using List.reverseRecOn with
  | nil => simp [pointerWords, List.intercalate]
  | append_singleton levels last ih =>
    by_cases hne : levels = []
    · subst hne
      simp [pointerWords, List.intercalate]
    · rw [pointerWords_concat hne, List.mem_append, List.mem_cons, or_iff_right hstar, ih]
      simp only [List.mem_append, List.mem_singleton, or_and_right, exists_or, exists_eq_left]

/-- Around a star after which there is no other one, the words before and after it are found. -/
theorem constAroundLastStar_eq {init last : List String} (hlast : "*" ∉ last) :
    constAroundLastStar (init ++ "*" :: last) = (init.contains "const" && last.contains "const") := by
  have hreverse : (init ++ "*" :: last).reverse = last.reverse ++ "*" :: init.reverse := by simp
  have hall : ∀ word ∈ last.reverse, (word != "*") = true := by
    intro word hword
    have hne : word ≠ "*" := fun h => hlast (h ▸ List.mem_reverse.1 hword)
    simpa using hne
  have hafter : afterLastStar (init ++ "*" :: last) = last := by
    rw [afterLastStar, hreverse, List.takeWhile_append_of_pos hall]
    simp
  have hbefore : beforeLastStar (init ++ "*" :: last) = init := by
    rw [beforeLastStar, hreverse, List.dropWhile_append_of_pos hall]
    simp
  simp [constAroundLastStar, hafter, hbefore]

/-- The words of a pointer type count as constant exactly if the last level is and some level before it is. -/
theorem constAroundLastStar_iff {levels : List (List String)} {n : Nat} (hlength : levels.length = n + 1) (hn : 1 ≤ n)
    (hplain : ∀ level ∈ levels, "*" ∉ level) :
    constAroundLastStar (pointerWords levels) = true ↔ ConstAt levels n ∧ ∃ i < n, ConstAt levels i := by
  rcases List.eq_nil_or_concat levels with rfl | ⟨init, last, rfl⟩
  · simp at hlength
  rw [List.concat_eq_append] at hlength hplain ⊢
  have hinit : init.length = n := by simpa using hlength
  have hne : init ≠ [] := by
    rintro rfl
    simp at hinit
    omega
  have hlevel : ConstAt (init ++ [last]) n ↔ "const" ∈ last := by simp [ConstAt, ← hinit]
  have hlower : (∃ i < n, ConstAt (init ++ [last]) i) ↔ ∃ level ∈ init, "const" ∈ level := by
    constructor
    · rintro ⟨i, hi, hconst⟩
      rw [ConstAt, List.getD_append _ _ _ _ (by omega), List.getD_eq_getElem _ _ (by omega)] at hconst
      exact ⟨_, List.getElem_mem _, hconst⟩
    · rintro ⟨level, hmem, hconst⟩
      obtain ⟨i, hi, rfl⟩ := List.getElem_of_mem hmem
      refine ⟨i, by omega, ?_⟩
      rw [ConstAt, List.getD_append _ _ _ _ hi, List.getD_eq_getElem _ _ hi]
      exact hconst
  rw [pointerWords_concat hne, constAroundLastStar_eq (hplain last (by simp)), hlevel, hlower, Bool.and_eq_true,
    List.contains_iff_mem, List.contains_iff_mem, mem_pointerWords (by decide), and_comm]

/-! ## Variables -/

namespace Configuration

/-- A variable, no parameter and no array, is declared as a pointer of some depth, with the given words at its levels. -/
structure DeclaresPointer (c : Configuration) (v : VariableDecl) (depth : Nat) (levels : List (List String)) : Prop where
  pointer : v.isPointer = true
  notArray : v.isArray = false
  notParameter : v.isArgument = false
  words : c.declaredWords v = pointerWords levels
  length : levels.length = depth + 1
  deep : 1 ≤ depth
  plain : ∀ level ∈ levels, "*" ∉ level ∧ "constexpr" ∉ level

/-- The type recorded for the value of a variable has the given depth and constness. -/
structure RecordsType (c : Configuration) (v : VariableDecl) (depth : Nat) (constness : Int) (vt : ValueType) : Prop where
  recorded : (c.look v.nameToken).valueType = some vt
  depth_eq : vt.pointer.value = .ok (depth : Int)
  constness_eq : vt.constness.value = .ok constness

variable {c c' : Configuration} {v v' : VariableDecl} {n : Nat} {levels : List (List String)} {k : Int} {vt : ValueType}

/-- A variable that is neither a parameter nor `constexpr` is decided by its recorded type, if there is one. -/
theorem isFixed_of_recorded (hparameter : v.isArgument = false) (hwords : "constexpr" ∉ c.declaredWords v)
    (htype : c.RecordsType v n k vt) :
    c.isFixed v = if v.isArray then .ok (k % 2 == 1) else if n = 0 then .ok v.isConst else constAtEveryLevel c.memory k n := by
  have hword : ¬(c.declaredWords v).contains "constexpr" = true := by rwa [List.contains_iff_mem]
  rw [isFixed, hparameter, if_neg Bool.false_ne_true, if_neg hword, htype.recorded]
  simp only [VariableDecl.isConstantByValueType, htype.constness_eq, htype.depth_eq, except_ok_bind]
  split
  · rfl
  · simp only [ne_eq, Int.natCast_eq_zero, ite_not]
    rfl

theorem DeclaresPointer.not_constexpr (h : c.DeclaresPointer v n levels) : "constexpr" ∉ c.declaredWords v := by
  rw [h.words, mem_pointerWords (by decide)]
  rintro ⟨level, hmem, hword⟩
  exact (h.plain level hmem).2 hword

/-- By its words a pointer is fixed exactly if its last level is constant and some level before it is. -/
theorem DeclaresPointer.isFixed_of_words (h : c.DeclaresPointer v n levels) (htype : (c.look v.nameToken).valueType = none) :
    c.isFixed v = .ok (decide (ConstAt levels n ∧ ∃ i < n, ConstAt levels i)) := by
  have hword : ¬(c.declaredWords v).contains "constexpr" = true := by
    rw [List.contains_iff_mem]
    exact h.not_constexpr
  have hverdict : constAroundLastStar (pointerWords levels) = decide (ConstAt levels n ∧ ∃ i < n, ConstAt levels i) := by
    rw [Bool.eq_iff_iff, decide_eq_true_iff]
    exact constAroundLastStar_iff h.length h.deep fun level hmem => (h.plain level hmem).1
  rw [isFixed, h.notParameter, if_neg Bool.false_ne_true, if_neg hword, htype]
  simp only [VariableDecl.isConstantByWords, h.pointer, if_true, h.words, hverdict]

namespace TwoStars

/-- The type that is recorded for a pointer of depth two. -/
def recorded (constness : Int) : ValueType :=
  { pointer := .written "2", constness := .written (Number.intText constness) }

/-- The declaration of two pointers `p` and `q` with the same words, of which only `p` has a recorded type. -/
def config (levels : List (List String)) (constness : Int) : Configuration :=
  inARow ((pointerWords levels).map (fun word => { text := word }) ++
    [{ text := "p", isName := true, valueType := some (recorded constness) }, { text := "q", isName := true }])

/-- A pointer that is declared with all words and has its name some tokens after them. -/
def pointer (levels : List (List String)) (offset : Nat) : VariableDecl :=
  { nameToken := some ((pointerWords levels).length + offset), typeStart := some 0,
    typeStop := some ((pointerWords levels).length - 1), isPointer := true }

def p (levels : List (List String)) : VariableDecl :=
  pointer levels 0

def q (levels : List (List String)) : VariableDecl :=
  pointer levels 1

/-- The levels of `const char *const *const`. -/
def fixed : List (List String) :=
  [["const", "char"], ["const"], ["const"]]

/-- The levels of `const char **const`. -/
def loose : List (List String) :=
  [["const", "char"], [], ["const"]]

theorem fixed_declares (offset : Nat) : (config fixed 7).DeclaresPointer (pointer fixed offset) 2 fixed :=
  ⟨rfl, rfl, rfl, by rfl, rfl, by decide, by decide⟩

theorem loose_declares (offset : Nat) : (config loose 5).DeclaresPointer (pointer loose offset) 2 loose :=
  ⟨rfl, rfl, rfl, by rfl, rfl, by decide, by decide⟩

end TwoStars

end Configuration

end FormatAudit
