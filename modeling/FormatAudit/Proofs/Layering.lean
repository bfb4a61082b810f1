import Mathlib
import FormatAudit.Settings.Basic
import FormatAudit.Proofs.Tables

/-!
# Layers over settings

Layers form a monoid, the product of two being the lower one overridden by the upper one, and layering is its action on settings.
Every layer is idempotent. Each part of a layer has its own reason for these laws: flags that are not given are skipped, functions
are put into a table by name, and suppressions are added when they are missing (`addMissing`).
-/

namespace FormatAudit

/-! ## Adding what is missing -/

/-- A list with the items of another that it lacks added at its end. -/
def addMissing (xs ys : List String) : List String :=
  xs ++ ys.filter (fun y => !xs.contains y)

/-- Adding what is missing joins two lists. -/
theorem mem_addMissing {xs ys : List String} {x : String} : x ∈ addMissing xs ys ↔ x ∈ xs ∨ x ∈ ys := by
  unfold addMissing
  rw [List.mem_append, List.mem_filter]
  by_cases h : x ∈ xs <;> simp [h]

/-- What is missing may be added in groups. -/
theorem addMissing_assoc (xs ys zs : List String) :
    addMissing (addMissing xs ys) zs = addMissing xs (addMissing ys zs) := by
  have hlacks : ∀ z ∈ zs, (!(addMissing xs ys).contains z) = (!xs.contains z && !ys.contains z) := by
    intro z _
    rw [← Bool.not_or, Bool.eq_iff_iff]
    simp [mem_addMissing]
  calc addMissing (addMissing xs ys) zs
      = addMissing xs ys ++ zs.filter (fun z => !xs.contains z && !ys.contains z) :=
        congrArg (addMissing xs ys ++ ·) (List.filter_congr hlacks)
    _ = addMissing xs (addMissing ys zs) := by
        simp only [addMissing, List.filter_append, List.filter_filter, List.append_assoc]

/-- Nothing of a list is missing in it. -/
theorem addMissing_self (xs : List String) : addMissing xs xs = xs := by
  unfold addMissing
  rw [List.filter_eq_nil_iff.2 (by simp), List.append_nil]

theorem nil_addMissing (xs : List String) : addMissing [] xs = xs := by
  simp [addMissing]

theorem addMissing_nil (xs : List String) : addMissing xs [] = xs := by
  simp [addMissing]

/-! ## The monoid of layers -/

/-- A layer that names each of its functions once. -/
structure ProperLayer extends Layer where
  distinct : Table.Distinct toLayer.functions

namespace ProperLayer

/-- A proper layer is told by the layer that it stands for. -/
theorem toLayer_injective : Function.Injective toLayer := by
  rintro ⟨a, ha⟩ ⟨b, hb⟩ rfl
  rfl

/-- The layer that gives nothing. -/
instance : One ProperLayer :=
  ⟨{ distinct := Table.distinct_nil }⟩

/-- The lower layer overridden by the upper one. -/
instance : Mul ProperLayer :=
  ⟨fun upper lower =>
    { skipBareCalls := upper.skipBareCalls.or lower.skipBareCalls
      functions := Table.putAll lower.functions upper.functions
      findWrappers := upper.findWrappers.or lower.findWrappers
      suppress := addMissing lower.suppress upper.suppress
      distinct := lower.distinct.putAll upper.functions }⟩

theorem toLayer_one : (1 : ProperLayer).toLayer = {} := rfl

/-- A layer above another one decides first, and its functions and suppressions come last. -/
theorem toLayer_mul (upper lower : ProperLayer) :
    (upper * lower).toLayer =
      { skipBareCalls := upper.skipBareCalls.or lower.skipBareCalls
        functions := Table.putAll lower.functions upper.functions
        findWrappers := upper.findWrappers.or lower.findWrappers
        suppress := addMissing lower.suppress upper.suppress } := rfl

instance : Monoid ProperLayer where
  mul_assoc a b c := by
    apply toLayer_injective
    simp only [toLayer_mul, Option.or_assoc, Table.putAll_putAll c.functions b.distinct, addMissing_assoc]
  one_mul a := by
    apply toLayer_injective
    simp only [toLayer_mul, toLayer_one, Option.none_or, Table.putAll_nil, addMissing_nil]
  mul_one a := by
    apply toLayer_injective
    simp only [toLayer_mul, toLayer_one, Option.or_none, Table.putAll_empty a.distinct, nil_addMissing]

/-- A layer that is given twice counts once. -/
theorem mul_self (a : ProperLayer) : a * a = a := by
  apply toLayer_injective
  simp only [toLayer_mul, Option.or_self, Table.putAll_self a.distinct, addMissing_self]

end ProperLayer

/-! ## The action -/

namespace Settings

theorem layered_one (s : Settings) : s.layered {} = s := by
  cases s
  simp [layered]

/-- A layer over another one changes settings as the lower one does and then the upper one. -/
theorem layered_mul (s : Settings) (upper lower : ProperLayer) :
    s.layered (upper * lower).toLayer = (s.layered lower.toLayer).layered upper.toLayer := by
  have hsuppress := addMissing_assoc s.suppress lower.suppress upper.suppress
  simp only [layered, ProperLayer.toLayer_mul, Option.getD_or, Table.putAll_putAll s.functions lower.distinct]
  congr 1
  exact hsuppress.symm

instance : MulAction ProperLayer Settings where
  smul a s := s.layered a.toLayer
  one_smul := layered_one
  mul_smul upper lower s := s.layered_mul upper lower

/-- Settings with several layers on top, the first of them lowest. -/
def layeredAll (s : Settings) (layers : List ProperLayer) : Settings :=
  layers.foldl (fun s a => s.layered a.toLayer) s

theorem layeredAll_cons (s : Settings) (a : ProperLayer) (layers : List ProperLayer) :
    s.layeredAll (a :: layers) = (a • s).layeredAll layers := rfl

/-- Layers act from the first to the last. -/
theorem layeredAll_eq (s : Settings) (layers : List ProperLayer) : s.layeredAll layers = layers.reverse.prod • s := by
  induction layers generalizing s with
  | nil => exact (one_smul ProperLayer s).symm
  | cons a layers ih =>
    rw [layeredAll_cons, ih, List.reverse_cons, List.prod_append, List.prod_singleton, mul_smul]

/-- What is suppressed was suppressed before or is suppressed in some layer. -/
theorem mem_suppress_layeredAll {s : Settings} {layers : List ProperLayer} {e : String} :
    e ∈ (s.layeredAll layers).suppress ↔ e ∈ s.suppress ∨ ∃ a ∈ layers, e ∈ a.suppress := by
  induction layers generalizing s with
  | nil => simp [layeredAll]
  | cons a layers ih =>
    have hstep : e ∈ (a • s).suppress ↔ e ∈ s.suppress ∨ e ∈ a.suppress := mem_addMissing
    rw [layeredAll_cons, ih, hstep, List.exists_mem_cons_iff, or_assoc]

/-- Layers only add suppressions, at the end. -/
theorem suppress_prefix_layeredAll (s : Settings) (layers : List ProperLayer) :
    s.suppress <+: (s.layeredAll layers).suppress := by
  induction layers generalizing s with
  | nil => exact List.prefix_refl _
  | cons a layers ih =>
    have hstep : s.suppress <+: (a • s).suppress := List.prefix_append _ _
    exact hstep.trans (ih (a • s))

/-- Layers never move a function that is known. -/
theorem functions_prefix_layeredAll (s : Settings) (layers : List ProperLayer) :
    s.functions.keys <+: (s.layeredAll layers).functions.keys := by
  induction layers generalizing s with
  | nil => exact List.prefix_refl _
  | cons a layers ih =>
    have hstep : s.functions.keys <+: (a • s).functions.keys := Table.keys_prefix_putAll s.functions a.functions
    exact hstep.trans (ih (a • s))

end Settings

/-- `l` is the layer `lower` overridden by `upper`: a flag of `upper` wins when it is given, its functions win by name, and its
suppressions follow those of `lower` where they are not among them. -/
structure ProperLayer.Overrides (upper lower l : ProperLayer) : Prop where
  skipBareCalls : l.skipBareCalls = if upper.skipBareCalls = none then lower.skipBareCalls else upper.skipBareCalls
  findWrappers : l.findWrappers = if upper.findWrappers = none then lower.findWrappers else upper.findWrappers
  functions : ∀ name, Table.get? l.functions name =
    if Table.get? upper.functions name = none then Table.get? lower.functions name else Table.get? upper.functions name
  suppress : l.suppress = lower.suppress ++ upper.suppress.filter (fun e => e ∉ lower.suppress)

/-- The first of two choices counts if there is one. -/
theorem or_eq_ite {α : Type} [DecidableEq α] (a b : Option α) : a.or b = if a = none then b else a := by
  cases a <;> rfl

/-- The product of two layers is the upper one over the lower one. -/
theorem ProperLayer.overrides_mul (upper lower : ProperLayer) : upper.Overrides lower (upper * lower) where
  skipBareCalls := or_eq_ite upper.skipBareCalls lower.skipBareCalls
  findWrappers := or_eq_ite upper.findWrappers lower.findWrappers
  functions name := by
    rw [← or_eq_ite]
    exact Table.get?_putAll_of_distinct lower.functions upper.distinct name
  suppress := by
    rw [toLayer_mul]
    simp [addMissing]

/-- Layering is a monoid action. Laying nothing over settings leaves them as they are, laying a layer over them twice is laying it
over them once, and laying two layers over them is laying the product over them, which is the lower layer overridden by the upper
one. So what a sequence of layers makes of settings depends on its product only; it holds the suppressions of the settings and of
all layers and no others, and the suppressions and functions of the settings stand at its front, in their places. -/
theorem layers_act_on_settings (s : Settings) :
    s.layered {} = s ∧
    (∀ a : ProperLayer, (s.layered a.toLayer).layered a.toLayer = s.layered a.toLayer) ∧
    (∀ lower upper : ProperLayer, upper.Overrides lower (upper * lower) ∧
      (s.layered lower.toLayer).layered upper.toLayer = s.layered (upper * lower).toLayer) ∧
    ∀ layers : List ProperLayer,
      s.layeredAll layers = s.layered layers.reverse.prod.toLayer ∧
      (∀ e, e ∈ (s.layeredAll layers).suppress ↔ e ∈ s.suppress ∨ ∃ a ∈ layers, e ∈ a.suppress) ∧
      s.suppress <+: (s.layeredAll layers).suppress ∧
      s.functions.keys <+: (s.layeredAll layers).functions.keys := by
  refine ⟨s.layered_one, fun a => ?_, fun lower upper => ⟨upper.overrides_mul lower, (s.layered_mul upper lower).symm⟩,
    fun layers => ⟨s.layeredAll_eq layers, fun e => Settings.mem_suppress_layeredAll, s.suppress_prefix_layeredAll layers,
      s.functions_prefix_layeredAll layers⟩⟩
  rw [← Settings.layered_mul, ProperLayer.mul_self]

example : ({ functions := [("die", some 1)], suppress := ["a.c"] } : Settings).layered
    { skipBareCalls := some true, functions := [("die", some 2), ("log_msg", none)], suppress := ["a.c", "b.c", "b.c"] } =
    { skipBareCalls := true, functions := [("die", some 2), ("log_msg", none)], suppress := ["a.c", "b.c", "b.c"] } := by
  decide

end FormatAudit
