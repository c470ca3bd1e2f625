import DataflowCost.Cost.Context
import DataflowCost.Proofs.Exact
import Mathlib.Algebra.Order.BigOperators.Group.List
import Mathlib.Tactic.Linarith
import Mathlib.Tactic.Positivity

/-! Arithmetic whose scalars stand for elements of an ordered field. Cost formulas are read in the
field, where the laws of order hold; roots, logarithms and roundings to whole numbers may be any
functions. -/
namespace DataflowCost

namespace Scalar

/-- Scalars with values in an ordered field, on which every operation is that of the field. -/
class Valued (α : Type) [Scalar α] (K : outParam Type) [Field K] [LinearOrder K]
    [IsStrictOrderedRing K] where
  value : α → K
  value_injective : Function.Injective value
  value_add : ∀ a b : α, value (a + b) = value a + value b
  value_sub : ∀ a b : α, value (a - b) = value a - value b
  value_mul : ∀ a b : α, value (a * b) = value a * value b
  value_div : ∀ a b : α, value (a / b) = value a / value b
  value_literal : ∀ (mantissa : Nat) (negative : Bool) (exponent : Nat),
    value (OfScientific.ofScientific mantissa negative exponent) =
      OfScientific.ofScientific mantissa negative exponent
  value_ofNat : ∀ n : Nat, value (ofNat n) = n
  value_addUnit : value addUnit = 0
  value_minimum : ∀ a b : α, value (minimum a b) = min (value a) (value b)
  value_maximum : ∀ a b : α, value (maximum a b) = max (value a) (value b)
  value_abs : ∀ a : α, value (abs a) = |value a|
  lt_iff : ∀ a b : α, lt a b = true ↔ value a < value b
  le_iff : ∀ a b : α, le a b = true ↔ value a ≤ value b

namespace Valued

attribute [simp] value_add value_sub value_mul value_div value_literal value_ofNat value_addUnit
  value_minimum value_maximum value_abs lt_iff le_iff

end Valued

instance : Valued ℝ ℝ where
  value := id
  value_injective := Function.injective_id
  value_add _ _ := rfl
  value_sub _ _ := rfl
  value_mul _ _ := rfl
  value_div _ _ := rfl
  value_literal _ _ _ := rfl
  value_ofNat _ := rfl
  value_addUnit := rfl
  value_minimum _ _ := rfl
  value_maximum _ _ := rfl
  value_abs _ := rfl
  lt_iff a b := by simp [lt]
  le_iff a b := by simp [le]

export Valued (value)

variable {α K : Type} [Scalar α] [Field K] [LinearOrder K] [IsStrictOrderedRing K] [Valued α K]

instance : Exact α where
  one_eq := by
    apply Valued.value_injective
    norm_num
  addUnit_eq := by
    apply Valued.value_injective
    simp
  ofNat_add a b := by
    apply Valued.value_injective
    simp
  ofNat_mul a b := by
    apply Valued.value_injective
    simp

@[simp] theorem value_volume (s : Shape) : value (volume s : α) = (s.size : K) := by
  rw [volume_eq, Valued.value_ofNat]

theorem value_sum (xs : List α) : value (sum xs) = (xs.map value).sum := by
  -- The terms so far have a value, and the next one is added to it.
  have hfrom (a : α) : value (xs.foldl (· + ·) a) = value a + (xs.map value).sum := by
    induction xs generalizing a with
    | nil => simp
    | cons x xs ih =>
      rw [List.foldl_cons, ih, Valued.value_add, List.map_cons, List.sum_cons, add_assoc]
  rw [sum, hfrom, Valued.value_addUnit, zero_add]

@[simp] theorem value_elements (t : TensorType) : value (t.elements : α) = (t.size : K) :=
  Valued.value_ofNat t.size

end Scalar

open Scalar

namespace CostContext

/-- What one element of a type counts in memory figures. -/
def weight (cx : CostContext) (dtype : DType) : Nat :=
  match cx.memoryUnit with
  | .elements => 1
  | .bytes => dtype.bytes

theorem weight_pos (cx : CostContext) (dtype : DType) : 0 < cx.weight dtype := by
  unfold weight
  cases cx.memoryUnit with
  | elements => exact Nat.one_pos
  | bytes => cases dtype <;> decide

variable {α K : Type} [Scalar α] [Field K] [LinearOrder K] [IsStrictOrderedRing K] [Valued α K]

@[simp] theorem value_traffic (cx : CostContext) (t : TensorType) :
    value (cx.traffic t : α) = (t.size : K) * cx.weight t.dtype := by
  unfold traffic scaled weight
  cases cx.memoryUnit with
  | elements => simp
  | bytes => simp

end CostContext

namespace Io

variable {α K : Type} [Scalar α] [Field K] [LinearOrder K] [IsStrictOrderedRing K] [Valued α K]

theorem value_inTraffic (io : Io) (cx : CostContext) :
    value (io.inTraffic cx : α) =
      (io.inputs.map fun t => (t.size : K) * cx.weight t.dtype).sum := by
  rw [inTraffic, value_sum, List.map_map]
  simp only [Function.comp_def, CostContext.value_traffic]

theorem value_outTraffic (io : Io) (cx : CostContext) :
    value (io.outTraffic cx : α) =
      (io.outputs.map fun t => (t.size : K) * cx.weight t.dtype).sum := by
  rw [outTraffic, value_sum, List.map_map]
  simp only [Function.comp_def, CostContext.value_traffic]

end Io

end DataflowCost
