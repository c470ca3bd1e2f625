import DataflowCost.Proofs.Keys.Basic
import DataflowCost.Proofs.Valued

/-! Estimates that are not below zero. Formulas add, multiply and divide counts, so most of them are
safe by their form; each rule of that kind is tagged for grind. What is left to a family are its
differences. -/
namespace DataflowCost

open Inference Family
open scoped ExactArithmetic

namespace Scalar

/-- Roots and clamped logarithms are not below zero, and rounding does not lead there. -/
class Signed (α : Type) [Scalar α] {K : outParam Type} [Field K] [LinearOrder K]
    [IsStrictOrderedRing K] [Valued α K] : Prop where
  sqrt_nonneg : ∀ a : α, 0 ≤ value (sqrt a)
  log2_nonneg : ∀ a : α, 0 ≤ value (log2 a)
  floor_nonneg : ∀ a : α, 0 ≤ value a → 0 ≤ value (floor a)
  ceil_nonneg : ∀ a : α, 0 ≤ value a → 0 ≤ value (ceil a)

instance : Signed ℝ where
  sqrt_nonneg := Real.sqrt_nonneg
  log2_nonneg a := by
    have hone : (1 : ℝ) ≤ max a 1.0 := le_max_of_le_right (by norm_num)
    exact Real.logb_nonneg one_lt_two hone
  floor_nonneg a ha := Int.cast_nonneg (Int.floor_nonneg.mpr ha)
  ceil_nonneg a ha := Int.cast_nonneg (Int.ceil_nonneg ha)

variable {α K : Type} [Scalar α] [Field K] [LinearOrder K] [IsStrictOrderedRing K] [Valued α K]
  {a b : α}

def IsNonneg (a : α) : Prop := 0 ≤ value a

namespace IsNonneg

@[grind ←] theorem ofNat (n : Nat) : IsNonneg (ofNat n : α) := by
  rw [IsNonneg, Valued.value_ofNat]
  exact Nat.cast_nonneg n

@[grind ←] theorem literal (mantissa : Nat) (negative : Bool) (exponent : Nat) :
    IsNonneg (OfScientific.ofScientific mantissa negative exponent : α) := by
  rw [IsNonneg, Valued.value_literal]
  exact NNRat.cast_nonneg _

@[grind ←] theorem add (ha : IsNonneg a) (hb : IsNonneg b) : IsNonneg (a + b) := by
  rw [IsNonneg, Valued.value_add]
  exact add_nonneg ha hb

@[grind ←] theorem mul (ha : IsNonneg a) (hb : IsNonneg b) : IsNonneg (a * b) := by
  rw [IsNonneg, Valued.value_mul]
  exact mul_nonneg ha hb

@[grind ←] theorem div (ha : IsNonneg a) (hb : IsNonneg b) : IsNonneg (a / b) := by
  rw [IsNonneg, Valued.value_div]
  exact div_nonneg ha hb

@[grind ←] theorem minimum (ha : IsNonneg a) (hb : IsNonneg b) : IsNonneg (minimum a b) := by
  rw [IsNonneg, Valued.value_minimum]
  exact le_min ha hb

@[grind ←] theorem capped (ha : IsNonneg a) (hb : IsNonneg b) : IsNonneg (capped a b) :=
  minimum ha hb

@[grind ←] theorem maximum_left (ha : IsNonneg a) (b : α) : IsNonneg (maximum a b) := by
  rw [IsNonneg, Valued.value_maximum]
  exact le_max_of_le_left ha

@[grind ←] theorem maximum_right (a : α) (hb : IsNonneg b) : IsNonneg (maximum a b) := by
  rw [IsNonneg, Valued.value_maximum]
  exact le_max_of_le_right hb

@[grind ←] theorem sum {xs : List α} (h : ∀ x ∈ xs, IsNonneg x) : IsNonneg (sum xs) := by
  rw [IsNonneg, value_sum]
  apply List.sum_nonneg
  intro v hv
  obtain ⟨x, hx, rfl⟩ := List.mem_map.mp hv
  exact h x hx

@[grind ←] theorem product {xs : List α} (h : ∀ x ∈ xs, IsNonneg x) :
    IsNonneg (product xs) := by
  have hfrom (a : α) (ha : IsNonneg a) : IsNonneg (xs.foldl (· * ·) a) := by
    induction xs generalizing a with
    | nil => exact ha
    | cons x xs ih =>
      rw [List.forall_mem_cons] at h
      exact ih h.2 (a * x) (mul ha h.1)
  exact hfrom 1.0 (literal 10 true 1)

@[grind ←] theorem volume (dims : List Nat) : IsNonneg (volume dims : α) := by
  apply product
  intro x hx
  obtain ⟨n, _, rfl⟩ := List.mem_map.mp hx
  exact ofNat n

@[grind ←] theorem elements (t : TensorType) : IsNonneg (t.elements : α) := ofNat t.size

section Signed

variable [Signed α]

@[grind ←] theorem sqrt (a : α) : IsNonneg (sqrt a) := Signed.sqrt_nonneg a

@[grind ←] theorem log2 (a : α) : IsNonneg (log2 a) := Signed.log2_nonneg a

@[grind ←] theorem floor (ha : IsNonneg a) : IsNonneg (floor a) := Signed.floor_nonneg a ha

@[grind ←] theorem ceil (ha : IsNonneg a) : IsNonneg (ceil a) := Signed.ceil_nonneg a ha

end Signed

section Context

variable (cx : CostContext)

@[grind ←] theorem width : IsNonneg (cx.width : α) := ofNat cx.worldSize

@[grind ←] theorem scaled (ha : IsNonneg a) (dtype : DType) : IsNonneg (cx.scaled a dtype) := by
  unfold CostContext.scaled
  cases cx.memoryUnit with
  | elements => exact ha
  | bytes => exact mul ha (ofNat dtype.bytes)

@[grind ←] theorem fromBytes (ha : IsNonneg a) (dtype : DType) :
    IsNonneg (cx.fromBytes a dtype) := by
  unfold CostContext.fromBytes
  cases cx.memoryUnit with
  | elements => exact div ha (ofNat dtype.bytes)
  | bytes => exact ha

@[grind ←] theorem traffic (t : TensorType) : IsNonneg (cx.traffic t : α) :=
  scaled cx (ofNat t.size) t.dtype

theorem sum_traffic (ts : List TensorType) : IsNonneg (Scalar.sum (ts.map cx.traffic) : α) := by
  apply sum
  intro x hx
  obtain ⟨t, _, rfl⟩ := List.mem_map.mp hx
  exact traffic cx t

@[grind ←] theorem inTraffic (io : Io) : IsNonneg (io.inTraffic cx : α) :=
  sum_traffic cx io.inputs

@[grind ←] theorem outTraffic (io : Io) : IsNonneg (io.outTraffic cx : α) :=
  sum_traffic cx io.outputs

end Context

end IsNonneg

end Scalar

open Scalar

/-- No time and no memory is below zero, and no parallelism either unless it is overdrawn. -/
structure Metrics.IsNonneg {α K : Type} [Scalar α] [Field K] [LinearOrder K]
    [IsStrictOrderedRing K] [Valued α K] (m : Metrics α) (overdrawn : Prop) : Prop where
  computeTime : Scalar.IsNonneg m.computeTime
  memoryCost : Scalar.IsNonneg m.memoryCost
  parallelism : ¬overdrawn → Scalar.IsNonneg m.parallelism

/-- A family in which the estimates of registered definitions are not below zero. -/
class NonNegative (δ : Type) [Family δ] : Prop where
  nonneg : ∀ {α K : Type} [Scalar α] [Field K] [LinearOrder K] [IsStrictOrderedRing K]
    [Valued α K] [Signed α] {d : δ} {inputs outputs : List TensorType} {cx : CostContext}
    {m : Metrics α}, Registered d inputs outputs →
    metrics d ⟨inputs, outputs⟩ cx = some m → m.IsNonneg False

end DataflowCost
