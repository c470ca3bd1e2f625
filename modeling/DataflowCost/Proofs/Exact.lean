import DataflowCost.Numeric.Scalar
import DataflowCost.Tensor.Shape
import Mathlib.Analysis.SpecialFunctions.Log.Base

/-! Arithmetic without rounding. Counts are added and multiplied as what they count, so the volume of
a shape is its element count. The reals are an example. -/
namespace DataflowCost

namespace Scalar

/-- Counts are represented exactly. Nothing is said of any other value. -/
class Exact (α : Type) [Scalar α] : Prop where
  one_eq : (1.0 : α) = ofNat 1
  addUnit_eq : (addUnit : α) = ofNat 0
  ofNat_add : ∀ a b : Nat, (ofNat (a + b) : α) = ofNat a + ofNat b
  ofNat_mul : ∀ a b : Nat, (ofNat (a * b) : α) = ofNat a * ofNat b

open Classical in
noncomputable instance : Scalar ℝ where
  ofNat n := n
  addUnit := 0
  minimum := min
  maximum := max
  abs a := |a|
  sqrt := Real.sqrt
  binaryLog := Real.logb 2
  floor a := ⌊a⌋
  ceil a := ⌈a⌉
  lt a b := decide (a < b)
  le a b := decide (a ≤ b)

instance : Exact ℝ where
  one_eq := by norm_num [ofNat]
  addUnit_eq := by simp [ofNat, addUnit]
  ofNat_add a b := Nat.cast_add a b
  ofNat_mul a b := Nat.cast_mul a b

variable {α : Type} [Scalar α] [Exact α]

theorem volume_eq (s : Shape) : (volume s : α) = ofNat s.size := by
  -- The factors so far are a count, and the next extent is multiplied to it.
  have hfrom (count : Nat) : (s.map ofNat).foldl (· * ·) (ofNat count : α) =
      ofNat (count * s.size) := by
    induction s generalizing count with
    | nil => rw [List.map_nil, List.foldl_nil, Shape.size, List.foldr_nil, Nat.mul_one]
    | cons extent s ih =>
      have hsize : Shape.size (extent :: s) = extent * Shape.size s := rfl
      rw [List.map_cons, List.foldl_cons, ← Exact.ofNat_mul, ih, hsize, Nat.mul_assoc]
  have hall := hfrom 1
  rw [← Exact.one_eq, Nat.one_mul] at hall
  exact hall

theorem sum_ofNat (counts : List Nat) : sum (counts.map (ofNat (α := α))) = ofNat counts.sum := by
  have hfrom (count : Nat) : (counts.map ofNat).foldl (· + ·) (ofNat count : α) =
      ofNat (count + counts.sum) := by
    induction counts generalizing count with
    | nil => rw [List.map_nil, List.foldl_nil, List.sum_nil, Nat.add_zero]
    | cons c counts ih =>
      rw [List.map_cons, List.foldl_cons, ← Exact.ofNat_add, ih, List.sum_cons, Nat.add_assoc]
  have hall := hfrom 0
  rw [← Exact.addUnit_eq, Nat.zero_add] at hall
  exact hall

end Scalar

end DataflowCost
