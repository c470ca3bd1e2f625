import DataflowCost.Proofs.Activation
import DataflowCost.Proofs.Families.Pointwise
import DataflowCost.Proofs.Keys.Pointwise
import DataflowCost.Proofs.Monotone.Basic

/-! Costs of element-by-element families. A selection is charged more for an operand that is
stretched; where an operand grows to the shape of the output, it no longer is, and the growth of the
output makes up for that. -/
namespace DataflowCost

open Scalar Inference Family
open scoped ExactArithmetic

variable {α K : Type} [Scalar α] [Field K] [LinearOrder K] [IsStrictOrderedRing K] [Valued α K]

namespace Unary

theorem value_work_nonneg (k : Kind) : 0 ≤ value (work k : α) := by
  unfold work
  split <;> norm_num

theorem value_trafficFactor_nonneg (k : Kind) : 0 ≤ value (trafficFactor k : α) := by
  unfold trafficFactor
  split <;> norm_num

theorem eq_given {given d : Unary} {inputs outputs : List TensorType}
    (h : Settles given inputs d outputs) : d = given :=
  h.eq_of_meets ((meets_require _ _).bind fun _ _ => meets_ok rfl)

end Unary

instance : Monotone Unary where
  below {α K _ _ _ _ _ given d d' inputs inputs' outputs outputs' cx m m'} _ hcx h h' hgrown _ hm
      hm' := by
    obtain rfl := Unary.eq_given h
    obtain rfl := Unary.eq_given h'
    obtain ⟨x, rest, out, rfl, rfl, hout⟩ := exists_sameShape h.outShapes_eq
    obtain ⟨x', rest', out', rfl, rfl, hout'⟩ := exists_sameShape h'.outShapes_eq
    obtain rfl := Option.some.inj hm
    obtain rfl := Option.some.inj hm'
    have hx : (x.size : K) ≤ x'.size := hgrown.head.cast_size_le
    have houts : Grown [out] [out'] := hgrown.sameShape hout hout'
    have hin := value_sum_traffic_le (α := α) hcx hgrown
    have hwritten := value_sum_traffic_le (α := α) hcx houts
    have hwork := Unary.value_work_nonneg (α := α) d'.kind
    have hfactor := Unary.value_trafficFactor_nonneg (α := α) d'.kind
    constructor
    · simp only [Valued.value_div, Valued.value_mul, value_elements, Valued.value_literal]
      gcongr
    · simp only [Valued.value_add, Valued.value_mul]
      exact mul_le_mul_of_nonneg_right (add_le_add hin hwritten) hfactor

namespace Elementwise

theorem value_complexity_nonneg (k : Kind) : 0 ≤ value (complexity k : α) := by
  unfold complexity
  split <;> norm_num

theorem eq_given {given d : Elementwise} {inputs outputs : List TensorType}
    (h : Settles given inputs d outputs) : d = given :=
  h.eq_of_meets given.meets_check

/-- The output of two operands is their broadcast. -/
theorem exists_broadcast {d : Elementwise} {inputs outputs : List TensorType}
    (h : Registered d inputs outputs) : ∃ a b rest out, inputs = a :: b :: rest ∧
      outputs = [out] ∧ a.shape.broadcast b.shape = .ok out.shape := by
  obtain ⟨a, b, rest, rfl⟩ := Arity.exists_cons₂_of_accepts h.accepts (Nat.le_refl 2)
  obtain ⟨out, hout, hshape⟩ := exists_single (r := a.shape.broadcast b.shape) h.outShapes_eq
  exact ⟨a, b, rest, out, rfl, hout, hshape⟩

end Elementwise

instance : Monotone Elementwise where
  below {α K _ _ _ _ _ given d d' inputs inputs' outputs outputs' cx m m'} _ hcx h h' hgrown _ hm
      hm' := by
    obtain rfl := Elementwise.eq_given h
    obtain rfl := Elementwise.eq_given h'
    obtain ⟨a, b, rest, out, rfl, rfl, hout⟩ := Elementwise.exists_broadcast h.toRegistered
    obtain ⟨a', b', rest', out', rfl, rfl, hout'⟩ := Elementwise.exists_broadcast h'.toRegistered
    obtain rfl := Option.some.inj hm
    obtain rfl := Option.some.inj hm'
    have ha := hgrown.head
    have hb := hgrown.tail.head
    have hsize : (out.size : K) ≤ out'.size := (ha.broadcast hb hout hout').cast_size_le
    have hact : value (d'.act.extra out.elements : α) ≤ value (d'.act.extra out'.elements : α) := by
      apply value_extra_mono
      rw [value_elements, value_elements]
      exact hsize
    have hcomplexity := Elementwise.value_complexity_nonneg (α := α) d'.kind
    constructor
    · change value ((out.elements * Elementwise.complexity d'.kind +
          d'.act.extra out.elements) / 1e9 : α) ≤
        value ((out'.elements * Elementwise.complexity d'.kind +
          d'.act.extra out'.elements) / 1e9 : α)
      simp only [Valued.value_div, Valued.value_add, Valued.value_mul, value_elements,
        Valued.value_literal]
      gcongr
    · have hleast : min (a.size : K) b.size ≤ min (a'.size : K) b'.size :=
        min_le_min ha.cast_size_le hb.cast_size_le
      simp only [Valued.value_add, Valued.value_mul, Valued.value_minimum, Valued.value_literal,
        CostContext.value_traffic_eq hcx]
      gcongr

namespace Select

/-- What an operand is charged for being stretched. -/
def access (out t : TensorType) : α := if t.shape != out.shape then 1.2 else 1.0

theorem value_access_of_eq {out t : TensorType} (h : t.shape = out.shape) :
    value (access out t : α) = 1 := by
  have hplain : ¬ (t.shape != out.shape) = true := by simp [h]
  rw [access, if_neg hplain]
  norm_num

theorem value_access_of_ne {out t : TensorType} (h : t.shape ≠ out.shape) :
    value (access out t : α) = 1.2 := by
  have hstretched : (t.shape != out.shape) = true := by simp [h]
  rw [access, if_pos hstretched, Valued.value_literal]

/-- The charge falls by no more than a part of what the output grows. -/
theorem size_mul_access_le {t t' out out' : TensorType} (ht : Shape.Within t.shape t'.shape)
    (hout : Shape.Within out.shape out'.shape)
    (hstretches : out.shape.broadcastsInto t.shape = true) :
    (t.size : K) * value (access out t : α) ≤
      t'.size * value (access out' t' : α) + 0.2 * ((out'.size : K) - out.size) := by
  have hsize : (t.size : K) ≤ t'.size := ht.cast_size_le
  have houtSize : (out.size : K) ≤ out'.size := hout.cast_size_le
  have hpos : (0 : K) ≤ t.size := Nat.cast_nonneg t.size
  by_cases hsame' : t'.shape = out'.shape
  · have hall : (t'.size : K) = out'.size := by rw [TensorType.size, TensorType.size, hsame']
    rw [value_access_of_eq hsame']
    by_cases hsame : t.shape = out.shape
    · rw [value_access_of_eq hsame]
      linarith
    · have hrank : t.shape.length = out.shape.length := by
        rw [ht.rank_eq, hsame', hout.rank_eq]
      rw [value_access_of_ne hsame]
      -- The operand was no more than half of the output, or there was no output at all.
      rcases Shape.two_mul_size_le hstretches hrank hsame with hzero | hdouble
      · have hempty : (out.size : K) = 0 := Nat.cast_eq_zero.mpr hzero
        linarith
      · have hhalf : (2 * t.size : K) ≤ out.size := by exact_mod_cast hdouble
        linarith
  · rw [value_access_of_ne hsame']
    by_cases hsame : t.shape = out.shape
    · rw [value_access_of_eq hsame]
      linarith
    · rw [value_access_of_ne hsame]
      linarith

theorem computeTime_le {x y c out x' y' c' out' : TensorType}
    (hx : Shape.Within x.shape x'.shape) (hy : Shape.Within y.shape y'.shape)
    (hc : Shape.Within c.shape c'.shape) (hout : Shape.Within out.shape out'.shape) :
    value ((out.elements * 2.0 +
        (0.1 * x.elements + 0.1 * y.elements + 0.2 * c.elements)) / 3e9 : α) ≤
      value ((out'.elements * 2.0 +
        (0.1 * x'.elements + 0.1 * y'.elements + 0.2 * c'.elements)) / 3e9 : α) := by
  have hx : (x.size : K) ≤ x'.size := hx.cast_size_le
  have hy : (y.size : K) ≤ y'.size := hy.cast_size_le
  have hc : (c.size : K) ≤ c'.size := hc.cast_size_le
  have hout : (out.size : K) ≤ out'.size := hout.cast_size_le
  simp only [Valued.value_div, Valued.value_add, Valued.value_mul, value_elements,
    Valued.value_literal]
  gcongr

/-- Operands and output are charged in sum; the weights of the operands add up to less than five, so
that what is saved on operands is less than what the output costs more. -/
theorem memoryCost_le {x y c out x' y' c' out' : TensorType} {cx : CostContext}
    (hcx : cx.memoryUnit = .elements)
    (hx : (x.size : K) * value (access out x : α) ≤
      x'.size * value (access out' x' : α) + 0.2 * ((out'.size : K) - out.size))
    (hy : (y.size : K) * value (access out y : α) ≤
      y'.size * value (access out' y' : α) + 0.2 * ((out'.size : K) - out.size))
    (hc : (c.size : K) * value (access out c : α) ≤
      c'.size * value (access out' c' : α) + 0.2 * ((out'.size : K) - out.size))
    (hout : (out.size : K) ≤ out'.size) :
    value (cx.traffic c * access out c * 0.25 + cx.traffic x * access out x +
        cx.traffic y * access out y + cx.traffic out : α) ≤
      value (cx.traffic c' * access out' c' * 0.25 + cx.traffic x' * access out' x' +
        cx.traffic y' * access out' y' + cx.traffic out' : α) := by
  simp only [Valued.value_add, Valued.value_mul, Valued.value_literal,
    CostContext.value_traffic_eq hcx]
  linarith

end Select

instance : Monotone Select where
  below {α K _ _ _ _ _ given d d' inputs inputs' outputs outputs' cx m m'} _ hcx h h' hgrown _ hm
      hm' := by
    obtain ⟨x, y, c, rest, rfl⟩ := Arity.exists_cons₃_of_accepts h.accepts (Nat.le_refl 3)
    obtain ⟨x', y', c', rest', rfl⟩ := Arity.exists_cons₃_of_accepts h'.accepts (Nat.le_refl 3)
    obtain ⟨out, rfl, hout⟩ := exists_single h.outShapes_eq
    obtain ⟨out', rfl, hout'⟩ := exists_single h'.outShapes_eq
    have hx := hgrown.head
    have hy := hgrown.tail.head
    have hc := hgrown.tail.tail.head
    have houts : Shape.Within out.shape out'.shape :=
      Shape.Within.foldlM_broadcast hgrown.shapes (.refl []) hout hout'
    have hjoin := Shape.broadcastAll_eq_ok_iff.mp hout
    obtain ⟨width, unit⟩ := cx
    obtain rfl : unit = .elements := hcx
    obtain rfl := Option.some.inj hm
    obtain rfl := Option.some.inj hm'
    constructor
    · exact Select.computeTime_le hx hy hc houts
    · apply Select.memoryCost_le rfl
      · exact Select.size_mul_access_le hx houts (hjoin.above x.shape (by simp))
      · exact Select.size_mul_access_le hy houts (hjoin.above y.shape (by simp))
      · exact Select.size_mul_access_le hc houts (hjoin.above c.shape (by simp))
      · exact houts.cast_size_le

end DataflowCost
