import DataflowCost.Families.Concat
import DataflowCost.Families.Convolution
import DataflowCost.Families.MatMul
import DataflowCost.Families.Permute
import DataflowCost.Families.Pool
import DataflowCost.Families.Reshape
import DataflowCost.Families.Slice
import DataflowCost.Proofs.Words

/-! What inference comes down to where integers have no bound. No step of the arithmetic can fail there, so
the checks and the results are those of plain numbers. -/
namespace DataflowCost

open Inference
open scoped ExactArithmetic

namespace Window

/-- Once the padding of both ends has been added up, nothing in the count is beyond a word. -/
theorem positions_eq [Build] {pad both : Nat} (h : Word.mul 2 pad = .ok both)
    (input kernel stride dilation : Nat) : positions input kernel stride dilation pad = (do
      require (0 < kernel) .emptyKernel
      let window := span kernel dilation
      require (window < Word.limit) .windowOverflow
      let padded := input + both
      require (padded < Word.limit) .paddedOverflow
      require (window ≤ padded) (.windowTooLarge window padded)
      return (← quotient (padded - window) stride) + 1) := by
  unfold positions
  rw [h]
  rfl

theorem positions_exact (input kernel stride dilation pad : Nat) :
    positions input kernel stride dilation pad = (do
      require (0 < kernel) .emptyKernel
      let window := span kernel dilation
      require (window < Word.limit) .windowOverflow
      let padded := input + 2 * pad
      require (padded < Word.limit) .paddedOverflow
      require (window ≤ padded) (.windowTooLarge window padded)
      return (← quotient (padded - window) stride) + 1) := positions_eq rfl input kernel stride dilation

end Window

theorem Pool.pooled_exact (d : Pool) (axis : Fin 2) (input : Nat) : d.pooled axis input = (do
    let window := Window.span (d.kernel.get axis) (d.dilations.get axis)
    let padded := input + 2 * d.pads.get axis
    require (window ≤ padded) (.poolWindowTooLarge window padded)
    let free := padded - window
    let steps ← if d.ceilMode then quotientUp free (d.strides.get axis)
      else quotient free (d.strides.get axis)
    return steps + 1) := rfl

theorem Reshape.resolveTarget_exact (target : List Int) (input : Shape) :
    resolveTarget target input = (do
      let (known, open?) ← pattern input target
      let out ← match open? with
        | some position => do
          require (0 < known.size ∧ input.size % known.size = 0) (.cannotInfer input.size target)
          overwrite known position (← quotient input.size known.size)
        | none => .ok known
      let found := Shape.size out
      require (found = input.size) (.targetSize target found input.size)
      return out) := by
  unfold resolveTarget
  simp only [Word.product_exact]
  rfl

theorem Flatten.outShape_exact (d : Flatten) (s : Shape) : d.outShape s = (do
    let axis ← resolveAxis d.axis s.length
    let outer ← present (s.before? axis)
    let inner ← present (s.from? axis)
    return [outer.size, inner.size]) := by
  unfold outShape
  simp only [Word.product_exact]
  rfl

namespace Concat

theorem joined_cons_exact (axis : Nat) (first : Shape) (extent : Nat) (s : Shape)
    (rest : List Shape) : joined axis first extent (s :: rest) = (do
      require (s.length = first.length) (.concatRank s first)
      matchExtents axis s first
      joined axis first (extent + (← present s[axis]?)) rest) := rfl

theorem outShape_pair_eq [Build] (d : Concat) {a b : Shape} (ha : Build.Bounded → a.Fits)
    (hb : Build.Bounded → b.Fits) : d.outShape [a, b] =
    if a.size = 0 then .ok b
    else if b.size = 0 then .ok a
    else outShape.general d [a, b] := by
  unfold outShape
  simp only [Word.product_eq ha, Word.product_eq hb]
  rfl

theorem outShape_pair_exact (d : Concat) (a b : Shape) : d.outShape [a, b] =
    if a.size = 0 then .ok b
    else if b.size = 0 then .ok a
    else outShape.general d [a, b] :=
  d.outShape_pair_eq ExactArithmetic.elim ExactArithmetic.elim

end Concat

theorem Extend.outShape_exact (d : Extend) (s : Shape) : d.outShape s = (do
    let axis ← Axis.resolve d.axis s.length
    return s.set axis ((← present s[axis]?) * (d.num + 1))) := rfl

namespace AxisRange

/-- The number of positions of a range whose step is not zero. -/
def extent (r : AxisRange) : Nat :=
  let span := if 0 < r.step then r.stop - r.start else r.start - r.stop
  let step := r.step.natAbs
  ((span + step - 1) / step).toNat

theorem full_exact (extent : Nat) : full extent = ⟨0, extent, 1⟩ := rfl

/-- Divisions that round towards zero and downwards differ only below zero. -/
theorem toNat_tdiv {a b : Int} (h : 0 < b) : (a.tdiv b).toNat = (a / b).toNat := by
  rcases Int.le_total 0 a with ha | ha
  · rw [Int.tdiv_eq_ediv_of_nonneg ha]
  · have hnonneg : 0 ≤ (-a).tdiv b := Int.tdiv_nonneg (by omega) (Int.le_of_lt h)
    rw [Int.neg_tdiv] at hnonneg
    rw [Int.toNat_of_nonpos (by omega), Int.toNat_of_nonpos (Int.ediv_nonpos_of_nonpos_of_neg ha h)]

theorem count_exact (r : AxisRange) :
    r.count = if r.step = 0 then .error .fault else .ok r.extent := by
  have hdef : r.count = if (r.step.natAbs : Int) = 0 then .error .fault else
      .ok (((if 0 < r.step then r.stop - r.start else r.start - r.stop) + r.step.natAbs - 1).tdiv
        r.step.natAbs).toNat := rfl
  rw [hdef]
  by_cases hstep : r.step = 0
  · rw [if_pos (by omega), if_pos hstep]
  · rw [if_neg (by omega), if_neg hstep, toNat_tdiv (by omega)]
    rfl

/-- A bound counted from the end if negative, then moved to the nearest position that a range with
this step can start or stop at. -/
def limited (bound : Int) (extent : Nat) (step : Int) : Int :=
  let bound := if bound < 0 then bound + extent else bound
  if 0 < step then max 0 (min bound extent) else max (-1) (min bound (extent - 1))

/-- The range between two bounds that are moved onto an axis. -/
def cut (start stop step : Int) (extent : Nat) : AxisRange :=
  ⟨limited start extent step, limited stop extent step, step⟩

theorem clampBound_exact (bound : Int) (extent : Nat) (step : Int) :
    clampBound bound extent step = .ok (limited bound extent step) := by
  have hforward (b : Int) : Word.clamp 0 extent b = .ok (max 0 (min b extent)) :=
    if_pos (Int.natCast_nonneg extent)
  have hback (b : Int) : Word.clamp (-1) (extent - 1) b = .ok (max (-1) (min b (extent - 1))) :=
    if_pos (by omega)
  have hmoved (b : Int) : (if 0 < step then Word.clamp 0 extent b
      else Word.clamp (-1) (extent - 1) b) =
      .ok (if 0 < step then max 0 (min b extent) else max (-1) (min b (extent - 1))) := by
    rw [hforward, hback]
    split <;> rfl
  unfold limited clampBound
  by_cases hneg : bound < 0
  · rw [if_pos hneg, if_pos hneg]
    exact hmoved (bound + extent)
  · rw [if_neg hneg, if_neg hneg]
    exact hmoved bound

theorem clamped_exact (start stop step : Int) (extent : Nat) :
    clamped start stop step extent = .ok (cut start stop step extent) := by
  unfold clamped
  rw [clampBound_exact, clampBound_exact]
  rfl

end AxisRange

theorem Slice.placeAt_exact (s : Shape) (starts ends steps : List Int) (ranges : List AxisRange)
    (axis i : Nat) : placeAt s starts ends steps ranges axis i = (do
      let extent ← present s[axis]?
      let start ← present starts[i]?
      let stop ← present ends[i]?
      let step ← present steps[i]?
      overwrite ranges axis (.cut start stop step extent)) := by
  unfold placeAt
  simp only [AxisRange.clamped_exact]
  rfl

theorem G2bmm.outShape_exact (d : G2bmm) (a b : Shape) : d.outShape a b = (do
    require (0 < d.dilation) .bandDilation
    let (batch, rows, _) ← Banded.operand? "A" a
    let _ ← Banded.operand? "B" b
    require (a = b) (.operandShapesDiffer a b)
    return [batch, rows, d.band]) := rfl

end DataflowCost
