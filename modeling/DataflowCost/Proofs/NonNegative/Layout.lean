import DataflowCost.Proofs.NonNegative.Basic

/-! Families that regroup, permute, join or cut. Two of them discount their parallelism for
disorder. A slice does so by a twentieth up to five times for an axis, a transposition by a
twentieth for each axis beyond the third, of which there may be any number. -/
namespace DataflowCost

open Scalar Inference Family
open scoped ExactArithmetic

variable {α K : Type} [Scalar α] [Field K] [LinearOrder K] [IsStrictOrderedRing K] [Valued α K]

theorem nonneg_relayout {copies : Bool} {rate : α} (hrate : IsNonneg rate) {io : Io}
    {cx : CostContext} {m : Metrics α} (hm : Metrics.relayout copies rate io cx = some m) :
    m.IsNonneg False := by
  unfold Metrics.relayout at hm
  cases copies with
  | false =>
    obtain rfl := Option.some.inj hm
    exact ⟨.literal _ _ _, .literal _ _ _, fun _ => .literal _ _ _⟩
  | true =>
    obtain ⟨x, _, hm⟩ := Option.bind_eq_some_iff.mp hm
    obtain rfl := Option.some.inj hm
    refine ⟨?_, ?_, fun _ => ?_⟩ <;> grind

instance : NonNegative Reshape where
  nonneg _ hm := by
    obtain ⟨x, _, hm⟩ := Option.bind_eq_some_iff.mp hm
    obtain ⟨out, _, hm⟩ := Option.bind_eq_some_iff.mp hm
    exact nonneg_relayout (.literal _ _ _) hm

instance : NonNegative Flatten where
  nonneg _ hm := nonneg_relayout (.literal _ _ _) hm

instance : NonNegative Squeeze where
  nonneg _ hm := nonneg_relayout (.literal _ _ _) hm

instance : NonNegative Unsqueeze where
  nonneg _ hm := nonneg_relayout (.literal _ _ _) hm

instance : NonNegative Identity where
  nonneg _ hm := by
    obtain ⟨x, _, hm⟩ := Option.bind_eq_some_iff.mp hm
    obtain rfl := Option.some.inj hm
    refine ⟨?_, ?_, fun _ => ?_⟩ <;> grind

instance : NonNegative Expand where
  nonneg _ hm := by
    obtain ⟨x, _, hm⟩ := Option.bind_eq_some_iff.mp hm
    obtain ⟨out, _, hm⟩ := Option.bind_eq_some_iff.mp hm
    obtain rfl := Option.some.inj hm
    refine ⟨?_, ?_, fun _ => ?_⟩ <;> grind

namespace Transpose

/-- More than seventeen axes, of which too few neighbours stay together. -/
def Overdrawn (d : Transpose) : Prop := 17 + adjacent d.resolved < d.resolved.length

theorem nonneg_computeTime (axes : List Nat) {size : α} (hsize : IsNonneg size) :
    IsNonneg (computeTime axes size) := by
  have hfar : IsNonneg (sum ((farMoves axes).map fun move => 0.2 * ofNat move) : α) := by
    apply IsNonneg.sum
    grind
  have hslow : IsNonneg (2e9 / 2.0 : α) := by grind
  unfold computeTime
  split
  · exact .literal _ _ _
  · grind

theorem nonneg_memoryCost (axes : List Nat) {traffic : α} (htraffic : IsNonneg traffic) :
    IsNonneg (memoryCost axes traffic) := by
  have hfar : IsNonneg (sum ((farMoves axes).map fun move => 0.1 * ofNat move) : α) := by
    apply IsNonneg.sum
    grind
  unfold memoryCost
  grind

/-- In the order of the input every axis but the first has its neighbour in front of it. -/
theorem adjacent_range (rank : Nat) : adjacent (List.range rank) = rank - 1 := by
  have hlen : ((List.range rank).zip ((List.range rank).drop 1)).length = rank - 1 := by simp
  unfold adjacent
  rw [← hlen, List.countP_eq_length]
  intro pair hpair
  obtain ⟨i, hi, rfl⟩ := List.mem_iff_getElem.mp hpair
  simp [distance]

theorem isIdentity_eq_false {axes : List Nat} (h : 17 + adjacent axes < axes.length) :
    isIdentity axes = false := by
  apply Bool.eq_false_iff.mpr
  intro hidentity
  have haxes : axes = List.range axes.length := eq_of_beq hidentity
  rw [haxes, adjacent_range, List.length_range] at h
  omega

/-- What disorder leaves of the parallelism. -/
def share (K : Type) [Field K] (axes : List Nat) : K :=
  ((14 + adjacent axes : Nat) - (axes.length - 3 : Nat)) / 20

theorem share_neg_iff (axes : List Nat) :
    share K axes < 0 ↔ 17 + adjacent axes < axes.length := by
  rw [share, div_lt_iff₀ (by norm_num), zero_mul, sub_neg, Nat.cast_lt]
  omega

theorem value_parallelism {axes : List Nat} (h : isIdentity axes = false) (size : α) :
    value (parallelism axes size) = min (value (sqrt size) * share K axes) 512 := by
  have hshare : value (0.7 - 0.05 * ofNat (axes.length - 3) + 0.05 * ofNat (adjacent axes) : α) =
      share K axes := by
    simp only [share, Valued.value_add, Valued.value_sub, Valued.value_mul, Valued.value_literal,
      Valued.value_ofNat]
    push_cast
    ring
  rw [parallelism, h, if_neg Bool.false_ne_true, capped, Valued.value_minimum, Valued.value_mul,
    hshare, Valued.value_literal]
  norm_num

theorem value_parallelism_nonneg_iff [Signed α] (axes : List Nat) (size : α) :
    0 ≤ value (parallelism axes size) ↔
      ¬(17 + adjacent axes < axes.length ∧ 0 < value (sqrt size)) := by
  have hroot : 0 ≤ value (sqrt size) := Signed.sqrt_nonneg size
  cases hidentity : isIdentity axes with
  | true =>
    have henough : ¬17 + adjacent axes < axes.length := by
      intro hfew
      rw [isIdentity_eq_false hfew] at hidentity
      cases hidentity
    rw [parallelism, hidentity, if_pos rfl, Valued.value_literal]
    norm_num [henough]
  | false =>
    rw [value_parallelism hidentity, le_min_iff, ← share_neg_iff (K := K)]
    constructor
    · rintro ⟨hproduct, _⟩ ⟨hshare, hpos⟩
      exact absurd hproduct (not_le.mpr (mul_neg_of_pos_of_neg hpos hshare))
    · intro hnot
      refine ⟨?_, by norm_num⟩
      -- A negative share does no harm where there is nothing to share.
      rcases hroot.eq_or_lt with hzero | hpos
      · rw [← hzero, zero_mul]
      · exact mul_nonneg hroot (not_lt.mp fun hshare => hnot ⟨hshare, hpos⟩)

theorem isNonneg [Signed α] {d : Transpose} {io : Io} {cx : CostContext} {m : Metrics α}
    (hm : metrics d io cx = some m) : m.IsNonneg d.Overdrawn := by
  obtain ⟨x, _, hm⟩ := Option.bind_eq_some_iff.mp hm
  obtain rfl := Option.some.inj hm
  refine ⟨nonneg_computeTime _ (.elements x), nonneg_memoryCost _ ?_, fun hfew => ?_⟩
  · grind
  · apply (value_parallelism_nonneg_iff d.resolved x.elements).mpr
    exact fun hover => hfew hover.1

end Transpose

@[grind ←] theorem DepthToSpace.nonneg_blockFactor [Signed α] (d : DepthToSpace) {weight : α}
    (hweight : IsNonneg weight) : IsNonneg (d.blockFactor weight) := by
  grind [blockFactor]

instance : NonNegative DepthToSpace where
  nonneg _ hm := by
    obtain ⟨x, _, hm⟩ := Option.bind_eq_some_iff.mp hm
    obtain rfl := Option.some.inj hm
    refine ⟨?_, ?_, fun _ => ?_⟩ <;> grind

instance : NonNegative Concat where
  nonneg {α _ _ _ _ _ _ _ _ inputs _ _ _} _ hm := by
    obtain ⟨out, _, hm⟩ := Option.bind_eq_some_iff.mp hm
    obtain rfl := Option.some.inj hm
    have hsum : IsNonneg (sum (inputs.map TensorType.elements) : α) := by
      apply IsNonneg.sum
      grind
    refine ⟨?_, ?_, fun _ => ?_⟩ <;> grind

namespace Split

@[grind ←] theorem nonneg_computeTime [Signed α] (d : Split) (x : TensorType) :
    IsNonneg (d.computeTime x : α) := by
  unfold computeTime
  grind

@[grind ←] theorem nonneg_accessFactor (d : Split) (rank : Nat) :
    IsNonneg (d.accessFactor rank : α) := by
  unfold accessFactor
  grind

end Split

instance : NonNegative Split where
  nonneg _ hm := by
    obtain ⟨x, _, hm⟩ := Option.bind_eq_some_iff.mp hm
    obtain ⟨out, _, hm⟩ := Option.bind_eq_some_iff.mp hm
    obtain rfl := Option.some.inj hm
    refine ⟨?_, ?_, fun _ => ?_⟩ <;> grind

instance : NonNegative Extend where
  nonneg _ hm := by
    obtain ⟨x, _, hm⟩ := Option.bind_eq_some_iff.mp hm
    obtain ⟨out, _, hm⟩ := Option.bind_eq_some_iff.mp hm
    obtain ⟨extent, _, hm⟩ := Option.bind_eq_some_iff.mp hm
    obtain rfl := Option.some.inj hm
    refine ⟨?_, ?_, fun _ => ?_⟩ <;> grind

namespace Slice

@[grind ←] theorem nonneg_discontinuity (ranges : List AxisRange) :
    IsNonneg (discontinuity ranges : α) := by
  grind [discontinuity]

@[grind ←] theorem nonneg_accessFactor (ranges : List AxisRange) :
    IsNonneg (accessFactor ranges : α) := by
  apply IsNonneg.add (.literal _ _ _)
  apply IsNonneg.sum
  grind

/-- A step counts five times at most, so that three quarters are left. -/
@[grind ←] theorem nonneg_efficiency (ranges : List AxisRange) :
    IsNonneg (efficiency ranges : α) := by
  apply IsNonneg.product
  intro x hx
  obtain ⟨r, _, rfl⟩ := List.mem_map.mp hx
  have hstep : ((min (r.step.natAbs - 1) 5 : Nat) : K) ≤ 5 := by
    exact_mod_cast Nat.min_le_right _ _
  rw [IsNonneg, Valued.value_sub, Valued.value_mul, Valued.value_ofNat, Valued.value_literal,
    Valued.value_literal]
  linarith

end Slice

instance : NonNegative Slice where
  nonneg _ hm := by
    obtain ⟨out, _, hm⟩ := Option.bind_eq_some_iff.mp hm
    obtain rfl := Option.some.inj hm
    refine ⟨?_, ?_, fun _ => ?_⟩ <;> grind

/-- What is read comes back in what is copied, so the difference does no harm. -/
theorem Pad.nonneg_work (input out : Nat) :
    IsNonneg (2.0 * ofNat input + (ofNat out - ofNat input) + 0.1 * ofNat out : α) := by
  have hinput : (0 : K) ≤ input := Nat.cast_nonneg input
  have hout : (0 : K) ≤ out := Nat.cast_nonneg out
  simp only [IsNonneg, Valued.value_add, Valued.value_sub, Valued.value_mul, Valued.value_literal,
    Valued.value_ofNat]
  linarith

instance : NonNegative Pad where
  nonneg {α _ _ _ _ _ _ _ _ _ _ _ _} _ hm := by
    obtain ⟨x, _, hm⟩ := Option.bind_eq_some_iff.mp hm
    obtain ⟨out, _, hm⟩ := Option.bind_eq_some_iff.mp hm
    obtain ⟨totals, _, hm⟩ := Option.bind_eq_some_iff.mp hm
    obtain rfl := Option.some.inj hm
    have hwork : IsNonneg
        (2.0 * x.elements + (out.elements - x.elements) + 0.1 * out.elements : α) :=
      Pad.nonneg_work x.size out.size
    refine ⟨?_, ?_, fun _ => ?_⟩ <;> grind

end DataflowCost
