import DataflowCost.Proofs.NonNegative.Basic

/-! Reductions and normalization layers. None of them subtracts; rows are counted by a quotient, and
the lanes of a row are kept above one. -/
namespace DataflowCost

open Scalar Inference Family
open scoped ExactArithmetic

variable {α K : Type} [Scalar α] [Field K] [LinearOrder K] [IsStrictOrderedRing K] [Valued α K]

@[grind ←] theorem nonneg_rowLanes (length : α) : IsNonneg (rowLanes length) := by
  grind [rowLanes]

namespace Reduce

theorem nonneg_computeTime (d : Reduce) (s : Shape) : IsNonneg (d.computeTime s : α) := by
  unfold computeTime
  grind

theorem nonneg_memoryCost (d : Reduce) (rank : Nat) {input output : α} (hinput : IsNonneg input)
    (houtput : IsNonneg output) : IsNonneg (d.memoryCost rank input output) := by
  unfold memoryCost
  grind

theorem nonneg_parallelism [Signed α] (d : Reduce) (s : Shape) :
    IsNonneg (d.parallelism s : α) := by
  unfold parallelism
  grind

end Reduce

instance : NonNegative Reduce where
  nonneg {_ _ _ _ _ _ _ _ d _ _ cx _} _ hm := by
    obtain ⟨x, _, hm⟩ := Option.bind_eq_some_iff.mp hm
    obtain rfl := Option.some.inj hm
    exact {
      computeTime := d.nonneg_computeTime x.shape
      memoryCost := d.nonneg_memoryCost x.rank (.inTraffic cx _) (.outTraffic cx _)
      parallelism := fun _ => d.nonneg_parallelism x.shape }

instance : NonNegative Softmax where
  nonneg {α _ _ _ _ _ _ _ _ _ _ _ _} _ hm := by
    obtain ⟨x, _, hm⟩ := Option.bind_eq_some_iff.mp hm
    obtain ⟨extent, _, hm⟩ := Option.bind_eq_some_iff.mp hm
    obtain rfl := Option.some.inj hm
    have hrows : IsNonneg (x.elements / ofNat (max extent 1) : α) := by grind
    refine ⟨?_, ?_, fun _ => ?_⟩ <;> grind

instance : NonNegative LayerNorm where
  nonneg {α _ _ _ _ _ _ _ _ inputs _ _ _} _ hm := by
    obtain ⟨x, _, hm⟩ := Option.bind_eq_some_iff.mp hm
    obtain ⟨outer, _, hm⟩ := Option.bind_eq_some_iff.mp hm
    obtain ⟨normalized, _, hm⟩ := Option.bind_eq_some_iff.mp hm
    obtain rfl := Option.some.inj hm
    have helements : IsNonneg (volume outer * volume normalized : α) := by grind
    have hbias : IsNonneg (if 2 < inputs.length then 1.0 else 0.0 : α) := by grind
    refine ⟨?_, ?_, fun _ => ?_⟩ <;> grind

instance : NonNegative RmsNorm where
  nonneg _ hm := by
    obtain ⟨x, _, hm⟩ := Option.bind_eq_some_iff.mp hm
    obtain rfl := Option.some.inj hm
    refine ⟨?_, ?_, fun _ => ?_⟩ <;> grind

instance : NonNegative BatchNorm where
  nonneg _ hm := by
    obtain ⟨x, _, hm⟩ := Option.bind_eq_some_iff.mp hm
    obtain ⟨batch, _, hm⟩ := Option.bind_eq_some_iff.mp hm
    obtain ⟨channels, _, hm⟩ := Option.bind_eq_some_iff.mp hm
    obtain rfl := Option.some.inj hm
    refine ⟨?_, ?_, fun _ => ?_⟩ <;> grind

instance : NonNegative InstanceNorm where
  nonneg _ hm := by
    obtain ⟨x, _, hm⟩ := Option.bind_eq_some_iff.mp hm
    obtain ⟨batch, _, hm⟩ := Option.bind_eq_some_iff.mp hm
    obtain ⟨channels, _, hm⟩ := Option.bind_eq_some_iff.mp hm
    obtain rfl := Option.some.inj hm
    refine ⟨?_, ?_, fun _ => ?_⟩ <;> grind

instance : NonNegative LocalResponseNorm where
  nonneg {α _ _ _ _ _ _ _ d _ _ _ _} _ hm := by
    obtain ⟨x, _, hm⟩ := Option.bind_eq_some_iff.mp hm
    obtain ⟨batch, _, hm⟩ := Option.bind_eq_some_iff.mp hm
    obtain ⟨channels, _, hm⟩ := Option.bind_eq_some_iff.mp hm
    obtain ⟨spatial, _, hm⟩ := Option.bind_eq_some_iff.mp hm
    obtain rfl := Option.some.inj hm
    have hpositions : IsNonneg (ofNat batch * volume spatial : α) := by grind
    have hlanes : IsNonneg (minimum (ceil (ofNat channels / ofNat d.size)) 4.0 : α) := by grind
    refine ⟨?_, ?_, fun _ => ?_⟩ <;> grind

end DataflowCost
