import DataflowCost.Proofs.Monotone.Window
import DataflowCost.Proofs.NonNegative.Basic

/-! Families that slide windows. Only the largest element of a pooling window is found with one
comparison less than the window has taps, and a registered window has one tap at least. -/
namespace DataflowCost

open Scalar Inference Family
open scoped ExactArithmetic

variable {α K : Type} [Scalar α] [Field K] [LinearOrder K] [IsStrictOrderedRing K] [Valued α K]

namespace Convolution

theorem nonneg_operations {io : Io} {operations : α} (h : operations? io = some operations) :
    IsNonneg operations := by
  obtain ⟨weight, _, h⟩ := Option.bind_eq_some_iff.mp h
  obtain ⟨out, _, h⟩ := Option.bind_eq_some_iff.mp h
  obtain ⟨taps, _, h⟩ := Option.bind_eq_some_iff.mp h
  obtain rfl := Option.some.inj h
  grind

@[grind ←] theorem nonneg_lanes (out : TensorType) : IsNonneg (lanes out : α) := by
  grind [lanes]

@[grind ←] theorem nonneg_activation (act : Activation) (out : TensorType) :
    IsNonneg (activation act out : α) := by
  grind [activation]

/-- A forward convolution, whatever its traffic is multiplied by. -/
theorem nonneg_metrics {n : Nat} {d : Conv n} {memoryFactor : α → α}
    (hfactor : ∀ traffic, IsNonneg traffic → IsNonneg (memoryFactor traffic)) {io : Io}
    {cx : CostContext} {m : Metrics α} (hm : d.metrics? memoryFactor io cx = some m) :
    m.IsNonneg False := by
  obtain ⟨out, _, hm⟩ := Option.bind_eq_some_iff.mp hm
  obtain ⟨operations, hoperations, hm⟩ := Option.bind_eq_some_iff.mp hm
  obtain rfl := Option.some.inj hm
  have hoperations : IsNonneg operations := nonneg_operations hoperations
  refine ⟨?_, hfactor _ ?_, fun _ => nonneg_lanes out⟩ <;> grind

end Convolution

open DataflowCost.Convolution

@[grind ←] theorem Pool.nonneg_stepFactor [Signed α] (step : Nat) {weight : α}
    (hweight : IsNonneg weight) : IsNonneg (stepFactor step weight) := by
  grind [stepFactor]

instance : NonNegative (Conv 2) where
  nonneg _ hm := nonneg_metrics (fun _ ha => ha) hm

instance : NonNegative (Conv 3) where
  nonneg _ hm := nonneg_metrics (by grind) hm

instance : NonNegative ConvTranspose where
  nonneg {_ _ _ _ _ _ _ _ d _ _ _ _} _ hm := by
    obtain ⟨out, _, hm⟩ := Option.bind_eq_some_iff.mp hm
    obtain ⟨operations, hoperations, hm⟩ := Option.bind_eq_some_iff.mp hm
    obtain rfl := Option.some.inj hm
    have hoperations : IsNonneg operations := by
      obtain ⟨x, _, h⟩ := Option.bind_eq_some_iff.mp hoperations
      obtain ⟨w, _, h⟩ := Option.bind_eq_some_iff.mp h
      obtain ⟨e, _, h⟩ := Option.bind_eq_some_iff.mp h
      obtain ⟨out, _, h⟩ := Option.bind_eq_some_iff.mp h
      obtain rfl := Option.some.inj h
      grind
    cases d.layout <;> (refine ⟨?_, ?_, fun _ => ?_⟩ <;> grind)

instance : NonNegative ConvBackwardFilter where
  nonneg _ hm := by
    obtain ⟨operations, hoperations, hm⟩ := Option.bind_eq_some_iff.mp hm
    obtain ⟨out, _, hm⟩ := Option.bind_eq_some_iff.mp hm
    obtain rfl := Option.some.inj hm
    have hoperations : IsNonneg operations := nonneg_operations hoperations
    refine ⟨?_, ?_, fun _ => ?_⟩ <;> grind

instance : NonNegative Pool where
  nonneg {α _ _ _ _ _ _ _ d _ _ _ _} h hm := by
    obtain ⟨given, _, hyields⟩ := h.resolved
    obtain ⟨x, _, hcheck⟩ := bind_eq_ok_iff.mp hyields
    obtain ⟨rfl, _⟩ := (given.meets_check x).of_ok hcheck
    have hper : IsNonneg (d.perOutput : α) :=
      Pool.value_perOutput_nonneg (Pool.kernel_pos_of_check hcheck)
    obtain ⟨out, _, hm⟩ := Option.bind_eq_some_iff.mp hm
    obtain ⟨batch, _, hm⟩ := Option.bind_eq_some_iff.mp hm
    obtain ⟨channels, _, hm⟩ := Option.bind_eq_some_iff.mp hm
    obtain ⟨spatial, _, hm⟩ := Option.bind_eq_some_iff.mp hm
    obtain rfl := Option.some.inj hm
    refine ⟨?_, ?_, fun _ => ?_⟩
    · change IsNonneg (out.elements * d.perOutput *
        Pool.stepFactor (Pool.greatest d.dilations) 0.1 / 2e9 : α)
      grind
    · grind
    · grind

end DataflowCost
