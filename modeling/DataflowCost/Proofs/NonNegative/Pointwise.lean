import DataflowCost.Proofs.Monotone.Pointwise
import DataflowCost.Proofs.NonNegative.Basic

/-! Element-by-element families: sizes times positive rates. The loss divides by the size only where
it has found it positive, but a quotient by zero would not be below zero either. -/
namespace DataflowCost

open Scalar Inference Family
open scoped ExactArithmetic

variable {α K : Type} [Scalar α] [Field K] [LinearOrder K] [IsStrictOrderedRing K] [Valued α K]

@[grind ←] theorem Unary.nonneg_efficiency (k : Kind) : IsNonneg (efficiency k : α) := by
  unfold efficiency
  split <;> grind

@[grind ←] theorem ActivationBackward.nonneg_work (k : Kind) : IsNonneg (work k : α) := by
  unfold work
  split <;> grind

/-- A map in place is not below zero if its time is not. -/
theorem nonneg_inPlace {time : α → α} {io : Io} {cx : CostContext} {m : Metrics α}
    (htime : ∀ size, IsNonneg size → IsNonneg (time size))
    (hm : inPlace time io cx = some m) : m.IsNonneg False := by
  obtain ⟨x, _, hm⟩ := Option.bind_eq_some_iff.mp hm
  obtain ⟨out, _, hm⟩ := Option.bind_eq_some_iff.mp hm
  obtain rfl := Option.some.inj hm
  have hsize : IsNonneg (time x.elements) := htime _ (.elements x)
  refine ⟨hsize, ?_, fun _ => ?_⟩ <;> grind

instance : NonNegative Unary where
  nonneg {α _ _ _ _ _ _ _ d _ _ _ _} _ hm := by
    obtain ⟨x, _, hm⟩ := Option.bind_eq_some_iff.mp hm
    obtain rfl := Option.some.inj hm
    have hwork : IsNonneg (Unary.work d.kind : α) := Unary.value_work_nonneg d.kind
    have hfactor : IsNonneg (Unary.trafficFactor d.kind : α) :=
      Unary.value_trafficFactor_nonneg d.kind
    refine ⟨?_, ?_, fun _ => ?_⟩ <;> grind

instance : NonNegative Clip where
  nonneg _ hm := by
    obtain ⟨x, _, hm⟩ := Option.bind_eq_some_iff.mp hm
    obtain rfl := Option.some.inj hm
    refine ⟨?_, ?_, fun _ => ?_⟩ <;> grind

instance : NonNegative Hardtanh where
  nonneg _ hm := nonneg_inPlace (by grind) hm

instance : NonNegative LeakyRelu where
  nonneg _ hm := nonneg_inPlace (by grind) hm

instance : NonNegative Elu where
  nonneg _ hm := nonneg_inPlace (by grind) hm

instance : NonNegative Log where
  nonneg _ hm := nonneg_inPlace (by grind) hm

instance : NonNegative Fill where
  nonneg _ hm := by
    obtain ⟨out, _, hm⟩ := Option.bind_eq_some_iff.mp hm
    obtain rfl := Option.some.inj hm
    refine ⟨?_, ?_, fun _ => ?_⟩ <;> grind

instance : NonNegative L2Loss where
  nonneg _ hm := by
    obtain ⟨x, _, hm⟩ := Option.bind_eq_some_iff.mp hm
    obtain rfl := Option.some.inj hm
    refine ⟨?_, ?_, fun _ => ?_⟩ <;> grind

instance : NonNegative Cast where
  nonneg _ hm := by
    obtain ⟨x, _, hm⟩ := Option.bind_eq_some_iff.mp hm
    obtain ⟨out, _, hm⟩ := Option.bind_eq_some_iff.mp hm
    obtain rfl := Option.some.inj hm
    refine ⟨?_, ?_, fun _ => ?_⟩ <;> grind

instance : NonNegative ShapeOf where
  nonneg _ hm := by
    obtain ⟨x, _, hm⟩ := Option.bind_eq_some_iff.mp hm
    obtain rfl := Option.some.inj hm
    refine ⟨.literal _ _ _, ?_, fun _ => ?_⟩ <;> grind

instance : NonNegative PRelu where
  nonneg _ hm := by
    obtain ⟨x, _, hm⟩ := Option.bind_eq_some_iff.mp hm
    obtain ⟨slope, _, hm⟩ := Option.bind_eq_some_iff.mp hm
    obtain ⟨out, _, hm⟩ := Option.bind_eq_some_iff.mp hm
    obtain rfl := Option.some.inj hm
    refine ⟨?_, ?_, fun _ => ?_⟩ <;> grind

instance : NonNegative ActivationBackward where
  nonneg _ hm := by
    obtain ⟨out, _, hm⟩ := Option.bind_eq_some_iff.mp hm
    obtain rfl := Option.some.inj hm
    refine ⟨?_, ?_, fun _ => ?_⟩ <;> grind

instance : NonNegative Dropout where
  nonneg _ hm := by
    obtain ⟨x, _, hm⟩ := Option.bind_eq_some_iff.mp hm
    obtain rfl := Option.some.inj hm
    refine ⟨?_, ?_, fun _ => ?_⟩ <;> grind

instance : NonNegative Elementwise where
  nonneg {α _ _ _ _ _ _ _ d _ _ _ _} _ hm := by
    obtain ⟨a, _, hm⟩ := Option.bind_eq_some_iff.mp hm
    obtain ⟨b, _, hm⟩ := Option.bind_eq_some_iff.mp hm
    obtain ⟨out, _, hm⟩ := Option.bind_eq_some_iff.mp hm
    obtain rfl := Option.some.inj hm
    have hcomplexity : IsNonneg (Elementwise.complexity d.kind : α) :=
      Elementwise.value_complexity_nonneg d.kind
    refine ⟨?_, ?_, fun _ => ?_⟩ <;> grind

instance : NonNegative MseLoss where
  nonneg _ hm := by
    obtain ⟨x, _, hm⟩ := Option.bind_eq_some_iff.mp hm
    obtain rfl := Option.some.inj hm
    refine ⟨?_, ?_, fun _ => ?_⟩ <;> grind

instance : NonNegative Select where
  nonneg {_ _ _ _ _ _ _ _ _ _ _ cx _} _ hm := by
    obtain ⟨x, _, hm⟩ := Option.bind_eq_some_iff.mp hm
    obtain ⟨y, _, hm⟩ := Option.bind_eq_some_iff.mp hm
    obtain ⟨condition, _, hm⟩ := Option.bind_eq_some_iff.mp hm
    obtain ⟨out, _, hm⟩ := Option.bind_eq_some_iff.mp hm
    obtain rfl := Option.some.inj hm
    refine ⟨?_, ?_, fun _ => ?_⟩
    · grind
    · cases cx.memoryUnit <;> grind
    · grind

end DataflowCost
