import DataflowCost.Proofs.NonNegative.Basic

/-! Families that read at positions, and those that hand tensors to other ranks. The one subtraction
among them, the ranks other than the root, is kept above one. -/
namespace DataflowCost

open Scalar Inference Family
open scoped ExactArithmetic

variable {α K : Type} [Scalar α] [Field K] [LinearOrder K] [IsStrictOrderedRing K] [Valued α K]

instance : NonNegative Gather where
  nonneg {α _ _ _ _ _ _ _ _ _ _ _ _} _ hm := by
    obtain ⟨data, _, hm⟩ := Option.bind_eq_some_iff.mp hm
    obtain ⟨indices, _, hm⟩ := Option.bind_eq_some_iff.mp hm
    obtain ⟨out, _, hm⟩ := Option.bind_eq_some_iff.mp hm
    obtain ⟨inner, _, hm⟩ := Option.bind_eq_some_iff.mp hm
    obtain ⟨outer, _, hm⟩ := Option.bind_eq_some_iff.mp hm
    obtain rfl := Option.some.inj hm
    have hrows : IsNonneg (out.elements / maximum (volume inner) 1.0 : α) := by grind
    have hlanes : IsNonneg (volume outer * sqrt indices.elements : α) := by grind
    refine ⟨?_, ?_, fun _ => ?_⟩ <;> grind

theorem GatherElements.nonneg_discontinuity [Signed α] {d : GatherElements} {s : Shape}
    {discontinuity : α} (h : d.discontinuity? s = some discontinuity) :
    IsNonneg discontinuity := by
  unfold discontinuity? at h
  split at h
  next =>
    obtain ⟨inner, _, h⟩ := Option.bind_eq_some_iff.mp h
    obtain rfl := Option.some.inj h
    grind
  next =>
    obtain rfl := Option.some.inj h
    grind

instance : NonNegative GatherElements where
  nonneg _ hm := by
    obtain ⟨data, _, hm⟩ := Option.bind_eq_some_iff.mp hm
    obtain ⟨indices, _, hm⟩ := Option.bind_eq_some_iff.mp hm
    obtain ⟨out, _, hm⟩ := Option.bind_eq_some_iff.mp hm
    obtain ⟨discontinuity, hdiscontinuity, hm⟩ := Option.bind_eq_some_iff.mp hm
    obtain rfl := Option.some.inj hm
    have hdiscontinuity : IsNonneg discontinuity :=
      GatherElements.nonneg_discontinuity hdiscontinuity
    refine ⟨?_, ?_, fun _ => ?_⟩ <;> grind

namespace Resize

@[grind ←] theorem nonneg_work (d : Resize Float32) {size : α} (hsize : IsNonneg size) :
    IsNonneg (d.work size) := by
  unfold work
  cases d.mode <;> cases d.coordinates <;> grind

@[grind ←] theorem nonneg_efficiency (d : Resize Float32) : IsNonneg (d.efficiency : α) := by
  unfold efficiency
  grind

end Resize

instance : NonNegative (Resize Float32) where
  nonneg {α _ _ _ _ _ _ _ _ inputs _ cx _} _ hm := by
    obtain ⟨x, _, hm⟩ := Option.bind_eq_some_iff.mp hm
    obtain ⟨out, _, hm⟩ := Option.bind_eq_some_iff.mp hm
    obtain rfl := Option.some.inj hm
    have hparameters : IsNonneg (sum ((inputs.drop 1).map cx.traffic) : α) := .sum_traffic cx _
    refine ⟨?_, ?_, fun _ => ?_⟩ <;> grind

namespace Link

@[grind ←] theorem nonneg_hopTime : IsNonneg (hopTime : α) := .literal _ _ _

@[grind ←] theorem nonneg_bytesPerSecond : IsNonneg (bytesPerSecond : α) := .literal _ _ _

@[grind ←] theorem nonneg_overheadBytes : IsNonneg (overheadBytes : α) := .literal _ _ _

@[grind ←] theorem nonneg_mebibyte : IsNonneg (mebibyte : α) := .literal _ _ _

theorem nonneg_time {bytes : α} (hbytes : IsNonneg bytes) (source destination : Nat) :
    IsNonneg (time bytes source destination) := by
  grind [time]

theorem nonneg_channels {bytes : α} (hbytes : IsNonneg bytes) : IsNonneg (channels bytes) := by
  grind [channels]

end Link

@[grind ←] theorem ReduceRule.nonneg_work (rule : ReduceRule) : IsNonneg (rule.work : α) := by
  cases rule <;> exact .literal _ _ _

instance : NonNegative AllReduce where
  nonneg {α _ _ _ _ _ _ _ _ _ _ cx _} _ hm := by
    obtain ⟨x, _, hm⟩ := Option.bind_eq_some_iff.mp hm
    obtain rfl := Option.some.inj hm
    have hexchange : IsNonneg (x.elements * log2 cx.width * Link.hopTime : α) := by grind
    refine ⟨?_, ?_, fun _ => ?_⟩ <;> grind

instance : NonNegative AllGather where
  nonneg _ hm := by
    obtain ⟨x, _, hm⟩ := Option.bind_eq_some_iff.mp hm
    obtain rfl := Option.some.inj hm
    refine ⟨?_, ?_, fun _ => ?_⟩ <;> grind

instance : NonNegative Broadcast where
  nonneg _ hm := by
    obtain ⟨x, _, hm⟩ := Option.bind_eq_some_iff.mp hm
    obtain rfl := Option.some.inj hm
    refine ⟨?_, ?_, fun _ => ?_⟩ <;> grind

instance : NonNegative Send where
  nonneg {α _ _ _ _ _ _ _ _ _ outputs _ _} _ hm := by
    obtain ⟨x, _, hm⟩ := Option.bind_eq_some_iff.mp hm
    obtain rfl := Option.some.inj hm
    have hpayload : IsNonneg (ofNat x.bytes : α) := .ofNat _
    have hwritten : IsNonneg (sum (outputs.map fun t => ofNat t.bytes) : α) := by
      apply IsNonneg.sum
      grind
    refine ⟨Link.nonneg_time hpayload _ _, ?_, fun _ => Link.nonneg_channels hpayload⟩
    grind

instance : NonNegative Recv where
  nonneg {α _ _ _ _ _ _ _ _ _ _ _ _} _ hm := by
    obtain ⟨out, _, hm⟩ := Option.bind_eq_some_iff.mp hm
    obtain rfl := Option.some.inj hm
    have hpayload : IsNonneg (ofNat out.bytes : α) := .ofNat _
    refine ⟨Link.nonneg_time hpayload _ _, ?_, fun _ => Link.nonneg_channels hpayload⟩
    grind

end DataflowCost
