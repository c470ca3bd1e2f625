import DataflowCost.Families.Collective
import DataflowCost.Families.Concat
import DataflowCost.Families.Gather
import DataflowCost.Families.Permute
import DataflowCost.Families.Reshape
import DataflowCost.Families.Resize
import DataflowCost.Families.Slice
import DataflowCost.Proofs.Units.Basic

/-! Moves of elements in both units, within a tensor, between tensors and between ranks. Payloads of
messages are counted in bytes from the start, with what they are wrapped in, and are divided by the
width where memory is counted in elements. -/
namespace DataflowCost

open Scalar Inference Family

variable {α K : Type} [Scalar α] [Field K] [LinearOrder K] [IsStrictOrderedRing K] [Valued α K]

theorem rescaled_relayout {s w : Nat} {io : Io} (h : io.HasWidth s) (copies : Bool) (rate : α) :
    Option.Rel (Metrics.Rescaled s) (Metrics.relayout copies rate io ⟨w, .elements⟩)
      (Metrics.relayout copies rate io ⟨w, .bytes⟩) := by
  cases copies with
  | false => exact .some ⟨rfl, .zero, rfl⟩
  | true =>
    refine rel_bind fun x _ => .some ⟨rfl, ?_, rfl⟩
    grind

instance [Build] : Rescales Reshape where
  rescales _ h := rel_bind fun _ _ => rel_bind fun _ _ => rescaled_relayout h _ _

instance [Build] : Rescales Flatten where
  rescales _ h := rescaled_relayout h _ _

instance [Build] : Rescales Squeeze where
  rescales _ h := rescaled_relayout h _ _

instance [Build] : Rescales Unsqueeze where
  rescales _ h := rescaled_relayout h _ _

instance [Build] : Rescales Identity where
  rescales _ h := by
    refine rel_bind fun x _ => .some ⟨rfl, ?_, rfl⟩
    grind

instance [Build] : Rescales Expand where
  rescales _ h := by
    refine rel_bind fun x _ => rel_bind fun out _ => .some ⟨rfl, ?_, rfl⟩
    grind

theorem Transpose.scales_memoryCost {s : Nat} (axes : List Nat) {traffic traffic' : α}
    (htraffic : Scales s traffic traffic') :
    Scales s (memoryCost axes traffic) (memoryCost axes traffic') := by
  unfold memoryCost
  grind

instance [Build] : Rescales Transpose where
  rescales _ h := by
    refine rel_bind fun x _ => .some ⟨rfl, ?_, rfl⟩
    exact Transpose.scales_memoryCost _ (.add (.inTraffic h) (.outTraffic h))

instance [Build] : Rescales DepthToSpace where
  rescales _ h := by
    refine rel_bind fun x _ => .some ⟨rfl, ?_, rfl⟩
    grind

instance [Build] : Rescales Concat where
  rescales _ h := by
    refine rel_bind fun out _ => .some ⟨rfl, ?_, rfl⟩
    grind

instance [Build] : Rescales Split where
  rescales _ h := by
    refine rel_bind fun x _ => rel_bind fun out _ => .some ⟨rfl, ?_, rfl⟩
    grind

instance [Build] : Rescales Extend where
  rescales _ h := by
    refine rel_bind fun x _ => rel_bind fun out _ => rel_bind fun extent _ => .some ⟨rfl, ?_, rfl⟩
    grind

instance [Build] : Rescales Slice where
  rescales _ h := by
    refine rel_bind fun out _ => .some ⟨rfl, ?_, rfl⟩
    grind

instance [Build] : Rescales Pad where
  rescales _ h := by
    refine rel_bind fun x _ => rel_bind fun out _ => rel_bind fun totals _ => .some ⟨rfl, ?_, rfl⟩
    grind

instance [Build] : Rescales Gather where
  rescales _ h := by
    refine rel_bind fun data _ => rel_bind fun indices hindices => rel_bind fun out _ =>
      rel_bind fun inner _ => rel_bind fun outer _ => .some ⟨rfl, ?_, rfl⟩
    grind

instance [Build] : Rescales GatherElements where
  rescales _ h := by
    refine rel_bind fun data hdata => rel_bind fun indices hindices => rel_bind fun out _ =>
      rel_bind fun discontinuity _ => .some ⟨rfl, ?_, rfl⟩
    grind

instance [Build] : Rescales (Resize Float32) where
  rescales {_ _ _ _ _ _ _ _ inputs _ s w} _ h := by
    refine rel_bind fun x hx => rel_bind fun out _ => .some ⟨rfl, ?_, rfl⟩
    have hparameters : ∀ t ∈ inputs.drop 1, t.dtype.bytes = s :=
      fun t ht => h.inputs t (List.mem_of_mem_drop ht)
    grind

instance [Build] : Rescales AllReduce where
  rescales _ h := by
    refine rel_bind fun x _ => .some ⟨rfl, ?_, rfl⟩
    grind

instance [Build] : Rescales AllGather where
  rescales _ h := by
    refine rel_bind fun x _ => .some ⟨rfl, ?_, rfl⟩
    grind

instance [Build] : Rescales Broadcast where
  rescales _ h := by
    refine rel_bind fun x _ => .some ⟨rfl, ?_, rfl⟩
    grind

instance [Build] : Rescales Send where
  rescales _ h := by
    refine rel_bind fun x hx => .some ⟨rfl, ?_, rfl⟩
    grind

instance [Build] : Rescales Recv where
  rescales _ h := by
    refine rel_bind fun out hout => .some ⟨rfl, ?_, rfl⟩
    grind

end DataflowCost
