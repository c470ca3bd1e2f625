import DataflowCost.Families.Attention
import DataflowCost.Families.Convolution
import DataflowCost.Families.Determinant
import DataflowCost.Families.MatMul
import DataflowCost.Families.Normalization
import DataflowCost.Families.Pool
import DataflowCost.Families.Reduce
import DataflowCost.Proofs.Units.Basic

/-! Products, windows, normalizations and reductions in both units. Scratch space is counted in
elements of the first input, or of the output where positions are embedded. -/
namespace DataflowCost

open Scalar Inference Family

variable {α K : Type} [Scalar α] [Field K] [LinearOrder K] [IsStrictOrderedRing K] [Valued α K]

instance [Build] : Rescales MatMul where
  rescales {_ _ _ _ _ _ _ _ inputs outputs _ _} _ h := by
    refine rel_bind fun a ha => rel_bind fun b hb => .some ⟨rfl, ?_, rfl⟩
    -- The bias is one more input or is not there.
    cases hbias : Io.input? ⟨inputs, outputs⟩ 2 <;> grind

instance [Build] : Rescales Gbmm where
  rescales _ h := by
    refine rel_bind fun a _ => rel_bind fun band _ => rel_bind fun out _ =>
      rel_bind fun batch _ => rel_bind fun rows _ => rel_bind fun columns _ => .some ⟨rfl, ?_, rfl⟩
    grind

instance [Build] : Rescales G2bmm where
  rescales _ h := by
    refine rel_bind fun a _ => rel_bind fun batch _ => rel_bind fun rows _ =>
      rel_bind fun inner _ => .some ⟨rfl, ?_, rfl⟩
    grind

instance [Build] : Rescales Det where
  rescales _ h := by
    refine rel_bind fun x _ => rel_bind fun n _ => .some ⟨rfl, ?_, rfl⟩
    grind

instance [Build] : Rescales AttentionKvCache where
  rescales _ h := by
    refine rel_bind fun p hp => .some ⟨rfl, ?_, rfl⟩
    obtain ⟨query, hquery, _⟩ := Option.bind_eq_some_iff.mp hp
    grind

instance [Build] : Rescales Rope where
  rescales _ h := by
    refine rel_bind fun x _ => rel_bind fun out hout => .some ⟨rfl, ?_, rfl⟩
    grind

theorem Conv.rescaled_metrics {n s w : Nat} {io : Io} (h : io.HasWidth s) (d : Conv n)
    {factor : α → α} (hfactor : ∀ {a a' : α}, Scales s a a' → Scales s (factor a) (factor a')) :
    Option.Rel (Metrics.Rescaled s) (d.metrics? factor io ⟨w, .elements⟩)
      (d.metrics? factor io ⟨w, .bytes⟩) := by
  refine rel_bind fun out _ => rel_bind fun operations _ => .some ⟨rfl, ?_, rfl⟩
  apply hfactor
  grind

instance [Build] : Rescales (Conv 2) where
  rescales _ h := Conv.rescaled_metrics h _ id

instance [Build] : Rescales (Conv 3) where
  rescales _ h := Conv.rescaled_metrics h _ fun ha => ha.mul_right _

instance [Build] : Rescales ConvTranspose where
  rescales _ h := by
    refine rel_bind fun out _ => rel_bind fun operations _ => .some ⟨rfl, ?_, rfl⟩
    grind

instance [Build] : Rescales ConvBackwardFilter where
  rescales _ h := by
    refine rel_bind fun operations _ => rel_bind fun out _ => .some ⟨rfl, ?_, rfl⟩
    grind

instance [Build] : Rescales Pool where
  rescales _ h := by
    refine rel_bind fun out _ => rel_bind fun batch _ => rel_bind fun channels _ =>
      rel_bind fun spatial _ => .some ⟨rfl, ?_, rfl⟩
    grind

instance [Build] : Rescales Softmax where
  rescales _ h := by
    refine rel_bind fun x hx => rel_bind fun row _ => .some ⟨rfl, ?_, rfl⟩
    grind

instance [Build] : Rescales LayerNorm where
  rescales _ h := by
    refine rel_bind fun x hx => rel_bind fun outer _ => rel_bind fun normalized _ =>
      .some ⟨rfl, ?_, rfl⟩
    grind

instance [Build] : Rescales RmsNorm where
  rescales _ h := by
    refine rel_bind fun x hx => .some ⟨rfl, ?_, rfl⟩
    grind

instance [Build] : Rescales BatchNorm where
  rescales _ h := by
    refine rel_bind fun x _ => rel_bind fun batch _ => rel_bind fun channels _ =>
      .some ⟨rfl, ?_, rfl⟩
    grind

instance [Build] : Rescales InstanceNorm where
  rescales _ h := by
    refine rel_bind fun x hx => rel_bind fun batch _ => rel_bind fun channels _ =>
      .some ⟨rfl, ?_, rfl⟩
    grind

instance [Build] : Rescales LocalResponseNorm where
  rescales _ h := by
    refine rel_bind fun x _ => rel_bind fun batch _ => rel_bind fun channels _ =>
      rel_bind fun spatial _ => .some ⟨rfl, ?_, rfl⟩
    grind

theorem Reduce.scales_memoryCost {s : Nat} (d : Reduce) (rank : Nat)
    {input output input' output' : α} (hinput : Scales s input input')
    (houtput : Scales s output output') :
    Scales s (d.memoryCost rank input output) (d.memoryCost rank input' output') := by
  unfold memoryCost
  grind

instance [Build] : Rescales Reduce where
  rescales _ h := by
    refine rel_bind fun x _ => .some ⟨rfl, ?_, rfl⟩
    exact Reduce.scales_memoryCost _ _ (.inTraffic h) (.outTraffic h)

end DataflowCost
