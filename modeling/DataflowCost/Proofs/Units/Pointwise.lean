import DataflowCost.Families.Elementwise
import DataflowCost.Families.Pointwise
import DataflowCost.Proofs.Units.Basic

/-! Maps, losses and selections in both units. The extents of a tensor are charged as the integers
that they are written as, and a condition as one byte where the branches have four. -/
namespace DataflowCost

open Scalar Inference Family

variable {α K : Type} [Scalar α] [Field K] [LinearOrder K] [IsStrictOrderedRing K] [Valued α K]

instance [Build] : Rescales Unary where
  rescales _ h := by
    refine rel_bind fun x _ => .some ⟨rfl, ?_, rfl⟩
    grind

instance [Build] : Rescales Clip where
  rescales _ h := by
    refine rel_bind fun x _ => .some ⟨rfl, ?_, rfl⟩
    grind

theorem rescaled_inPlace {s w : Nat} {io : Io} (h : io.HasWidth s) (time : α → α) :
    Option.Rel (Metrics.Rescaled s) (inPlace time io ⟨w, .elements⟩)
      (inPlace time io ⟨w, .bytes⟩) := by
  refine rel_bind fun x hx => rel_bind fun out _ => .some ⟨rfl, ?_, rfl⟩
  grind

instance [Build] : Rescales Hardtanh where
  rescales _ h := rescaled_inPlace h _

instance [Build] : Rescales LeakyRelu where
  rescales _ h := rescaled_inPlace h _

instance [Build] : Rescales Elu where
  rescales _ h := rescaled_inPlace h _

instance [Build] : Rescales Log where
  rescales _ h := rescaled_inPlace h _

instance [Build] : Rescales Fill where
  rescales _ h := by
    refine rel_bind fun out _ => .some ⟨rfl, ?_, rfl⟩
    grind

instance [Build] : Rescales L2Loss where
  rescales _ h := by
    refine rel_bind fun x _ => .some ⟨rfl, ?_, rfl⟩
    grind

instance [Build] : Rescales Cast where
  rescales _ h := by
    refine rel_bind fun x _ => rel_bind fun out _ => .some ⟨rfl, ?_, rfl⟩
    grind

instance [Build] : Rescales PRelu where
  rescales _ h := by
    refine rel_bind fun x hx => rel_bind fun slope hslope => rel_bind fun out _ =>
      .some ⟨rfl, ?_, rfl⟩
    grind

instance [Build] : Rescales ActivationBackward where
  rescales _ h := by
    refine rel_bind fun out _ => .some ⟨rfl, ?_, rfl⟩
    grind

instance [Build] : Rescales Dropout where
  rescales _ h := by
    refine rel_bind fun x _ => .some ⟨rfl, ?_, rfl⟩
    grind

instance [Build] : Rescales Elementwise where
  rescales _ h := by
    refine rel_bind fun a ha => rel_bind fun b hb => rel_bind fun out hout =>
      .some ⟨rfl, ?_, rfl⟩
    grind

instance [Build] : Rescales MseLoss where
  rescales _ h := by
    refine rel_bind fun x hx => .some ⟨rfl, ?_, rfl⟩
    grind

/-- The extents are words of eight bytes, as is said of the output. -/
instance [Build] : Rescales ShapeOf where
  rescales registered h := by
    refine rel_bind fun x _ => .some ⟨rfl, ?_, rfl⟩
    obtain ⟨out, _, rfl, hout, _⟩ :=
      List.map_eq_cons_iff.mp (Except.ok.inj registered.outTypes_eq).symm
    have hwidth : out.dtype.bytes = _ := h.outputs out List.mem_cons_self
    rw [hout] at hwidth
    grind

namespace Select

/-- Branches and a result of four bytes, and conditions of one. -/
def Uniform (s : Nat) (io : Io) : Prop :=
  s = 4 ∧ io.inputs.map (fun t => t.dtype.bytes) = [4, 4, 1] ∧
    io.outputs.map (fun t => t.dtype.bytes) = [4]

/-- A quarter of an element is one byte. -/
theorem scales_mask {w : Nat} {condition : TensorType} (h : condition.dtype.bytes = 1)
    (access : α) :
    Scales 4 (CostContext.traffic ⟨w, .elements⟩ condition * access * 0.25)
      (CostContext.traffic ⟨w, .bytes⟩ condition * access * 1.0) := by
  have htraffic : value (CostContext.traffic ⟨w, .bytes⟩ condition : α) = _ := Scales.traffic h
  rw [Scales, Valued.value_mul, Valued.value_mul, htraffic]
  norm_num
  ring

theorem rescaled {s w : Nat} {d : Select} {io : Io} (h : Uniform s io) :
    Option.Rel (Metrics.Rescaled s) (metrics d io ⟨w, .elements⟩ : Option (Metrics α))
      (metrics d io ⟨w, .bytes⟩) := by
  obtain ⟨rfl, hinputs, houtputs⟩ := h
  refine rel_bind fun x hx => rel_bind fun y hy => rel_bind fun condition hcondition =>
    rel_bind fun out hout => .some ⟨rfl, ?_, rfl⟩
  have hwidth {ts : List TensorType} {widths : List Nat} {i : Nat} {t : TensorType}
      (hts : ts.map (fun t => t.dtype.bytes) = widths) (ht : ts[i]? = some t) :
      some t.dtype.bytes = widths[i]? := by
    rw [← hts, List.getElem?_map, ht]
    rfl
  have hx : x.dtype.bytes = 4 := Option.some.inj (hwidth hinputs hx)
  have hy : y.dtype.bytes = 4 := Option.some.inj (hwidth hinputs hy)
  have hcondition : condition.dtype.bytes = 1 := Option.some.inj (hwidth hinputs hcondition)
  have hout : out.dtype.bytes = 4 := Option.some.inj (hwidth houtputs hout)
  exact .add (.add (.add (scales_mask hcondition _) (.mul_right (.traffic hx) _))
    (.mul_right (.traffic hy) _)) (.traffic hout)

end Select

end DataflowCost
