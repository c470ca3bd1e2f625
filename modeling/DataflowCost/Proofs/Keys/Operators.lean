import DataflowCost.Proofs.Inferred
import DataflowCost.Proofs.Keys.Collective
import DataflowCost.Proofs.Keys.Layout
import DataflowCost.Proofs.Keys.Normalization
import DataflowCost.Proofs.Keys.Pointwise
import DataflowCost.Proofs.Keys.Product
import DataflowCost.Proofs.Keys.Range
import DataflowCost.Proofs.Keys.Selection
import DataflowCost.Proofs.Keys.Window

/-! Keys of operators. Equal keys begin with the same kind, so they belong to definitions of one family;
what the families say of their keys then holds of operators. -/
namespace DataflowCost

open Inference
open scoped ExactArithmetic

namespace Operator

variable {op op' : Operator} {inputs inputs' outputs outputs' : List TensorType}

theorem exists_attributes (op : Operator) : ∃ settings, op.attributes = op.kind.tag :: settings := by
  cases op <;> exact ⟨_, rfl⟩

theorem kind_eq_of_attributes (h : op.attributes = op'.attributes) : op.kind = op'.kind := by
  obtain ⟨settings, hop⟩ := op.exists_attributes
  obtain ⟨settings', hop'⟩ := op'.exists_attributes
  rw [hop, hop'] at h
  exact Kind.tag_injective (List.cons.inj h).1

/-- Resolution stays in the family of the definition that was given. -/
theorem Registered.family (h : op.Registered inputs outputs) :
    op.withFamily fun _ d => Family.Registered d inputs outputs := by
  obtain ⟨given, haccepts, hyields⟩ := h.resolved
  induction given using of_family with
  | @h δ _ _ wrap hwrap d =>
    have hprepare : (wrap d).prepare inputs = (Family.prepare d inputs).map wrap :=
      hwrap.withFamily_eq _ d
    rw [hwrap.arity_eq] at haccepts
    rw [hprepare] at hyields
    obtain ⟨d', hd', rfl⟩ := hyields.of_map
    rw [hwrap.withFamily_eq]
    exact {
      accepts := hwrap.arity_eq d' ▸ h.accepts
      resolved := ⟨d, haccepts, hd'⟩
      outShapes_eq := (hwrap.withFamily_eq _ d').symm.trans h.outShapes_eq
      outTypes_eq := (hwrap.withFamily_eq _ d').symm.trans h.outTypes_eq }

/-- Two definitions of one family. -/
def SameFamily (op op' : Operator) : Prop := op.withFamily fun wrap _ => ∃ d, op' = wrap d

theorem SameFamily.trans_symm {op'' : Operator} (h : op.SameFamily op') (h' : op.SameFamily op'') :
    op'.SameFamily op'' := by
  cases op <;>
    (obtain ⟨d, rfl⟩ := h
     exact h')

/-- Some operator of each kind. -/
def sample (k : Kind) : Operator :=
  if k.isElementwise then .elementwise { kind := k }
  else if k.isUnary then .unary ⟨k⟩
  else if ActivationBackward.isGradient k then .activationBackward ⟨k⟩
  else if Pool.isPooling k then .pool { kind := k, kernel := .replicate 2 1 }
  else if Reduce.isReduction k then .reduce { kind := k }
  else match k with
  | .mseLoss => .mseLoss {}
  | .select => .select {}
  | .clip => .clip {}
  | .hardtanh => .hardtanh {}
  | .fill => .fill {}
  | .l2Loss => .l2Loss {}
  | .cast => .cast ⟨.float32ToFloat32⟩
  | .shape => .shapeOf {}
  | .prelu => .prelu {}
  | .leakyRelu => .leakyRelu {}
  | .log => .log {}
  | .elu => .elu {}
  | .dropout => .dropout { ratio := 0.5 }
  | .matMul => .matMul {}
  | .gbmm => .gbmm {}
  | .g2bmm => .g2bmm { width := 1 }
  | .conv => .conv2d {}
  | .conv3d => .conv3d {}
  | .convTranspose => .convTranspose {}
  | .convTransposeNhwc => .convTranspose { layout := .last }
  | .convBackwardFilter => .convBackwardFilter {}
  | .softmax => .softmax {}
  | .layerNorm => .layerNorm {}
  | .rmsNorm => .rmsNorm {}
  | .batchNorm => .batchNorm {}
  | .instanceNorm => .instanceNorm {}
  | .lrn => .localResponseNorm { size := 1 }
  | .reshape => .reshape { target := [] }
  | .flatten => .flatten {}
  | .squeeze => .squeeze {}
  | .unsqueeze => .unsqueeze { axes := [] }
  | .transpose => .transpose {}
  | .depthToSpace => .depthToSpace { block := 1 }
  | .expand => .expand { shape := [] }
  | .concat => .concat { axis := 0 }
  | .split => .split { axis := 0, pieces := .equal 1 }
  | .slice => .slice { starts := [], ends := [] }
  | .pad => .pad { pads := [] }
  | .extend => .extend { axis := 0, num := 0 }
  | .gather => .gather { axis := 0 }
  | .gatherElements => .gatherElements { axis := 0 }
  | .resize => .resize { target := .sizes }
  | .attentionKvCache => .attentionKvCache {}
  | .rope => .rope {}
  | .det => .det {}
  | .allReduceSum | .allReduceProd | .allReduceMin | .allReduceMax | .allReduceAvg => .allReduce {}
  | .allGather => .allGather { worldSize := 1 }
  | .broadcast => .broadcast {}
  | .send => .send { source := 0, destination := 0 }
  | .recv => .recv { source := 0, destination := 0, received := ⟨[], .float32⟩ }
  | _ => .identity {}

section Kinds

open Family

theorem isElementwise_of_registered {d : Elementwise} (h : Family.Registered d inputs outputs) :
    d.kind.isElementwise = true := by
  obtain ⟨given, _, hyields⟩ := h.resolved
  change given.check = .ok d at hyields
  unfold Elementwise.check at hyields
  split at hyields
  next => cases hyields
  next hkind =>
    split at hyields
    next => cases hyields
    next =>
      obtain rfl := Except.ok.inj hyields
      simpa using hkind

theorem isUnary_of_registered {d : Unary} (h : Family.Registered d inputs outputs) :
    d.kind.isUnary = true := by
  obtain ⟨given, _, hyields⟩ := h.resolved
  obtain ⟨_, hkind, hd⟩ := bind_eq_ok_iff.mp hyields
  obtain rfl := Except.ok.inj hd
  exact of_require hkind

theorem isGradient_of_registered {d : ActivationBackward}
    (h : Family.Registered d inputs outputs) : ActivationBackward.isGradient d.kind = true := by
  obtain ⟨given, _, hyields⟩ := h.resolved
  obtain ⟨_, hkind, hd⟩ := bind_eq_ok_iff.mp hyields
  obtain rfl := Except.ok.inj hd
  exact of_require hkind

theorem isPooling_of_registered {d : Pool} (h : Family.Registered d inputs outputs) :
    Pool.isPooling d.kind = true := by
  obtain ⟨given, _, hyields⟩ := h.resolved
  obtain ⟨x, _, hcheck⟩ := bind_eq_ok_iff.mp hyields
  obtain ⟨_, hkind, _⟩ := bind_eq_ok_iff.mp hcheck
  obtain rfl : d = given := ((given.meets_check x).of_ok hcheck).1
  exact of_require hkind

theorem isReduction_of_registered {d : Reduce} (h : Family.Registered d inputs outputs) :
    Reduce.isReduction d.kind = true := by
  obtain ⟨given, _, hyields⟩ := h.resolved
  obtain ⟨x, _, hresolve⟩ := bind_eq_ok_iff.mp hyields
  obtain ⟨_, hkind, hresolve⟩ := bind_eq_ok_iff.mp hresolve
  have hsame : d.kind = given.kind := by
    cases haxes : given.axes with
    | none =>
      rw [haxes] at hresolve
      rw [← Except.ok.inj hresolve]
    | some axes =>
      rw [haxes] at hresolve
      obtain ⟨resolved, _, hd⟩ := bind_eq_ok_iff.mp hresolve
      rw [← Except.ok.inj hd]
  rw [hsame]
  exact of_require hkind

end Kinds

section Sample

variable {k : Kind}

theorem sample_of_isElementwise (h : k.isElementwise = true) :
    sample k = .elementwise { kind := k } := by
  unfold sample
  rw [if_pos h]

theorem sample_of_isUnary (h : k.isUnary = true) : sample k = .unary ⟨k⟩ := by
  cases k <;> first | rfl | cases h

theorem sample_of_isGradient (h : ActivationBackward.isGradient k = true) :
    sample k = .activationBackward ⟨k⟩ := by
  cases k <;> first | rfl | cases h

theorem sample_of_isPooling (h : Pool.isPooling k = true) :
    sample k = .pool { kind := k, kernel := .replicate 2 1 } := by
  cases k <;> first | rfl | cases h

theorem sample_of_isReduction (h : Reduce.isReduction k = true) :
    sample k = .reduce { kind := k } := by
  cases k <;> first | rfl | cases h

end Sample

theorem sameFamily_sample (h : op.Registered inputs outputs) :
    (sample op.kind).SameFamily op := by
  have hfamily := h.family
  cases op
  case elementwise d =>
    have hsample := sample_of_isElementwise (isElementwise_of_registered hfamily)
    change (sample d.kind).SameFamily _
    rw [hsample]
    exact ⟨d, rfl⟩
  case unary d =>
    have hsample := sample_of_isUnary (isUnary_of_registered hfamily)
    change (sample d.kind).SameFamily _
    rw [hsample]
    exact ⟨d, rfl⟩
  case activationBackward d =>
    have hsample := sample_of_isGradient (isGradient_of_registered hfamily)
    change (sample d.kind).SameFamily _
    rw [hsample]
    exact ⟨d, rfl⟩
  case pool d =>
    have hsample := sample_of_isPooling (isPooling_of_registered hfamily)
    change (sample d.kind).SameFamily _
    rw [hsample]
    exact ⟨d, rfl⟩
  case reduce d =>
    have hsample := sample_of_isReduction (isReduction_of_registered hfamily)
    change (sample d.kind).SameFamily _
    rw [hsample]
    exact ⟨d, rfl⟩
  case allReduce d =>
    obtain ⟨rule⟩ := d
    cases rule <;> exact ⟨_, rfl⟩
  case convTranspose d =>
    change (sample (ConvTranspose.kindOf d.layout)).SameFamily _
    cases d.layout <;> exact ⟨_, rfl⟩
  all_goals exact ⟨_, rfl⟩

theorem sameFamily_of_kind (h : op.Registered inputs outputs)
    (h' : op'.Registered inputs' outputs') (hkind : op.kind = op'.kind) : op.SameFamily op' :=
  (sameFamily_sample h).trans_symm (hkind ▸ sameFamily_sample h')

/-- Registered operators with the same keys that agree in what keys leave out take the same time. -/
theorem SameKeys.computeTime_eq (keys : op.SameKeys op' ⟨inputs, outputs⟩ ⟨inputs', outputs'⟩)
    (h : op.Registered inputs outputs) (h' : op'.Registered inputs' outputs')
    {α : Type} [Scalar α] [Scalar.Exact α] (cx : CostContext) {m m' : Metrics α}
    (hm : op.metrics ⟨inputs, outputs⟩ cx = some m)
    (hm' : op'.metrics ⟨inputs', outputs'⟩ cx = some m') : m.computeTime = m'.computeTime := by
  have hsame := sameFamily_of_kind h h' (kind_eq_of_attributes keys.attributes_eq)
  have hfamily := h.family
  have hfamily' := h'.family
  cases op <;>
    (obtain ⟨d', rfl⟩ := hsame
     exact (Keyed.sameTime hfamily hfamily' keys).computeTime_eq cx hm hm')

end Operator

end DataflowCost
