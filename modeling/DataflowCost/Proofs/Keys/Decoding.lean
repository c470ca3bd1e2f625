import DataflowCost.Proofs.SharedKeys

/-! Families whose keys can be read back. Extents and attributes stand in both vectors without any
length in front of them; where one list ends and the next begins follows only from the two vectors
together and from the ranks that a family accepts. -/
namespace DataflowCost

open scoped ExactArithmetic

namespace Operator

variable {op op' : Operator} {inputs inputs' outputs outputs' : List TensorType}

/-- The families whose keys hold the extents of every input and all attributes. -/
def IsFullyKeyed : Operator → Bool
  | .conv2d _ | .conv3d _ | .convTranspose _ | .pool _ | .reduce _ | .transpose _ | .reshape _
  | .expand _ | .squeeze _ | .unsqueeze _ | .slice _ | .pad _ | .gatherElements _ => true
  | _ => false

/-- Definitions of one of these families that resolve to the same attributes. -/
def SameAttributes : Operator → Operator → Prop
  | .conv2d d, .conv2d d' => d.Alike d'
  | .conv3d d, .conv3d d' => d.Alike d'
  | .convTranspose d, .convTranspose d' => d.Alike d'
  | .pool d, .pool d' => d = d'
  | .reduce d, .reduce d' => d.Alike d'
  | .transpose d, .transpose d' => d.resolved = d'.resolved
  | .reshape d, .reshape d' => d.resolved = d'.resolved
  | .expand d, .expand d' => d = d'
  | .squeeze d, .squeeze d' => d.resolved = d'.resolved
  | .unsqueeze d, .unsqueeze d' => d.resolved = d'.resolved
  | .slice d, .slice d' => d.ranges = d'.ranges
  | .pad d, .pad d' => d.resolved = d'.resolved
  | .gatherElements d, .gatherElements d' => d.resolved = d'.resolved
  | _, _ => False

/-- Compute time needs nothing of a fully keyed family that its keys leave out. -/
theorem agreesUnkeyed_of_isFullyKeyed (h : op.IsFullyKeyed) (io io' : Io) :
    op.AgreesUnkeyed op' io io' := by
  cases op <;> trivial

/-- The keys of a fully keyed operator give back its inputs and attributes. -/
theorem SameKeys.decode (keys : op.SameKeys op' ⟨inputs, outputs⟩ ⟨inputs', outputs'⟩)
    (hkeyed : op.IsFullyKeyed) (h : op.Registered inputs outputs)
    (h' : op'.Registered inputs' outputs') :
    inputs.map TensorType.shape = inputs'.map TensorType.shape ∧ op.SameAttributes op' := by
  have hsame : op.SameFamily op' :=
    sameFamily_of_kind h h' (kind_eq_of_attributes keys.attributes_eq)
  have hfamily := h.family
  have hfamily' := h'.family
  cases op
  case conv2d d =>
    obtain ⟨d', rfl⟩ := hsame
    exact Conv.decodes_planar.decode hfamily hfamily' keys
  case conv3d d =>
    obtain ⟨d', rfl⟩ := hsame
    exact Conv.decodes_spatial.decode hfamily hfamily' keys
  case convTranspose d =>
    obtain ⟨d', rfl⟩ := hsame
    exact ConvTranspose.decodes.decode hfamily hfamily' keys
  case pool d =>
    obtain ⟨d', rfl⟩ := hsame
    exact Pool.decodes.decode hfamily hfamily' keys
  case reduce d =>
    obtain ⟨d', rfl⟩ := hsame
    exact Reduce.decodes.decode hfamily hfamily' keys
  case transpose d =>
    obtain ⟨d', rfl⟩ := hsame
    exact Transpose.decodes.decode hfamily hfamily' keys
  case reshape d =>
    obtain ⟨d', rfl⟩ := hsame
    exact Reshape.decodes.decode hfamily hfamily' keys
  case expand d =>
    obtain ⟨d', rfl⟩ := hsame
    exact Expand.decodes.decode hfamily hfamily' keys
  case squeeze d =>
    obtain ⟨d', rfl⟩ := hsame
    exact Squeeze.decodes.decode hfamily hfamily' keys
  case unsqueeze d =>
    obtain ⟨d', rfl⟩ := hsame
    exact Unsqueeze.decodes.decode hfamily hfamily' keys
  case slice d =>
    obtain ⟨d', rfl⟩ := hsame
    exact Slice.decodes.decode hfamily hfamily' keys
  case pad d =>
    obtain ⟨d', rfl⟩ := hsame
    exact Pad.decodes.decode hfamily hfamily' keys
  case gatherElements d =>
    obtain ⟨d', rfl⟩ := hsame
    exact GatherElements.decodes.decode hfamily hfamily' keys
  all_goals cases hkeyed

end Operator

namespace Graph

variable {g g' : Graph} {o o' : OpId} {v v' : OpView}

/-- Two operators of any graphs, one of them of a fully keyed family, with the same workload and the
same attribute vector are of one kind and have the same attributes and inputs of the same extents.
-/
theorem inputs_eq_of_keys (hg : g.Reachable) (hg' : g'.Reachable) (hv : g.view o = .ok v)
    (hv' : g'.view o' = .ok v') (hkeyed : v.op.IsFullyKeyed) (hfits : v.op.Fits v.io)
    (hfits' : v'.op.Fits v'.io) (hworkload : v.workload = v'.workload)
    (hattributes : v.attributes = v'.attributes) :
    v.kind = v'.kind ∧ v.inputs.length = v'.inputs.length ∧
      v.inputTypes.map TensorType.shape = v'.inputTypes.map TensorType.shape ∧
      v.op.SameAttributes v'.op := by
  have hop := hg.registered_view hv
  have hop' := hg'.registered_view hv'
  obtain ⟨key, hkey⟩ := hop.estimable.workload
  have hkey' : v'.op.workload v'.io = some key := by
    have hok : v.workload = .ok key := OpView.orFault_eq_ok_iff.mpr hkey
    exact OpView.orFault_eq_ok_iff.mp (hworkload.symm.trans hok)
  have keys : v.op.SameKeys v'.op v.io v'.io :=
    ⟨hfits, hfits', hkey.trans hkey'.symm, hattributes,
      Operator.agreesUnkeyed_of_isFullyKeyed hkeyed v.io v'.io⟩
  obtain ⟨hshapes, hsame⟩ := keys.decode hkeyed hop hop'
  refine ⟨Operator.kind_eq_of_attributes hattributes, ?_, hshapes, hsame⟩
  simpa [OpView.inputTypes] using congrArg List.length hshapes

/-- A unit axis removed once by name and once because it has extent one. -/
def squeezed : Graph :=
  (ofCalls [
    .tensor ⟨[2, 1], .float32⟩,
    .tensor ⟨[2, 1], .float32⟩,
    .op (.squeeze { axes := [-1] }) [⟨0⟩],
    .op (.squeeze {}) [⟨1⟩]]).1

/-- The two definitions differ as given, but have the same keys and resolve to the same axes. -/
theorem inputs_eq_of_keys_squeezed :
    ∃ v v', squeezed.view ⟨0⟩ = .ok v ∧ squeezed.view ⟨1⟩ = .ok v' ∧
      v.workload = v'.workload ∧ v.attributes = v'.attributes ∧ v.kind = v'.kind ∧
      v.inputTypes.map TensorType.shape = v'.inputTypes.map TensorType.shape ∧
      v.op.SameAttributes v'.op := by
  have hview : squeezed.view ⟨0⟩ =
      .ok ⟨⟨0⟩, ⟨4, .squeeze { axes := [-1], resolved := [1], rank := 2 }, [⟨0⟩], [⟨2⟩]⟩,
        [⟨⟨0⟩, 1, ⟨[2, 1], .float32⟩, none, none, [⟨0⟩]⟩],
        [⟨⟨2⟩, 3, ⟨[2], .float32⟩, none, some ⟨0⟩, []⟩]⟩ := by cbv
  have hview' : squeezed.view ⟨1⟩ =
      .ok ⟨⟨1⟩, ⟨6, .squeeze { axes := [], resolved := [1], rank := 2 }, [⟨1⟩], [⟨3⟩]⟩,
        [⟨⟨1⟩, 2, ⟨[2, 1], .float32⟩, none, none, [⟨1⟩]⟩],
        [⟨⟨3⟩, 5, ⟨[2], .float32⟩, none, some ⟨1⟩, []⟩]⟩ := by cbv
  have h := inputs_eq_of_keys (reachable_ofCalls _) (reachable_ofCalls _) hview hview' rfl
    ⟨by decide, by decide, by decide⟩ ⟨by decide, by decide, by decide⟩ rfl rfl
  exact ⟨_, _, hview, hview', rfl, rfl, h.1, h.2.2⟩

end Graph

end DataflowCost
