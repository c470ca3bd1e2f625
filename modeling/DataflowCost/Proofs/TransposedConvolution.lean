import DataflowCost.Proofs.Convolutions

/-! Transposed convolutions lead back. What the positions of a window leave of a padded extent is the
padding that the way back adds at the output. -/
namespace DataflowCost

open Inference DataflowCost.Convolution

namespace Window

/-- What an extent has left behind the last position of a window, padded by so much at both ends together. -/
def leftover (input kernel stride dilation both : Nat) : Nat :=
  (input + both - span kernel dilation) % stride

variable [Build] {input kernel stride dilation pad both p : Nat}

theorem full_eq_padded (hboth : Word.mul 2 pad = .ok both) (hstride : 0 < stride)
    (h : positions input kernel stride dilation pad = .ok p) :
    (p - 1) * stride + dilation * (kernel - 1) + leftover input kernel stride dilation both + 1 =
      input + both ∧ input + both < Word.limit := by
  obtain ⟨_, _, hword, hfits, rfl⟩ := (positions_eq_ok_iff hboth hstride).mp h
  have hspan : span kernel dilation = dilation * (kernel - 1) + 1 := by
    rw [span, Nat.mul_comm]
  -- The positions take whole strides, and what they leave is added at the output.
  have hsplit : (input + both - span kernel dilation) / stride * stride +
      leftover input kernel stride dilation both = input + both - span kernel dilation :=
    Nat.div_add_mod' _ _
  refine ⟨?_, hword⟩
  rw [Nat.add_sub_cancel]
  omega

end Window

namespace ConvTranspose

/-- The way back from the positions of a window on an axis to the extent of the axis. Nothing on the way is
beyond the padded extent. -/
theorem outExtent_positions [Build] {input kernel stride dilation pad both p : Nat}
    (hboth : Word.mul 2 pad = .ok both) (hstride : 0 < stride) (hinput : 0 < input)
    (h : Window.positions input kernel stride dilation pad = .ok p) :
    outExtent p kernel stride dilation pad (Window.leftover input kernel stride dilation both) =
      .ok input := by
  obtain ⟨hfull, hword⟩ := Window.full_eq_padded hboth hstride h
  have hlimit {n : Nat} (hle : n ≤ input + both) (_ : Build.Bounded) : n < Word.limit :=
    Nat.lt_of_le_of_lt hle hword
  unfold outExtent
  refine bind_eq_ok_iff.mpr ⟨_, Word.mul_eq (hlimit (by omega)), ?_⟩
  refine bind_eq_ok_iff.mpr ⟨_, Word.mul_eq (hlimit (by omega)), ?_⟩
  refine bind_eq_ok_iff.mpr ⟨_, Word.add_eq (hlimit (by omega)), ?_⟩
  refine bind_eq_ok_iff.mpr ⟨_, Word.add_eq (hlimit (by omega)), ?_⟩
  refine bind_eq_ok_iff.mpr ⟨_, Word.add_eq (hlimit (by omega)), ?_⟩
  refine bind_eq_ok_iff.mpr ⟨both, hboth, ?_⟩
  refine require_bind_eq_ok_iff.mpr ⟨by omega, ?_⟩
  exact congrArg Except.ok (by omega)

end ConvTranspose

namespace Convolution.Operands

/-- The extents of an output and of the weight, as the way back reads them. -/
def backward (o : Operands 2) (extents : Vector Nat 2) : ConvTranspose.Extents where
  batch := o.batch
  channels := o.filters
  spatial := extents
  outPerGroup := o.perGroup
  kernel := o.kernel

theorem extents?_output (o : Operands 2) (extents : Vector Nat 2) :
    ConvTranspose.extents? .first (o.output extents).shape o.weight.shape =
      some (o.backward extents) := by
  unfold output weight backward
  rw [Sliding.eq_pair extents, Sliding.eq_pair o.kernel]
  rfl

end Convolution.Operands

namespace Conv

/-- The transposed convolution by the weight of a convolution whose axes are padded by so much at both ends
together. -/
def transposed (d : Conv 2) (both : Vector Nat 2) (o : Operands 2) (act : Activation) :
    ConvTranspose where
  window := d.window
  outputPadding := .ofFn fun i =>
    Window.leftover (o.spatial.get i) (o.kernel.get i) (d.window.strides.get i)
      (d.window.dilations.get i) (both.get i)
  group := o.channels / o.perGroup
  layout := .first
  act := act

variable [Build] {d : Conv 2} {o : Operands 2} {window : Sliding 2} {both : Vector Nat 2}
  {act : Activation}

/-- Unless they are to keep the extents, both resolve the pads in the same way. -/
theorem resolvePads_transposed (hpadding : d.window.padding ≠ .same) {pads : Vector Nat 2}
    (h : d.window.padsFor o.spatial.toList o.kernel.toList = .ok pads) (e : ConvTranspose.Extents) :
    (d.transposed both o act).resolvePads e = .ok pads := by
  unfold Sliding.padsFor at h
  unfold ConvTranspose.resolvePads transposed
  cases hgiven : d.window.padding with
  | same => exact absurd hgiven hpadding
  | explicit pads | valid =>
    rw [hgiven] at h
    exact h

theorem resolve_transposed (hpadding : d.window.padding ≠ .same)
    (hwindow : d.window.resolve o.spatial.toList o.kernel.toList = .ok window)
    (hgroup : 0 < o.channels / o.perGroup) (extents : Vector Nat 2) :
    (d.transposed both o act).resolve [o.output extents, o.weight] =
      .ok { d.transposed both o act with window } := by
  obtain ⟨hsteps, pads, hpads, rfl⟩ := Sliding.resolve_eq_ok_iff.mp hwindow
  have hinput : requireRank "input" 4 (o.output extents) = .ok () :=
    if_pos (by simp [TensorType.rank, Operands.output])
  have hweight : requireRank "weight" 4 o.weight = .ok () :=
    if_pos (by simp [TensorType.rank, Operands.weight])
  have hextents : ConvTranspose.extents? .first (o.output extents).shape o.weight.shape =
      some (o.backward extents) :=
    o.extents?_output extents
  change (do
    requireRank "input" 4 (o.output extents)
    requireRank "weight" 4 o.weight
    require (0 < o.channels / o.perGroup) .zeroGroup
    d.window.checkSteps
    let e ← present (ConvTranspose.extents? .first (o.output extents).shape o.weight.shape)
    return { d.transposed both o act with
      window := { d.window with pads := ← (d.transposed both o act).resolvePads e } }) = _
  rw [hinput, hweight, hextents]
  apply require_bind_eq_ok_iff.mpr
  refine ⟨hgroup, ?_⟩
  apply bind_eq_ok_iff.mpr
  refine ⟨(), Sliding.checkSteps_eq_ok_iff.mpr hsteps, ?_⟩
  apply bind_eq_ok_iff.mpr
  refine ⟨_, rfl, ?_⟩
  apply bind_eq_ok_iff.mpr
  exact ⟨pads, resolvePads_transposed hpadding hpads _, rfl⟩

theorem outShape_transposed (hpadding : d.window.padding ≠ .same)
    (hwindow : d.window.resolve o.spatial.toList o.kernel.toList = .ok window)
    (hchannels : outChannels o.channels o.weight.shape = .ok o.filters)
    (hspatial : ∀ i : Fin 2, 0 < o.spatial.get i) {extents : Vector Nat 2}
    (hextents : ∀ i : Fin 2, window.extentOn o.spatial o.kernel i = .ok (extents.get i))
    (hboth : ∀ i : Fin 2, Word.mul 2 (window.pads.get i) = .ok (both.get i))
    (hword : Build.Bounded → o.channels < Word.limit) :
    ConvTranspose.outShape { d.transposed both o act with window } (o.output extents).shape
      o.weight.shape = .ok o.input.shape := by
  obtain ⟨hsteps, pads, hpads, rfl⟩ := Sliding.resolve_eq_ok_iff.mp hwindow
  obtain ⟨hgroup, hwhole, hfilters, _⟩ := outChannels_eq_ok_iff.mp hchannels
  have hback (i : Fin 2) : ConvTranspose.outExtent (extents.get i) (o.kernel.get i)
      (d.window.strides.get i) (d.window.dilations.get i) (pads.get i) (Window.leftover
        (o.spatial.get i) (o.kernel.get i) (d.window.strides.get i) (d.window.dilations.get i)
        (both.get i)) = .ok (o.spatial.get i) := by
    apply ConvTranspose.outExtent_positions (hboth i) (hsteps.strides i) (hspatial i)
    exact (Sliding.extentOn_of_ne_same (w := { d.window with pads }) hpadding i).symm.trans
      (hextents i)
  -- Each group of the way back puts out as many channels as the weight had for one.
  have hgroups : o.perGroup * (o.channels / o.perGroup) = o.channels :=
    Nat.mul_div_cancel' (Nat.dvd_of_mod_eq_zero hwhole)
  have hinput : o.input.shape = [o.batch, o.perGroup * (o.channels / o.perGroup),
      o.spatial.get Window.rowAxis, o.spatial.get Window.columnAxis] := by
    rw [hgroups, Operands.input, Sliding.eq_pair o.spatial]
    rfl
  unfold ConvTranspose.outShape
  apply bind_eq_ok_iff.mpr
  refine ⟨_, congrArg present (o.extents?_output extents), ?_⟩
  apply bind_eq_ok_iff.mpr
  refine ⟨o.filters, rfl, ?_⟩
  apply require_bind_eq_ok_iff.mpr
  refine ⟨rfl, ?_⟩
  apply bind_eq_ok_iff.mpr
  refine ⟨_, remainder_eq_ok_iff.mpr ⟨hgroup, rfl⟩, ?_⟩
  apply require_bind_eq_ok_iff.mpr
  refine ⟨hfilters, ?_⟩
  apply bind_eq_ok_iff.mpr
  refine ⟨_, Word.mul_eq fun hbounded => hgroups.trans_lt (hword hbounded), ?_⟩
  apply bind_eq_ok_iff.mpr
  refine ⟨_, hback Window.rowAxis, ?_⟩
  apply bind_eq_ok_iff.mpr
  refine ⟨_, hback Window.columnAxis, ?_⟩
  rw [hinput]
  rfl

end Conv

namespace Graph

variable [Build]

/-- The padding of both ends of an axis has been added up where a convolution is accepted. -/
theorem exists_both_of_extentOn {w : Sliding 2} {spatial kernel extents : Vector Nat 2}
    (hpadding : w.padding ≠ .same)
    (h : ∀ i : Fin 2, w.extentOn spatial kernel i = .ok (extents.get i)) :
    ∃ both : Vector Nat 2, ∀ i : Fin 2, Word.mul 2 (w.pads.get i) = .ok (both.get i) := by
  have hall (i : Fin 2) : ∃ both, Word.mul 2 (w.pads.get i) = .ok both :=
    Window.exists_both_of_positions ((Sliding.extentOn_of_ne_same hpadding i).symm.trans (h i))
  obtain ⟨both, hboth⟩ := Classical.axiomOfChoice hall
  refine ⟨.ofFn both, fun i => (hboth i).trans ?_⟩
  exact congrArg Except.ok (Vector.getElem_ofFn i.isLt).symm

end Graph

namespace Graph

open scoped WrappingArithmetic

/-- Four channels in two groups, a weight for them, and the output at the strides below. -/
def strided : Graph := (ofCalls [.tensor ⟨[1, 4, 8, 8], .float32⟩,
  .tensor ⟨[6, 2, 3, 3], .float32⟩, .tensor ⟨[1, 6, 3, 2], .float32⟩]).1

/-- A square and a window, and the one position that the window takes at a stride of three. -/
def overpadded : Graph := (ofCalls [.tensor ⟨[1, 1, 5, 5], .float32⟩,
  .tensor ⟨[1, 1, 3, 3], .float32⟩, .tensor ⟨[1, 1, 1, 1], .float32⟩]).1

end Graph

end DataflowCost
