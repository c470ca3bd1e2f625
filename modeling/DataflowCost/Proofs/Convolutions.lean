import DataflowCost.Proofs.Infers
import DataflowCost.Proofs.Windows

/-! What is inferred of a convolution: its windows are resolved, its channels fall into groups, and each
axis keeps the positions of its window. -/
namespace DataflowCost

open Inference DataflowCost.Convolution

/-- The constructors of forward convolutions, over two axes and over three. -/
inductive Operator.IsConvolution : {n : Nat} → (Conv n → Operator) → Prop where
  | planar : IsConvolution Operator.conv2d
  | spatial : IsConvolution Operator.conv3d

namespace Convolution

/-- An input and a weight of the rank that a convolution over `n` axes takes. -/
structure Operands (n : Nat) where
  batch : Nat
  channels : Nat
  spatial : Vector Nat n
  filters : Nat
  perGroup : Nat
  kernel : Vector Nat n
  dtype : DType
  weightType : DType

namespace Operands

variable {n : Nat}

def input (o : Operands n) : TensorType := ⟨o.batch :: o.channels :: o.spatial.toList, o.dtype⟩

def weight (o : Operands n) : TensorType :=
  ⟨o.filters :: o.perGroup :: o.kernel.toList, o.weightType⟩

/-- An output with these extents. -/
def output (o : Operands n) (extents : Vector Nat n) : TensorType :=
  ⟨o.batch :: o.filters :: extents.toList, o.dtype⟩

theorem output_injective {o : Operands n} : Function.Injective o.output := by
  intro v w h
  apply Vector.toList_inj.mp
  exact (List.cons.inj (List.cons.inj (congrArg TensorType.shape h)).2).2

end Operands

theorem outChannels_eq_ok_iff {channels filters perGroup out : Nat} {kernel : List Nat} :
    outChannels channels (filters :: perGroup :: kernel) = .ok out ↔
      0 < channels / perGroup ∧ channels % perGroup = 0 ∧ filters % (channels / perGroup) = 0 ∧
        out = filters := by
  change (do
    require (0 < perGroup ∧ channels % perGroup = 0) (.inputChannels channels perGroup)
    let group ← quotient channels perGroup
    require ((← remainder filters group) = 0) (.outputChannels filters group)
    return filters) = Except.ok out ↔ _
  rw [require_bind_eq_ok_iff]
  constructor
  · rintro ⟨⟨hpos, hwhole⟩, h⟩
    obtain ⟨group, hquotient, h⟩ := bind_eq_ok_iff.mp h
    obtain rfl := Except.ok.inj ((quotient_eq hpos).symm.trans hquotient)
    obtain ⟨_, hrest, h⟩ := bind_eq_ok_iff.mp h
    obtain ⟨hgroup, rfl⟩ := remainder_eq_ok_iff.mp hrest
    obtain ⟨hfilters, h⟩ := require_bind_eq_ok_iff.mp h
    exact ⟨hgroup, hwhole, hfilters, (Except.ok.inj h).symm⟩
  · rintro ⟨hgroup, hwhole, hfilters, rfl⟩
    -- Without channels in a group there are no groups either.
    have hpos : 0 < perGroup := Nat.pos_of_ne_zero fun hz => by simp [hz] at hgroup
    refine ⟨⟨hpos, hwhole⟩, ?_⟩
    apply bind_eq_ok_iff.mpr
    refine ⟨channels / perGroup, quotient_eq hpos, ?_⟩
    apply bind_eq_ok_iff.mpr
    exact ⟨_, remainder_eq_ok_iff.mpr ⟨hgroup, rfl⟩, require_bind_eq_ok_iff.mpr ⟨hfilters, rfl⟩⟩

end Convolution

namespace Conv

variable {n : Nat}

theorem resolve_operands [Build] (d : Conv n) (o : Operands n) : d.resolve [o.input, o.weight] =
    (fun window => { d with window }) <$>
      d.window.resolve o.spatial.toList o.kernel.toList := by
  have hinput : requireRank "input" (n + 2) o.input = .ok () :=
    if_pos (by simp [TensorType.rank, Operands.input])
  have hweight : requireRank "weight" (n + 2) o.weight = .ok () :=
    if_pos (by simp [TensorType.rank, Operands.weight])
  have hspatial : o.input.shape.from? 2 = some o.spatial.toList := Shape.from?_of_le (by
    simp [Operands.input])
  have hkernel : o.weight.shape.from? 2 = some o.kernel.toList := Shape.from?_of_le (by
    simp [Operands.weight])
  change (do
    requireRank "input" (n + 2) o.input
    requireRank "weight" (n + 2) o.weight
    let spatial ← present (o.input.shape.from? 2)
    let kernel ← present (o.weight.shape.from? 2)
    return { d with window := ← d.window.resolve spatial kernel }) = _
  rw [hinput, hweight, hspatial, hkernel]
  rw [map_eq_pure_bind]
  rfl

theorem outShape_operands [Build] (window : Sliding n) (o : Operands n) :
    outShape window o.input.shape o.weight.shape = (do
      let out ← outChannels o.channels o.weight.shape
      let extents ← (List.finRange n).mapM (window.extentOn o.spatial o.kernel)
      return o.batch :: out :: extents) := by
  have hspatial : o.input.shape.from? 2 = some o.spatial.toList := Shape.from?_of_le (by
    simp [Operands.input])
  have hkernel : o.weight.shape.from? 2 = some o.kernel.toList := Shape.from?_of_le (by
    simp [Operands.weight])
  unfold outShape
  rw [hspatial, hkernel]
  rw [← window.outExtents_toList]
  rfl

end Conv

namespace Graph

theorem infer_convolution [Build] {n : Nat} {wrap : Conv n → Operator} (hwrap : Operator.IsConvolution wrap)
    {g : Graph} {ids : List TensorId} {o : Operands n}
    (htypes : g.typesOf? ids = some [o.input, o.weight]) (d : Conv n) :
    g.infer (wrap d) ids = Inference.within (wrap d).kind [o.input, o.weight] (do
      let window ← d.window.resolve o.spatial.toList o.kernel.toList
      let out ← outChannels o.channels o.weight.shape
      let extents ← (List.finRange n).mapM (window.extentOn o.spatial o.kernel)
      return ⟨wrap { d with window }, [⟨o.batch :: out :: extents, o.dtype⟩]⟩) := by
  have hinfer : g.infer (wrap d) ids = Inference.within (wrap d).kind [o.input, o.weight] (do
      let d' ← d.resolve [o.input, o.weight]
      return ⟨wrap d', [⟨← Conv.outShape d'.window o.input.shape o.weight.shape, o.dtype⟩]⟩) := by
    cases hwrap with
    | planar | spatial =>
      exact infer_eq_of_outShape ⟨fun _ _ => rfl, fun _ _ hole => hole⟩ htypes rfl rfl rfl
        (fun _ => rfl) fun _ => rfl
  rw [hinfer, Conv.resolve_operands]
  cases d.window.resolve o.spatial.toList o.kernel.toList with
  | error refusal => rfl
  | ok window =>
    simp only [Conv.outShape_operands, bind_assoc, pure_bind, map_eq_pure_bind]

theorem infer_convolution_eq_ok_iff [Build] {n : Nat} {wrap : Conv n → Operator}
    (hwrap : Operator.IsConvolution wrap) {g : Graph} {ids : List TensorId} {o : Operands n}
    (htypes : g.typesOf? ids = some [o.input, o.weight]) {d : Conv n} {inferred : Inferred} :
    g.infer (wrap d) ids = .ok inferred ↔ ∃ window extents,
      d.window.resolve o.spatial.toList o.kernel.toList = .ok window ∧
      outChannels o.channels o.weight.shape = .ok o.filters ∧
      (∀ i : Fin n, window.extentOn o.spatial o.kernel i = .ok (extents.get i)) ∧
      inferred = ⟨wrap { d with window }, [o.output extents]⟩ := by
  rw [infer_convolution hwrap htypes, within_eq_ok_iff]
  constructor
  · intro h
    obtain ⟨window, hwindow, h⟩ := bind_eq_ok_iff.mp h
    obtain ⟨out, hout, h⟩ := bind_eq_ok_iff.mp h
    obtain ⟨_, hlist, h⟩ := bind_eq_ok_iff.mp h
    obtain ⟨extents, rfl, hextents⟩ := Sliding.mapM_finRange_eq_ok_iff.mp hlist
    obtain rfl : out = o.filters := (outChannels_eq_ok_iff.mp hout).2.2.2
    exact ⟨window, extents, hwindow, hout, hextents, (Except.ok.inj h).symm⟩
  · rintro ⟨window, extents, hwindow, hout, hextents, rfl⟩
    apply bind_eq_ok_iff.mpr
    refine ⟨window, hwindow, ?_⟩
    apply bind_eq_ok_iff.mpr
    refine ⟨_, hout, ?_⟩
    apply bind_eq_ok_iff.mpr
    exact ⟨_, Sliding.mapM_finRange_eq_ok_iff.mpr ⟨extents, rfl, hextents⟩, rfl⟩

section Exact

open scoped ExactArithmetic

/-- Channels that fall into groups leave a convolution no division by zero. -/
theorem infer_convolution_ok_or_error {n : Nat} {wrap : Conv n → Operator}
    (hwrap : Operator.IsConvolution wrap) {g : Graph} {ids : List TensorId} {o : Operands n}
    (d : Conv n) (htypes : g.typesOf? ids = some [o.input, o.weight])
    (hchannels : outChannels o.channels o.weight.shape = .ok o.filters) :
    (∃ inferred, g.infer (wrap d) ids = .ok inferred) ∨
      ∃ e, g.infer (wrap d) ids = .error (.error e) := by
  rw [infer_convolution hwrap htypes, hchannels]
  refine Meets.within_ok_or_error ?_ (wrap d).kind _
  refine (Sliding.meets_resolve ExactArithmetic.elim o.spatial.length_toList
    o.kernel.length_toList).bind ?_
  intro window hmoves
  refine (meets_ok trivial).bind fun _ (_ : True) => ?_
  rw [← window.outExtents_toList]
  exact (Sliding.meets_outExtents ExactArithmetic.elim hmoves o.spatial.length_toList
    o.kernel.length_toList).bind fun _ _ => meets_ok trivial

end Exact

end Graph

end DataflowCost
