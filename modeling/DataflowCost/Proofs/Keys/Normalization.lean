import DataflowCost.Proofs.Families.Normalization
import DataflowCost.Proofs.Keys.Basic

/-! The keys of families that work on rows. The axis at which rows begin stands in the attributes;
whether there is a bias, and how wide a window of channels is, do not stand in any key. -/
namespace DataflowCost

open Inference Family
open scoped ExactArithmetic

instance : Keyed Operator.reduce := by
  refine .of_input (fun _ => Nat.le_refl 1) (fun _ _ keys => ?_) ?_
  · exact keys.input_eq_of_append (keys.tail_eq rfl rfl) (keys.settings_eq rfl rfl)
  · rintro ⟨kind, axes, keepDims, resolved⟩ ⟨kind', axes', keepDims', resolved'⟩
      _ _ _ _ _ _ _ _ _ keys
    obtain rfl : kind = kind' := Kind.tag_injective (keys.head_eq rfl rfl)
    have hsettings := keys.settings_eq rfl rfl
    obtain rfl : resolved = resolved' :=
      words_inj keys.fits.numbers keys.fits'.numbers (List.cons.inj hsettings).2
    exact sameTime_of_eq fun _ => rfl

/-- The workload does not say where the extents end: two shapes of different rank share one. -/
example : Operator.workload (.reduce { kind := .reduceSum, keepDims := true, resolved := [0] })
      ⟨[⟨[2], .float32⟩], [⟨[1], .float32⟩]⟩ =
    Operator.workload (.reduce { kind := .reduceSum, resolved := [] })
      ⟨[⟨[2, 1], .float32⟩], [⟨[2, 1], .float32⟩]⟩ := by decide

/-- Two reductions that differ in how their axes were named at most. -/
structure Reduce.Alike (d d' : Reduce) : Prop where
  kind_eq : d.kind = d'.kind
  keepDims_eq : d.keepDims = d'.keepDims
  resolved_eq : d.resolved = d'.resolved

theorem Reduce.decodes : Decodes Operator.reduce Alike := by
  refine .of_settings settings (fun _ => rfl) (fun _ _ _ => rfl) (fun _ => rfl) ?_
  intro d d' io io' keys hkind hsettings
  obtain ⟨hkeep, hresolved⟩ := List.cons.inj hsettings
  exact ⟨hkind, word_toNat_injective hkeep,
    words_inj keys.fits.numbers keys.fits'.numbers hresolved⟩

namespace Softmax

/-- The time of the rows of a shape, slowed down by the axes inside of them. -/
def time {α : Type} [Scalar α] (d : Softmax) (s : Shape) : α :=
  let strided : α := Scalar.ofNat (d.inner s.length)
  let cache : α := if Scalar.lt 0.0 strided then 1.2 + 0.1 * strided else 1.0
  Scalar.ofNat s.size * 8.0 * cache / 1e9

theorem computeTime_eq {α : Type} [Scalar α] {d : Softmax} {x : TensorType}
    {rest outputs : List TensorType} {cx : CostContext} {m : Metrics α}
    (h : metrics d ⟨x :: rest, outputs⟩ cx = some m) : m.computeTime = d.time x.shape := by
  obtain ⟨_, hx, h⟩ := Option.bind_eq_some_iff.mp h
  obtain rfl := Option.some.inj hx
  obtain ⟨row, _, h⟩ := Option.bind_eq_some_iff.mp h
  obtain rfl := Option.some.inj h
  rfl

end Softmax

instance : Keyed Operator.softmax := by
  refine .of_sameShape id (fun keys => ?_) ?_
  · exact keys.output_eq (List.cons.inj (keys.tail_eq rfl rfl)).2
  · rintro ⟨axis, resolved⟩ ⟨axis', resolved'⟩ s _ _ _ _ _ _ _ _ keys
    obtain rfl : resolved = resolved' := keys.number_eq rfl rfl rfl rfl
    constructor
    intro α _ _ cx m m' hm hm'
    rw [Softmax.computeTime_eq hm, Softmax.computeTime_eq hm']
    rfl

namespace LayerNorm

/-- The time of `outer` rows of `normalized` elements, each of them scaled and perhaps shifted. -/
def time {α : Type} [Scalar α] (outer normalized : α) (biased : Bool) : α :=
  let elements := outer * normalized
  let bias : α := if biased then 1.0 else 0.0
  (elements + outer + (3.0 * elements + outer) + 3.0 * elements + (1.0 + bias) * elements) / 1.5e9

theorem computeTime_eq {α : Type} [Scalar α] {d : LayerNorm} {x : TensorType}
    {rest outputs : List TensorType} {cx : CostContext} {m : Metrics α}
    (hle : d.resolved ≤ x.shape.length) (h : metrics d ⟨x :: rest, outputs⟩ cx = some m) :
    m.computeTime = time (Scalar.volume (x.shape.take d.resolved))
      (Scalar.volume (x.shape.drop d.resolved)) (2 < (x :: rest).length) := by
  obtain ⟨_, hx, h⟩ := Option.bind_eq_some_iff.mp h
  obtain rfl := Option.some.inj hx
  obtain ⟨outer, houter, h⟩ := Option.bind_eq_some_iff.mp h
  obtain ⟨inner, hinner, h⟩ := Option.bind_eq_some_iff.mp h
  obtain rfl := Option.some.inj ((Shape.before?_of_le hle).symm.trans houter)
  obtain rfl := Option.some.inj ((Shape.from?_of_le hle).symm.trans hinner)
  obtain rfl := Option.some.inj h
  simp only [time, decide_eq_true_eq]

end LayerNorm

instance : Keyed Operator.layerNorm := by
  refine .of_inputKey (fun _ => Nat.le_succ 1) (fun _ _ => rfl) ?_
  rintro d d' s t t' rest rest' _ _ h h' keys
  have hresolved : d.resolved = d'.resolved := keys.number_eq rfl rfl rfl rfl
  have hlen : (⟨s, t⟩ :: rest).length = (⟨s, t'⟩ :: rest').length := keys.agrees
  have hle : d.resolved ≤ s.length := Nat.le_of_lt (h.lawful _ rfl)
  constructor
  intro α _ _ cx m m' hm hm'
  rw [LayerNorm.computeTime_eq hle hm, LayerNorm.computeTime_eq (hresolved ▸ hle) hm', hresolved,
    hlen]

theorem RmsNorm.sameShape_of_outShapes {d : RmsNorm} {inputs : List TensorType}
    {shapes : List Shape} (h : outShapes d inputs = .ok shapes) :
    sameShape inputs = .ok shapes := by
  obtain ⟨x, hx, h⟩ := bind_eq_ok_iff.mp h
  obtain ⟨_, _, h⟩ := bind_eq_ok_iff.mp h
  obtain ⟨weight, _, h⟩ := bind_eq_ok_iff.mp h
  obtain ⟨_, _, h⟩ := bind_eq_ok_iff.mp h
  exact bind_eq_ok_iff.mpr ⟨x, hx, h⟩

instance : Keyed Operator.rmsNorm :=
  .of_outputKey RmsNorm.sameShape_of_outShapes (fun _ _ => rfl)
    fun _ _ _ => sameTime_of_eq fun _ => rfl

/-- The formula reads the two outermost extents, which equal shapes have or lack alike. -/
instance : Keyed Operator.batchNorm := by
  refine .of_inputKey (fun _ => show 1 ≤ 5 by decide) (fun _ _ => rfl) ?_
  rintro _ _ (_ | ⟨batch, _ | ⟨channels, spatial⟩⟩) _ _ _ _ _ _ _ _ _ <;>
    exact sameTime_of_eq fun _ => rfl

instance : Keyed Operator.instanceNorm := by
  refine .of_inputKey (fun _ => show 1 ≤ 3 by decide) (fun _ _ => rfl) ?_
  rintro _ _ (_ | ⟨batch, _ | ⟨channels, spatial⟩⟩) _ _ _ _ _ _ _ _ _ <;>
    exact sameTime_of_eq fun _ => rfl

theorem LocalResponseNorm.computeTime_eq {α : Type} [Scalar α] {d : LocalResponseNorm}
    {x : TensorType} {rest outputs : List TensorType} {cx : CostContext} {m : Metrics α}
    (h : metrics d ⟨x :: rest, outputs⟩ cx = some m) :
    ∃ channels, x.shape[1]? = some channels ∧ m.computeTime =
      x.elements * (Scalar.minimum (Scalar.ofNat d.size) (Scalar.ofNat channels) + 5.0) / 1e9 := by
  obtain ⟨_, hx, h⟩ := Option.bind_eq_some_iff.mp h
  obtain rfl := Option.some.inj hx
  obtain ⟨batch, _, h⟩ := Option.bind_eq_some_iff.mp h
  obtain ⟨channels, hchannels, h⟩ := Option.bind_eq_some_iff.mp h
  obtain ⟨spatial, _, h⟩ := Option.bind_eq_some_iff.mp h
  obtain rfl := Option.some.inj h
  exact ⟨channels, hchannels, rfl⟩

instance : Keyed Operator.localResponseNorm := by
  refine .of_outputKey id (fun _ _ => rfl) ?_
  intro d d' s _ _ _ _ _ _ _ _ keys
  have hsize : d.size = d'.size := keys.agrees
  constructor
  intro α _ _ cx m m' hm hm'
  obtain ⟨channels, hchannels, hm⟩ := LocalResponseNorm.computeTime_eq hm
  obtain ⟨channels', hchannels', hm'⟩ := LocalResponseNorm.computeTime_eq hm'
  obtain rfl := Option.some.inj (hchannels.symm.trans hchannels')
  rw [hm, hm', hsize]
  rfl

end DataflowCost
