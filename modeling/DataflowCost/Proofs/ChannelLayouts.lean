import DataflowCost.Proofs.TransposedConvolution

/-! One transposed convolution in two layouts. The layout decides where extents are read from shapes and
where they are written; what is computed in between knows the extents by their role only. -/
namespace DataflowCost

open Inference DataflowCost.Convolution

namespace ChannelLayout

/-- The shape with these extents, the channel axis standing where the layout has it. -/
def arrange (layout : ChannelLayout) (outer channels rows columns : Nat) : Shape :=
  match layout with
  | first => [outer, channels, rows, columns]
  | last => [outer, rows, columns, channels]

variable (layout : ChannelLayout) (outer channels rows columns : Nat)

theorem size_arrange : (layout.arrange outer channels rows columns).size =
    outer * channels * (rows * columns) := by
  cases layout with
  | first | last =>
    simp only [arrange, Shape.size, List.foldr_cons, List.foldr_nil]
    ring

end ChannelLayout

namespace ConvTranspose

/-- The pads on operands whose extents are known by their role. -/
def padsOn [Build] (d : ConvTranspose) (e : Extents) : Inference (Vector Nat 2) := do
  require (0 < d.group) .zeroGroup
  d.window.checkSteps
  d.resolvePads e

/-- The output channels, rows and columns, for a weight that reads so many channels. -/
def produced [Build] (d : ConvTranspose) (e : Extents) (inner : Nat) :
    Inference (Nat × Nat × Nat) := do
  require (e.channels = inner) (.transposedChannels e.channels inner)
  require ((← remainder e.channels d.group) = 0) (.groupChannels e.channels d.group)
  let out ← Word.mul e.outPerGroup d.group
  let extent (i : Fin 2) := outExtent (e.spatial.get i) (e.kernel.get i)
    (d.window.strides.get i) (d.window.dilations.get i) (d.window.pads.get i)
    (d.outputPadding.get i)
  return (out, ← extent Window.rowAxis, ← extent Window.columnAxis)

/-- The definition with these pads. -/
def padded (d : ConvTranspose) (pads : Vector Nat 2) : ConvTranspose :=
  { d with window := { d.window with pads } }

variable {d : ConvTranspose} {e : Extents} {x w : TensorType}

theorem resolve_eq [Build] (hx : x.rank = 4) (hw : w.rank = 4)
    (he : extents? d.layout x.shape w.shape = some e) :
    d.resolve [x, w] = do return d.padded (← d.padsOn e) := by
  have hinput : requireRank "input" 4 x = .ok () := if_pos hx
  have hweight : requireRank "weight" 4 w = .ok () := if_pos hw
  change (do
    requireRank "input" 4 x
    requireRank "weight" 4 w
    require (0 < d.group) .zeroGroup
    d.window.checkSteps
    let e ← present (extents? d.layout x.shape w.shape)
    return d.padded (← d.resolvePads e)) = _
  rw [hinput, hweight, he]
  simp only [padsOn, bind_assoc]
  rfl

theorem outShape_eq [Build] (he : extents? d.layout x.shape w.shape = some e) {inner : Nat}
    (hinner : w.shape[0]? = some inner) : d.outShape x.shape w.shape = do
      let (out, rows, columns) ← d.produced e inner
      return d.layout.arrange e.batch out rows columns := by
  unfold outShape
  rw [he, hinner]
  simp only [produced, bind_assoc, pure_bind]
  cases d.layout <;> rfl

theorem operations?_eq {α : Type} [Scalar α] (he : extents? d.layout x.shape w.shape = some e)
    (y : TensorType) : d.operations? (α := α) ⟨[x, w], [y]⟩ = some
      (y.elements * Scalar.volume e.kernel.toList * Scalar.ofNat (e.channels / max d.group 1)) := by
  change (do
    let e ← extents? d.layout x.shape w.shape
    return y.elements * Scalar.volume e.kernel.toList *
      Scalar.ofNat (e.channels / max d.group 1)) = _
  rw [he]
  rfl

theorem exists_metrics {α : Type} [Scalar α] (he : extents? d.layout x.shape w.shape = some e)
    (y : TensorType) (cx : CostContext) : ∃ m : Metrics α,
      (Operator.convTranspose d).metrics ⟨[x, w], [y]⟩ cx = some m ∧
        m.parallelism = lanes y * 0.95 := by
  change ∃ m : Metrics α, (do
    let operations : α ← d.operations? ⟨[x, w], [y]⟩
    return Metrics.mk _ _ (lanes y * 0.95)) = some m ∧ _
  rw [operations?_eq he]
  exact ⟨_, rfl, rfl⟩

end ConvTranspose

namespace Graph

open ConvTranspose

/-- What is inferred of a transposed convolution is laid out like its input. -/
theorem infer_convTranspose_eq_ok_iff [Build] {g : Graph} {ids : List TensorId} {d : ConvTranspose}
    {x w : TensorType} {e : Extents} {inner : Nat} {inferred : Inferred}
    (htypes : g.typesOf? ids = some [x, w]) (hx : x.rank = 4) (hw : w.rank = 4)
    (he : extents? d.layout x.shape w.shape = some e) (hinner : w.shape[0]? = some inner) :
    g.infer (.convTranspose d) ids = .ok inferred ↔ ∃ pads out rows columns,
      d.padsOn e = .ok pads ∧ (d.padded pads).produced e inner = .ok (out, rows, columns) ∧
      inferred = ⟨.convTranspose (d.padded pads),
        [⟨d.layout.arrange e.batch out rows columns, x.dtype⟩]⟩ := by
  have hwrap : Operator.Wraps Operator.convTranspose := ⟨fun _ _ => rfl, fun _ _ hole => hole⟩
  have houtShape (pads : Vector Nat 2) := outShape_eq (d := d.padded pads) he hinner
  have hshapes (t : ConvTranspose) : Family.outShapes t [x, w] =
      do return [← t.outShape x.shape w.shape] := rfl
  rw [infer_eq_of_outShape hwrap htypes rfl rfl rfl hshapes fun _ => rfl, within_eq_ok_iff,
    resolve_eq hx hw he]
  constructor
  · intro h
    obtain ⟨_, hresolve, h⟩ := bind_eq_ok_iff.mp h
    obtain ⟨pads, hpads, hresolve⟩ := bind_eq_ok_iff.mp hresolve
    obtain rfl := Except.ok.inj hresolve
    obtain ⟨_, hout, h⟩ := bind_eq_ok_iff.mp h
    rw [houtShape] at hout
    obtain ⟨⟨out, rows, columns⟩, hproduced, hout⟩ := bind_eq_ok_iff.mp hout
    obtain rfl := Except.ok.inj hout
    exact ⟨pads, out, rows, columns, hpads, hproduced, (Except.ok.inj h).symm⟩
  · rintro ⟨pads, out, rows, columns, hpads, hproduced, rfl⟩
    refine bind_eq_ok_iff.mpr ⟨d.padded pads, bind_eq_ok_iff.mpr ⟨pads, hpads, rfl⟩, ?_⟩
    refine bind_eq_ok_iff.mpr ⟨d.layout.arrange e.batch out rows columns, ?_, rfl⟩
    rw [houtShape]
    exact bind_eq_ok_iff.mpr ⟨_, hproduced, rfl⟩

/-- Both layouts of a transposed convolution accept the same operands, each in its own order of axes. The
pads are the same and so are the extents of the output by their role; in any arithmetic the
operations are as many and the parallelism is the same. -/
theorem transposed_layouts_agree [Build] {n f h w inner c r s : Nat} {dtype weightType : DType}
    (d : ConvTranspose) {g g' : Graph} {ids ids' : List TensorId}
    (htypes : g.typesOf? ids =
      some [⟨[n, f, h, w], dtype⟩, ⟨[inner, c, r, s], weightType⟩])
    (htypes' : g'.typesOf? ids' =
      some [⟨[n, h, w, f], dtype⟩, ⟨[inner, r, s, c], weightType⟩]) :
    let planar : ConvTranspose := { d with layout := .first }
    let deep : ConvTranspose := { d with layout := .last }
    ((∃ inferred, g.infer (.convTranspose planar) ids = .ok inferred) ↔
      ∃ inferred, g'.infer (.convTranspose deep) ids' = .ok inferred) ∧
    ∀ {inferred inferred' : Inferred}, g.infer (.convTranspose planar) ids = .ok inferred →
      g'.infer (.convTranspose deep) ids' = .ok inferred' → ∃ pads oc oh ow,
        inferred = ⟨.convTranspose (planar.padded pads), [⟨[n, oc, oh, ow], dtype⟩]⟩ ∧
        inferred' = ⟨.convTranspose (deep.padded pads), [⟨[n, oh, ow, oc], dtype⟩]⟩ ∧
        ∀ {α : Type} [Scalar α],
          let io : Io :=
            ⟨[⟨[n, f, h, w], dtype⟩, ⟨[inner, c, r, s], weightType⟩], inferred.outputs⟩
          let io' : Io :=
            ⟨[⟨[n, h, w, f], dtype⟩, ⟨[inner, r, s, c], weightType⟩], inferred'.outputs⟩
          (∃ operations : α, (planar.padded pads).operations? io = some operations ∧
            (deep.padded pads).operations? io' = some operations) ∧
          ∀ cx, ∃ m m' : Metrics α, inferred.op.metrics io cx = some m ∧
            inferred'.op.metrics io' cx = some m' ∧ m.parallelism = m'.parallelism := by
  intro planar deep
  let e : Extents := ⟨n, f, #v[h, w], c, #v[r, s]⟩
  have hplanar {inferred : Inferred} : g.infer (.convTranspose planar) ids = .ok inferred ↔ _ :=
    infer_convTranspose_eq_ok_iff (e := e) htypes rfl rfl rfl rfl
  have hdeep {inferred : Inferred} : g'.infer (.convTranspose deep) ids' = .ok inferred ↔ _ :=
    infer_convTranspose_eq_ok_iff (e := e) htypes' rfl rfl rfl rfl
  refine ⟨⟨?_, ?_⟩, ?_⟩
  -- Neither the pads nor what is produced with them depends on the layout.
  · rintro ⟨_, hinfer⟩
    obtain ⟨pads, out, rows, columns, hpads, hproduced, _⟩ := hplanar.mp hinfer
    exact ⟨_, hdeep.mpr ⟨pads, out, rows, columns, hpads, hproduced, rfl⟩⟩
  · rintro ⟨_, hinfer⟩
    obtain ⟨pads, out, rows, columns, hpads, hproduced, _⟩ := hdeep.mp hinfer
    exact ⟨_, hplanar.mpr ⟨pads, out, rows, columns, hpads, hproduced, rfl⟩⟩
  · intro inferred inferred' hinfer hinfer'
    obtain ⟨pads, oc, oh, ow, hpads, hproduced, rfl⟩ := hplanar.mp hinfer
    have hsame := hdeep.mpr ⟨pads, oc, oh, ow, hpads, hproduced, rfl⟩
    obtain rfl := Except.ok.inj (hsame.symm.trans hinfer')
    refine ⟨pads, oc, oh, ow, rfl, rfl, fun {α} _ => ?_⟩
    -- The output has as many elements in either order of its axes.
    have helements : TensorType.elements (α := α) ⟨[n, oc, oh, ow], dtype⟩ =
        TensorType.elements ⟨[n, oh, ow, oc], dtype⟩ :=
      congrArg Scalar.ofNat ((ChannelLayout.size_arrange .first n oc oh ow).trans
        (ChannelLayout.size_arrange .last n oc oh ow).symm)
    refine ⟨⟨_, operations?_eq (e := e) rfl _, ?_⟩, fun cx => ?_⟩
    · refine (operations?_eq (e := e) rfl _).trans (congrArg some ?_)
      exact congrArg (· * Scalar.volume e.kernel.toList * _) helements.symm
    · obtain ⟨m, hm, hlanes⟩ := exists_metrics (d := planar.padded pads) (e := e) (α := α)
        (x := ⟨[n, f, h, w], dtype⟩) (w := ⟨[inner, c, r, s], weightType⟩) rfl
        ⟨[n, oc, oh, ow], dtype⟩ cx
      obtain ⟨m', hm', hlanes'⟩ := exists_metrics (d := deep.padded pads) (e := e) (α := α)
        (x := ⟨[n, h, w, f], dtype⟩) (w := ⟨[inner, r, s, c], weightType⟩) rfl
        ⟨[n, oh, ow, oc], dtype⟩ cx
      refine ⟨m, m', hm, hm', ?_⟩
      rw [hlanes, hlanes', lanes, lanes, helements]

section

open scoped WrappingArithmetic

/-- A small picture and a weight for it in two groups, channels in front and channels behind. -/
def twoLayouts : Graph := (ofCalls [.tensor ⟨[2, 4, 3, 5], .float32⟩,
  .tensor ⟨[4, 3, 2, 3], .float32⟩, .tensor ⟨[2, 3, 5, 4], .float32⟩,
  .tensor ⟨[4, 2, 3, 3], .float32⟩]).1

/-- Strides, dilations and output padding differ between rows and columns, and the columns are padded. -/
def lopsided (layout : ChannelLayout) : ConvTranspose :=
  { window := ⟨.explicit [0, 2], #v[2, 1], #v[1, 2], #v[0, 0]⟩, outputPadding := #v[1, 0], group := 2,
    layout }

theorem transposed_layouts_agree_twoLayouts :
    twoLayouts.typesOf? [⟨0⟩, ⟨1⟩] = some [⟨[2, 4, 3, 5], .float32⟩, ⟨[4, 3, 2, 3], .float32⟩] ∧
      twoLayouts.typesOf? [⟨2⟩, ⟨3⟩] =
        some [⟨[2, 3, 5, 4], .float32⟩, ⟨[4, 2, 3, 3], .float32⟩] ∧
      twoLayouts.infer (.convTranspose (lopsided .first)) [⟨0⟩, ⟨1⟩] =
        .ok ⟨.convTranspose ((lopsided .first).padded #v[0, 2]), [⟨[2, 6, 7, 5], .float32⟩]⟩ ∧
      twoLayouts.infer (.convTranspose (lopsided .last)) [⟨2⟩, ⟨3⟩] =
        .ok ⟨.convTranspose ((lopsided .last).padded #v[0, 2]), [⟨[2, 7, 5, 6], .float32⟩]⟩ := by
  have htypes : twoLayouts.typesOf? [⟨0⟩, ⟨1⟩] =
      some [⟨[2, 4, 3, 5], .float32⟩, ⟨[4, 3, 2, 3], .float32⟩] := by rfl
  have htypes' : twoLayouts.typesOf? [⟨2⟩, ⟨3⟩] =
      some [⟨[2, 3, 5, 4], .float32⟩, ⟨[4, 2, 3, 3], .float32⟩] := by rfl
  have hinfer : twoLayouts.infer (.convTranspose (lopsided .first)) [⟨0⟩, ⟨1⟩] =
      .ok ⟨.convTranspose ((lopsided .first).padded #v[0, 2]), [⟨[2, 6, 7, 5], .float32⟩]⟩ := by rfl
  obtain ⟨hiff, hsame⟩ := transposed_layouts_agree (lopsided .first) htypes htypes'
  obtain ⟨inferred', hinfer'⟩ := hiff.mp ⟨_, hinfer⟩
  obtain ⟨pads, oc, oh, ow, heq, rfl, _⟩ := hsame hinfer hinfer'
  obtain ⟨hpads, rfl, rfl, rfl⟩ : #v[0, 2] = pads ∧ 6 = oc ∧ 7 = oh ∧ 5 = ow := by
    simpa [padded, lopsided] using heq
  subst hpads
  exact ⟨htypes, htypes', hinfer, hinfer'⟩

end

end Graph

end DataflowCost
