import DataflowCost.Proofs.Families.Window
import DataflowCost.Proofs.Keys.Basic

/-! The keys of families that slide windows. Ranks are fixed, so the extents of input and weight are
told apart, and the output follows from them and from the window. -/
namespace DataflowCost

open Inference Family DataflowCost.Convolution
open scoped ExactArithmetic

variable {n : Nat}

namespace Sliding

/-- Two windows that differ in the pads that were asked for at most: what these resolve to is the
same. -/
structure Alike (w w' : Sliding n) : Prop where
  policy_eq : w.padding.tag = w'.padding.tag
  pads_eq : w.pads = w'.pads
  strides_eq : w.strides = w'.strides
  dilations_eq : w.dilations = w'.dilations

/-- The numbers of a window, in the order of its key. -/
def numbers (w : Sliding n) : List Nat :=
  w.pads.toList ++ w.strides.toList ++ w.dilations.toList

theorem alike_of_numbers {w w' : Sliding n} (hpolicy : w.padding.tag = w'.padding.tag)
    (h : w.numbers = w'.numbers) : w.Alike w' := by
  have hlen (v v' : Vector Nat n) : v.toList.length = v'.toList.length := by
    rw [Vector.length_toList, Vector.length_toList]
  obtain ⟨hsteps, hdilations⟩ := List.append_inj' h (hlen _ _)
  obtain ⟨hpads, hstrides⟩ := List.append_inj hsteps (hlen _ _)
  exact ⟨hpolicy, Vector.toList_inj.mp hpads, Vector.toList_inj.mp hstrides,
    Vector.toList_inj.mp hdilations⟩

theorem alike_of_key {w w' : Sliding n} (hw : AreWords w.numbers) (hw' : AreWords w'.numbers)
    (h : w.key = w'.key) : w.Alike w' := by
  obtain ⟨hpolicy, hnumbers⟩ := List.cons.inj h
  exact alike_of_numbers hpolicy (words_inj hw hw' hnumbers)

theorem Alike.outExtents_eq {w w' : Sliding n} (h : w.Alike w') (spatial kernel : List Nat) :
    w.outExtents spatial kernel = w'.outExtents spatial kernel := by
  obtain ⟨padding, strides, dilations, pads⟩ := w
  obtain ⟨padding', strides', dilations', pads'⟩ := w'
  obtain ⟨hpolicy, rfl, rfl, rfl⟩ := h
  cases padding <;> cases padding' <;> first | rfl | cases hpolicy

end Sliding

theorem Convolution.operations_eq {α : Type} [Scalar α] {x w out : TensorType}
    {rest outputs : List TensorType} (hw : 1 ≤ w.shape.length) :
    operations? (α := α) ⟨x :: w :: rest, out :: outputs⟩ =
      some (Scalar.volume out.shape * Scalar.volume (w.shape.drop 1)) := by
  change (w.shape.from? 1).bind _ = _
  rw [Shape.from?_of_le hw]
  rfl

/-- As no bias is taken, there is nothing behind the weight. -/
theorem Convolution.length_eq_of_rejectBias {inputs : List TensorType} {a : Arity} {u : Unit}
    (haccepts : a.accepts inputs.length) (hleast : 2 ≤ a.least) (h : rejectBias inputs = .ok u) :
    inputs.length = 2 := by
  have hge : 2 ≤ inputs.length := Nat.le_trans hleast (Arity.least_le_of_accepts haccepts)
  have hle : inputs.length ≤ 2 := by
    unfold rejectBias at h
    split at h
    next => cases h
    next hle => exact Nat.not_lt.mp hle
  exact Nat.le_antisymm hle hge

/-- Input and weight have the rank of the window and two more. -/
theorem Convolution.Ranked.operands {x w : TensorType} {rest : List TensorType}
    (h : Ranked n (x :: w :: rest)) : x.shape.length = n + 2 ∧ w.shape.length = n + 2 :=
  ⟨h x (by simp), h w (by simp)⟩

namespace Conv

theorem outShape_congr {window window' : Sliding n} (h : window.Alike window') (x w : Shape) :
    outShape window x w = outShape window' x w := by
  simp only [outShape, h.outExtents_eq]

/-- The definitions differ in the pads that were asked for at most. -/
structure Alike (d d' : Conv n) : Prop where
  window : d.window.Alike d'.window
  act_eq : d.act = d'.act

theorem settings_inj {d d' : Conv n} (hd : AreWords d.window.numbers)
    (hd' : AreWords d'.window.numbers) (h : d.settings = d'.settings) : d.Alike d' := by
  obtain ⟨hwindow, hact⟩ := List.append_inj' h rfl
  exact ⟨Sliding.alike_of_key hd hd' hwindow,
    Activation.tag_injective (List.cons.inj hact).1⟩

/-- The ranks are that of the window and two more, so the key tells input and weight apart. -/
theorem operands_eq {op op' : Operator} {d d' : Conv n} {x x' w w' : TensorType}
    {rest rest' outputs outputs' : List TensorType} (hranked : Ranked n (x :: w :: rest))
    (hranked' : Ranked n (x' :: w' :: rest'))
    (keys : op.SameKeys op' ⟨x :: w :: rest, outputs⟩ ⟨x' :: w' :: rest', outputs'⟩)
    (hsettings : d.settings = d'.settings)
    (hkey : words x.shape ++ words w.shape ++ d.settings =
      words x'.shape ++ words w'.shape ++ d'.settings) :
    x.shape = x'.shape ∧ w.shape = w'.shape := by
  have hxlen : x.shape.length = n + 2 := hranked.operands.1
  have hxlen' : x'.shape.length = n + 2 := hranked'.operands.1
  exact keys.inputs_eq_of_append (hxlen.trans hxlen'.symm) hsettings hkey

theorem decode {op op' : Operator} {d d' : Conv n} {k : Kind}
    {inputs inputs' outputs outputs' : List TensorType} (hlen : inputs.length = 2)
    (hlen' : inputs'.length = 2) (hranked : Ranked n inputs) (hranked' : Ranked n inputs')
    (keys : op.SameKeys op' ⟨inputs, outputs⟩ ⟨inputs', outputs'⟩)
    (hworkload : op.workload ⟨inputs, outputs⟩ = d.workload? k ⟨inputs, outputs⟩)
    (hworkload' : op'.workload ⟨inputs', outputs'⟩ = d'.workload? k ⟨inputs', outputs'⟩)
    (hd : AreWords d.window.numbers) (hd' : AreWords d'.window.numbers)
    (hsettings : d.settings = d'.settings) :
    inputs.map TensorType.shape = inputs'.map TensorType.shape ∧ d.Alike d' := by
  obtain ⟨x, w, rfl⟩ := List.length_eq_two.mp hlen
  obtain ⟨x', w', rfl⟩ := List.length_eq_two.mp hlen'
  have hkey : words x.shape ++ words w.shape ++ d.settings =
      words x'.shape ++ words w'.shape ++ d'.settings := keys.tail_eq hworkload hworkload'
  obtain ⟨hx, hw⟩ := operands_eq hranked hranked' keys hsettings hkey
  refine ⟨?_, settings_inj hd hd' hsettings⟩
  simp only [List.map_cons, List.map_nil, hx, hw]

theorem length_eq_of_resolve {given d : Conv n} {inputs : List TensorType} {a : Arity}
    (haccepts : a.accepts inputs.length) (hleast : 2 ≤ a.least)
    (h : given.resolve inputs = .ok d) : inputs.length = 2 := by
  obtain ⟨_, hbias, _⟩ := bind_eq_ok_iff.mp h
  exact length_eq_of_rejectBias haccepts hleast hbias

theorem decodes_planar : Decodes Operator.conv2d Alike where
  decode h h' keys := by
    obtain ⟨_, _, hresolve⟩ := h.resolved
    obtain ⟨_, _, hresolve'⟩ := h'.resolved
    exact decode (length_eq_of_resolve h.accepts (Nat.le_refl 2) hresolve)
      (length_eq_of_resolve h'.accepts (Nat.le_refl 2) hresolve') h.lawful.2 h'.lawful.2 keys rfl
      rfl keys.fits.numbers keys.fits'.numbers (keys.settings_eq rfl rfl)

theorem decodes_spatial : Decodes Operator.conv3d Alike where
  decode h h' keys := by
    obtain ⟨_, _, hresolve⟩ := h.resolved
    obtain ⟨_, _, hresolve'⟩ := h'.resolved
    exact decode (length_eq_of_resolve h.accepts (Nat.le_refl 2) hresolve)
      (length_eq_of_resolve h'.accepts (Nat.le_refl 2) hresolve') h.lawful.2 h'.lawful.2 keys rfl
      rfl keys.fits.numbers keys.fits'.numbers (keys.settings_eq rfl rfl)

/-- The time of a convolution, whatever its memory costs. -/
theorem map_metrics {α : Type} [Scalar α] (d : Conv n) (memoryFactor : α → α) {x w out : TensorType}
    {rest outputs : List TensorType} (hw : 1 ≤ w.shape.length) (cx : CostContext) :
    (d.metrics? memoryFactor ⟨x :: w :: rest, out :: outputs⟩ cx).map Metrics.computeTime =
      some ((Scalar.volume out.shape * Scalar.volume (w.shape.drop 1) +
        activation d.act out) / 1e9) := by
  change ((operations? _).bind _).map _ = _
  rw [operations_eq hw]
  rfl

/-- Equal keys mean equal operands and alike windows, hence equal outputs and equal times. -/
theorem map_metrics_eq {α : Type} [Scalar α] {op op' : Operator} {d d' : Conv n}
    {x x' w w' out out' : TensorType} {rest rest' : List TensorType}
    (hranked : Ranked n (x :: w :: rest)) (hranked' : Ranked n (x' :: w' :: rest'))
    (hout : outShape d.window x.shape w.shape = .ok out.shape)
    (hout' : outShape d'.window x'.shape w'.shape = .ok out'.shape)
    (keys : op.SameKeys op' ⟨x :: w :: rest, [out]⟩ ⟨x' :: w' :: rest', [out']⟩)
    (hd : AreWords d.window.numbers) (hd' : AreWords d'.window.numbers)
    (hsettings : d.settings = d'.settings)
    (hkey : words x.shape ++ words w.shape ++ d.settings =
      words x'.shape ++ words w'.shape ++ d'.settings) (memoryFactor : α → α) (cx : CostContext) :
    (d.metrics? memoryFactor ⟨x :: w :: rest, [out]⟩ cx).map Metrics.computeTime =
      (d'.metrics? memoryFactor ⟨x' :: w' :: rest', [out']⟩ cx).map Metrics.computeTime := by
  obtain ⟨hxlen, hwlen⟩ := hranked.operands
  obtain ⟨hxlen', hwlen'⟩ := hranked'.operands
  obtain ⟨hwindow, hact⟩ := settings_inj hd hd' hsettings
  obtain ⟨hx, hw⟩ := operands_eq hranked hranked' keys hsettings hkey
  have hshape : out.shape = out'.shape := by
    rw [hx, hw, outShape_congr hwindow, hout'] at hout
    exact (Except.ok.inj hout).symm
  have hvolume : (activation d.act out : α) = activation d'.act out' := by
    simp only [activation, hact, TensorType.elements, TensorType.size, hshape]
  rw [d.map_metrics memoryFactor (by omega), d'.map_metrics memoryFactor (by omega), hvolume, hw,
    hshape]

end Conv

instance : Keyed Operator.conv2d where
  sameTime {d d' _ _ _ _} h h' keys := by
    obtain ⟨x, w, rest, rfl⟩ := Arity.exists_cons₂_of_accepts h.accepts (Nat.le_refl 2)
    obtain ⟨x', w', rest', rfl⟩ := Arity.exists_cons₂_of_accepts h'.accepts (Nat.le_refl 2)
    obtain ⟨out, rfl, hout⟩ :=
      exists_single (r := Conv.outShape d.window x.shape w.shape) h.outShapes_eq
    obtain ⟨out', rfl, hout'⟩ :=
      exists_single (r := Conv.outShape d'.window x'.shape w'.shape) h'.outShapes_eq
    exact sameTime_of_eq fun cx => Conv.map_metrics_eq h.lawful.2 h'.lawful.2 hout hout' keys
      keys.fits.numbers keys.fits'.numbers (keys.settings_eq rfl rfl)
      (keys.tail_eq rfl rfl) id cx

instance : Keyed Operator.conv3d where
  sameTime {d d' _ _ _ _} h h' keys := by
    obtain ⟨x, w, rest, rfl⟩ := Arity.exists_cons₂_of_accepts h.accepts (Nat.le_refl 2)
    obtain ⟨x', w', rest', rfl⟩ := Arity.exists_cons₂_of_accepts h'.accepts (Nat.le_refl 2)
    obtain ⟨out, rfl, hout⟩ :=
      exists_single (r := Conv.outShape d.window x.shape w.shape) h.outShapes_eq
    obtain ⟨out', rfl, hout'⟩ :=
      exists_single (r := Conv.outShape d'.window x'.shape w'.shape) h'.outShapes_eq
    exact sameTime_of_eq fun cx => Conv.map_metrics_eq h.lawful.2 h'.lawful.2 hout hout' keys
      keys.fits.numbers keys.fits'.numbers (keys.settings_eq rfl rfl)
      (keys.tail_eq rfl rfl) (· * 1.2) cx

instance : Keyed Operator.convBackwardFilter where
  sameTime {d d' _ _ _ _} h h' keys := by
    obtain ⟨x, w, rest, rfl⟩ := Arity.exists_cons₂_of_accepts h.accepts (Nat.le_refl 2)
    obtain ⟨x', w', rest', rfl⟩ := Arity.exists_cons₂_of_accepts h'.accepts (Nat.le_refl 2)
    obtain ⟨out, rfl, hout⟩ :=
      exists_single (r := Conv.outShape d.window x.shape w.shape) h.outShapes_eq
    obtain ⟨out', rfl, hout'⟩ :=
      exists_single (r := Conv.outShape d'.window x'.shape w'.shape) h'.outShapes_eq
    obtain ⟨hxlen, hwlen⟩ := h.lawful.2.operands
    obtain ⟨hxlen', hwlen'⟩ := h'.lawful.2.operands
    -- The activation stands in the attributes, but costs no time.
    have hkey : d.window.key = d'.window.key :=
      (List.append_inj' (keys.settings_eq rfl rfl) rfl).1
    have hwindow := Sliding.alike_of_key keys.fits.numbers keys.fits'.numbers hkey
    obtain ⟨hx, hw⟩ :=
      keys.inputs_eq_of_append (hxlen.trans hxlen'.symm) hkey (keys.tail_eq rfl rfl)
    have hshape : out.shape = out'.shape := by
      rw [hx, hw, Conv.outShape_congr hwindow, hout'] at hout
      exact (Except.ok.inj hout).symm
    refine sameTime_of_eq fun cx => ?_
    change ((operations? _).bind _).map _ = ((operations? _).bind _).map _
    rw [operations_eq (by omega), operations_eq (by omega), hw, hshape]
    rfl

namespace ConvTranspose

theorem kindOf_injective {l l' : ChannelLayout} (h : kindOf l = kindOf l') : l = l' := by
  cases l <;> cases l' <;> first | rfl | cases h

/-- Everything but the pads that were asked for can be read from the key. -/
structure Alike (d d' : ConvTranspose) : Prop where
  window : d.window.Alike d'.window
  outputPadding_eq : d.outputPadding = d'.outputPadding
  group_eq : d.group = d'.group
  layout_eq : d.layout = d'.layout
  act_eq : d.act = d'.act

theorem alike_of_attributes {d d' : ConvTranspose}
    (hd : AreWords (d.window.numbers ++ d.outputPadding.toList ++ [d.group]))
    (hd' : AreWords (d'.window.numbers ++ d'.outputPadding.toList ++ [d'.group]))
    (h : attributes d = attributes d') : d.Alike d' := by
  obtain ⟨hkind, hsettings⟩ := List.cons.inj h
  change d.window.key ++ words d.outputPadding.toList ++ [word d.group, d.act.tag] =
    d'.window.key ++ words d'.outputPadding.toList ++ [word d'.group, d'.act.tag] at hsettings
  obtain ⟨hfront, hend⟩ := List.append_inj' hsettings (by simp)
  obtain ⟨hkey, hpadding⟩ := List.append_inj' hfront (by simp [words])
  simp only [List.cons.injEq, and_true] at hend
  obtain ⟨hfits, hgroup⟩ := hd.of_append
  obtain ⟨hfits', hgroup'⟩ := hd'.of_append
  exact {
    window := Sliding.alike_of_key hfits.of_append.1 hfits'.of_append.1 hkey
    outputPadding_eq :=
      Vector.toList_inj.mp (words_inj hfits.of_append.2 hfits'.of_append.2 hpadding)
    group_eq := word_inj (hgroup _ List.mem_cons_self) (hgroup' _ List.mem_cons_self) hend.1
    layout_eq := kindOf_injective (Kind.tag_injective hkind)
    act_eq := Activation.tag_injective hend.2 }

theorem Alike.outShape_eq {d d' : ConvTranspose} (h : d.Alike d') (x w : Shape) :
    d.outShape x w = d'.outShape x w := by
  obtain ⟨⟨padding, strides, dilations, pads⟩, outputPadding, group, layout, act⟩ := d
  obtain ⟨⟨padding', strides', dilations', pads'⟩, outputPadding', group', layout', act'⟩ := d'
  obtain ⟨⟨_, rfl, rfl, rfl⟩, rfl, rfl, rfl, rfl⟩ := h
  rfl

theorem length_eq_of_registered {d : ConvTranspose} {inputs outputs : List TensorType}
    (h : Registered d inputs outputs) : inputs.length = 2 := by
  obtain ⟨_, _, hresolve⟩ := h.resolved
  obtain ⟨_, hbias, _⟩ := bind_eq_ok_iff.mp hresolve
  exact length_eq_of_rejectBias h.accepts (Nat.le_refl 2) hbias

theorem decodes : Decodes Operator.convTranspose Alike where
  decode h h' keys := by
    obtain ⟨x, w, rfl⟩ := List.length_eq_two.mp (length_eq_of_registered h)
    obtain ⟨x', w', rfl⟩ := List.length_eq_two.mp (length_eq_of_registered h')
    have hxlen : x.shape.length = 4 := h.lawful.2.operands.1
    have hxlen' : x'.shape.length = 4 := h'.lawful.2.operands.1
    obtain ⟨hx, hw⟩ := keys.inputs_eq_of_append (hxlen.trans hxlen'.symm)
      (keys.settings_eq rfl rfl) (keys.tail_eq rfl rfl)
    refine ⟨?_, alike_of_attributes keys.fits.numbers keys.fits'.numbers keys.attributes_eq⟩
    simp only [List.map_cons, List.map_nil, hx, hw]

/-- The time of a transposed convolution of given multiplications. -/
theorem map_metrics {α : Type} [Scalar α] (d : ConvTranspose) {inputs outputs : List TensorType}
    {out : TensorType} (cx : CostContext) :
    (metrics (α := α) d ⟨inputs, out :: outputs⟩ cx).map Metrics.computeTime =
      (d.operations? ⟨inputs, out :: outputs⟩).map fun operations => match d.layout with
        | .first => (operations + activation d.act out) / 0.9e9
        | .last => (operations * 1.26 + activation d.act out) / 1e9 := by
  change ((d.operations? _).bind _).map _ = _
  cases d.operations? (α := α) ⟨inputs, out :: outputs⟩ with
  | none => rfl
  | some operations => rfl

end ConvTranspose

instance : Keyed Operator.convTranspose where
  sameTime {d d' _ _ _ _} h h' keys := by
    obtain ⟨⟨x, t⟩, ⟨w, u⟩, rest, rfl⟩ := Arity.exists_cons₂_of_accepts h.accepts (Nat.le_refl 2)
    obtain ⟨⟨x', t'⟩, ⟨w', u'⟩, rest', rfl⟩ :=
      Arity.exists_cons₂_of_accepts h'.accepts (Nat.le_refl 2)
    obtain ⟨⟨out, v⟩, rfl, hout⟩ := exists_single (r := d.outShape x w) h.outShapes_eq
    obtain ⟨⟨out', v'⟩, rfl, hout'⟩ := exists_single (r := d'.outShape x' w') h'.outShapes_eq
    obtain ⟨hxlen, hwlen⟩ := h.lawful.2.operands
    obtain ⟨hxlen', hwlen'⟩ := h'.lawful.2.operands
    have halike := ConvTranspose.alike_of_attributes keys.fits.numbers keys.fits'.numbers
      keys.attributes_eq
    obtain ⟨rfl, rfl⟩ : x = x' ∧ w = w' :=
      keys.inputs_eq_of_append (hxlen.trans hxlen'.symm) (keys.settings_eq rfl rfl)
        (keys.tail_eq rfl rfl)
    obtain rfl : out = out' := by
      rw [halike.outShape_eq, hout'] at hout
      exact (Except.ok.inj hout).symm
    refine sameTime_of_eq fun cx => ?_
    rw [ConvTranspose.map_metrics, ConvTranspose.map_metrics, halike.layout_eq, halike.act_eq]
    obtain ⟨window, outputPadding, group, layout, act⟩ := d
    obtain ⟨window', outputPadding', group', layout', act'⟩ := d'
    obtain ⟨_, rfl, rfl, rfl, rfl⟩ := halike
    rfl

namespace Pool

/-- The numbers of a pooling window, in the order of its key. -/
def numbers (d : Pool) : List Nat :=
  d.kernel.toList ++ d.pads.toList ++ d.strides.toList ++ d.dilations.toList

theorem eq_of_attributes {d d' : Pool} (hd : AreWords d.numbers) (hd' : AreWords d'.numbers)
    (h : attributes d = attributes d') : d = d' := by
  obtain ⟨hkind, hsettings⟩ := List.cons.inj h
  change words d.numbers ++ [word d.ceilMode.toNat] =
    words d'.numbers ++ [word d'.ceilMode.toNat] at hsettings
  obtain ⟨hwords, hceil⟩ := List.append_inj' hsettings (by simp)
  have hlen (v v' : Vector Nat 2) : v.toList.length = v'.toList.length := by
    rw [Vector.length_toList, Vector.length_toList]
  obtain ⟨hrest, hdilations⟩ := List.append_inj' (words_inj hd hd' hwords) (hlen _ _)
  obtain ⟨hrest, hstrides⟩ := List.append_inj' hrest (hlen _ _)
  obtain ⟨hkernel, hpads⟩ := List.append_inj' hrest (hlen _ _)
  rw [mk.injEq]
  exact ⟨Kind.tag_injective hkind, Vector.toList_inj.mp hkernel, Vector.toList_inj.mp hdilations,
    Vector.toList_inj.mp hpads, Vector.toList_inj.mp hstrides,
    word_toNat_injective (List.cons.inj hceil).1⟩

theorem decodes : Decodes Operator.pool Eq := by
  refine .of_settings settings (fun _ => rfl) (fun _ _ _ => rfl) (fun _ => rfl) ?_
  intro d d' io io' keys _ _
  exact eq_of_attributes keys.fits.numbers keys.fits'.numbers keys.attributes_eq

/-- The time that a number of outputs takes. -/
def time {α : Type} [Scalar α] (d : Pool) (size : α) : α :=
  let window : α := Scalar.ofNat (d.kernel.get Window.rowAxis * d.kernel.get Window.columnAxis)
  let perOutput := if d.kind = .maxPool then window - 1.0 else window + 1.0
  size * perOutput * stepFactor (greatest d.dilations) 0.1 / 2e9

theorem computeTime_eq {α : Type} [Scalar α] {d : Pool} {inputs outputs : List TensorType}
    {out : TensorType} {cx : CostContext} {m : Metrics α}
    (h : metrics d ⟨inputs, out :: outputs⟩ cx = some m) :
    m.computeTime = d.time out.elements := by
  obtain ⟨_, hout, h⟩ := Option.bind_eq_some_iff.mp h
  obtain rfl := Option.some.inj hout
  obtain ⟨batch, _, h⟩ := Option.bind_eq_some_iff.mp h
  obtain ⟨channels, _, h⟩ := Option.bind_eq_some_iff.mp h
  obtain ⟨spatial, _, h⟩ := Option.bind_eq_some_iff.mp h
  obtain rfl := Option.some.inj h
  rfl

end Pool

instance : Keyed Operator.pool where
  sameTime {d d' _ _ _ _} h h' keys := by
    obtain ⟨⟨x, t⟩, rest, rfl⟩ := Arity.exists_cons_of_accepts h.accepts (Nat.le_refl 1)
    obtain ⟨⟨x', t'⟩, rest', rfl⟩ := Arity.exists_cons_of_accepts h'.accepts (Nat.le_refl 1)
    obtain ⟨⟨out, u⟩, rfl, hout⟩ := exists_single (r := d.outShape x) h.outShapes_eq
    obtain ⟨⟨out', u'⟩, rfl, hout'⟩ := exists_single (r := d'.outShape x') h'.outShapes_eq
    obtain rfl : d = d' :=
      Pool.eq_of_attributes keys.fits.numbers keys.fits'.numbers keys.attributes_eq
    obtain rfl : x = x' := keys.input_eq_of_append (keys.tail_eq rfl rfl) rfl
    obtain rfl : out = out' := Except.ok.inj (hout.symm.trans hout')
    constructor
    intro α _ _ cx m m' hm hm'
    rw [Pool.computeTime_eq hm, Pool.computeTime_eq hm']
    rfl

end DataflowCost
