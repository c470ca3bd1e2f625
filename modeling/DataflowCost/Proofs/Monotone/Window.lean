import DataflowCost.Proofs.Activation
import DataflowCost.Proofs.Keys.Window
import DataflowCost.Proofs.Monotone.Basic

/-! Costs of families that slide windows. A larger extent has no fewer positions, so the output
grows with the input; pads that follow from the input only do so where they are not looked at any
more. -/
namespace DataflowCost

open Scalar Inference Family
open scoped ExactArithmetic

variable {n : Nat}

/-- What two lists have in common with a third one relates them to each other. -/
theorem forall₂_of_common {β γ δ : Type} {P : β → γ → Prop} {Q : β → δ → Prop} {R : γ → δ → Prop}
    {xs : List β} {ys : List γ} {zs : List δ} (hR : ∀ x ∈ xs, ∀ y z, P x y → Q x z → R y z)
    (hP : List.Forall₂ P xs ys) (hQ : List.Forall₂ Q xs zs) : List.Forall₂ R ys zs := by
  induction hP generalizing zs with
  | nil =>
    cases hQ
    exact .nil
  | @cons x y xs ys hxy _ ih =>
    cases hQ with
    | cons hxz hQ =>
      have hhead := hR x List.mem_cons_self _ _ hxy hxz
      exact .cons hhead (ih (fun x hx => hR x (List.mem_cons_of_mem _ hx)) hQ)

namespace Inference

theorem quotient_le {a a' b q q' : Nat} (h : a ≤ a') (hq : quotient a b = .ok q)
    (hq' : quotient a' b = .ok q') : q ≤ q' := by
  have heq : q = a / b := (meets_quotient fun _ => trivial).of_ok hq
  have heq' : q' = a' / b := (meets_quotient fun _ => trivial).of_ok hq'
  rw [heq, heq']
  exact Nat.div_le_div_right h

theorem quotientUp_le {a a' b q q' : Nat} (h : a ≤ a') (hq : quotientUp a b = .ok q)
    (hq' : quotientUp a' b = .ok q') : q ≤ q' := by
  unfold quotientUp at hq hq'
  by_cases hb : b = 0
  · rw [if_pos hb] at hq
    cases hq
  · rw [if_neg hb] at hq hq'
    rw [← Except.ok.inj hq, ← Except.ok.inj hq']
    apply Nat.div_le_div_right
    omega

end Inference

namespace Window

/-- The first position, and one more for each stride that is left. -/
theorem exists_quotient_of_positions {input kernel stride dilation pad p : Nat}
    (h : positions input kernel stride dilation pad = .ok p) :
    ∃ q, quotient (input + 2 * pad - span kernel dilation) stride = .ok q ∧ p = q + 1 := by
  rw [positions_exact] at h
  obtain ⟨_, _, h⟩ := bind_eq_ok_iff.mp h
  obtain ⟨_, _, h⟩ := bind_eq_ok_iff.mp h
  obtain ⟨_, _, h⟩ := bind_eq_ok_iff.mp h
  obtain ⟨_, _, h⟩ := bind_eq_ok_iff.mp h
  obtain ⟨q, hq, h⟩ := bind_eq_ok_iff.mp h
  exact ⟨q, hq, (Except.ok.inj h).symm⟩

theorem positions_le {input input' kernel stride dilation pad p p' : Nat} (h : input ≤ input')
    (hp : positions input kernel stride dilation pad = .ok p)
    (hp' : positions input' kernel stride dilation pad = .ok p') : p ≤ p' := by
  obtain ⟨q, hq, rfl⟩ := exists_quotient_of_positions hp
  obtain ⟨q', hq', rfl⟩ := exists_quotient_of_positions hp'
  apply Nat.succ_le_succ
  apply quotient_le _ hq hq'
  omega

end Window

namespace Sliding

/-- Two windows that differ in pads at most, and there only if these follow from the input. -/
structure SameSteps (w w' : Sliding n) : Prop where
  padding_eq : w.padding = w'.padding
  strides_eq : w.strides = w'.strides
  dilations_eq : w.dilations = w'.dilations
  pads_eq : w.padding = .same ∨ w.pads = w'.pads

/-- A window keeps its steps when it is resolved. -/
theorem sameSteps_of_resolve {w u u' : Sliding n} {spatial spatial' kernel kernel' : List Nat}
    (h : w.resolve spatial kernel = .ok u) (h' : w.resolve spatial' kernel' = .ok u') :
    u.SameSteps u' := by
  obtain ⟨_, _, h⟩ := bind_eq_ok_iff.mp h
  obtain ⟨_, _, h'⟩ := bind_eq_ok_iff.mp h'
  -- Pads are worked out from the extents for one padding only; else both resolve to the same.
  cases hpadding : w.padding with
  | same =>
    simp only [hpadding] at h h'
    obtain ⟨pads, _, h⟩ := bind_eq_ok_iff.mp h
    obtain ⟨pads', _, h'⟩ := bind_eq_ok_iff.mp h'
    obtain rfl := Except.ok.inj h
    obtain rfl := Except.ok.inj h'
    exact ⟨rfl, rfl, rfl, .inl rfl⟩
  | explicit given | valid =>
    simp only [hpadding] at h h'
    obtain rfl : u = u' := Except.ok.inj (h.symm.trans h')
    exact ⟨rfl, rfl, rfl, .inr rfl⟩

theorem SameSteps.outExtents_le {w w' : Sliding n} (hsteps : w.SameSteps w')
    {spatial spatial' kernel extents extents' : List Nat} (h : Shape.Within spatial spatial')
    (he : w.outExtents spatial kernel = .ok extents)
    (he' : w'.outExtents spatial' kernel = .ok extents') : Shape.Within extents extents' := by
  apply forall₂_of_common _ (mapM_eq_ok_iff.mp he) (mapM_eq_ok_iff.mp he')
  intro i _ e e' he he'
  obtain ⟨extent, hextent, he⟩ := bind_eq_ok_iff.mp he
  obtain ⟨extent', hextent', he'⟩ := bind_eq_ok_iff.mp he'
  have hle : extent ≤ extent' := h.entry_le (present_eq_ok hextent) (present_eq_ok hextent')
  rw [← hsteps.padding_eq, ← hsteps.strides_eq, ← hsteps.dilations_eq] at he'
  -- Explicit pads and none at all count positions in the same way, from equal pads.
  have hpositions (hpads : w.pads = w'.pads)
      (he : (present kernel[i.val]? >>= fun taps => Window.positions extent taps w.strides[i]
        w.dilations[i] w.pads[i]) = .ok e)
      (he' : (present kernel[i.val]? >>= fun taps => Window.positions extent' taps w.strides[i]
        w.dilations[i] w'.pads[i]) = .ok e') : e ≤ e' := by
    obtain ⟨taps, htaps, he⟩ := bind_eq_ok_iff.mp he
    obtain ⟨taps', htaps', he'⟩ := bind_eq_ok_iff.mp he'
    obtain rfl := Except.ok.inj (htaps.symm.trans htaps')
    rw [← hpads] at he'
    exact Window.positions_le hle he he'
  cases hpadding : w.padding with
  | same =>
    rw [hpadding] at he he'
    exact quotientUp_le hle he he'
  | explicit given | valid =>
    rw [hpadding] at he he'
    have hpads : w.pads = w'.pads := hsteps.pads_eq.resolve_left (by rw [hpadding]; exact nofun)
    exact hpositions hpads he he'

end Sliding

section Convolution

open DataflowCost.Convolution

variable {α K : Type} [Scalar α] [Field K] [LinearOrder K] [IsStrictOrderedRing K] [Valued α K]

/-- Both lists have a weight of the same shape, or neither has one. -/
def Convolution.SameWeight (inputs inputs' : List TensorType) : Prop :=
  inputs[1]?.map TensorType.shape = inputs'[1]?.map TensorType.shape

/-- The output has as many channels as the weight has filters. -/
theorem Convolution.getElem?_of_outChannels {channels filters : Nat} {w : Shape}
    (h : outChannels channels w = .ok filters) : w[0]? = some filters := by
  obtain ⟨out, hout, h⟩ := bind_eq_ok_iff.mp h
  obtain ⟨_, _, h⟩ := bind_eq_ok_iff.mp h
  obtain ⟨_, _, h⟩ := bind_eq_ok_iff.mp h
  obtain ⟨_, _, h⟩ := bind_eq_ok_iff.mp h
  obtain ⟨_, _, h⟩ := bind_eq_ok_iff.mp h
  obtain ⟨_, _, h⟩ := bind_eq_ok_iff.mp h
  rw [present_eq_ok hout, Except.ok.inj h]

theorem Convolution.value_activation_le (act : Activation) {out out' : TensorType}
    (h : (out.size : K) ≤ out'.size) :
    value (activation act out : α) ≤ value (activation act out' : α) := by
  unfold activation
  apply value_ite_le
  · simp only [Valued.value_mul, Valued.value_literal, value_elements]
    gcongr
  · exact le_refl _

namespace Conv

theorem exists_window_of_resolve {given d : Conv n} {inputs : List TensorType}
    (h : given.resolve inputs = .ok d) : ∃ spatial kernel window,
      given.window.resolve spatial kernel = .ok window ∧ d = { given with window } := by
  obtain ⟨_, _, h⟩ := bind_eq_ok_iff.mp h
  obtain ⟨_, _, h⟩ := bind_eq_ok_iff.mp h
  obtain ⟨_, _, h⟩ := bind_eq_ok_iff.mp h
  obtain ⟨_, _, h⟩ := bind_eq_ok_iff.mp h
  obtain ⟨_, _, h⟩ := bind_eq_ok_iff.mp h
  obtain ⟨spatial, _, h⟩ := bind_eq_ok_iff.mp h
  obtain ⟨kernel, _, h⟩ := bind_eq_ok_iff.mp h
  obtain ⟨window, hwindow, h⟩ := bind_eq_ok_iff.mp h
  exact ⟨spatial, kernel, window, hwindow, (Except.ok.inj h).symm⟩

/-- The output has the batch of the input, as many channels as the weight has filters, and the
positions of the window. -/
theorem exists_extents_of_outShape {window : Sliding n} {x w out : Shape}
    (h : outShape window x w = .ok out) : ∃ batch filters extents, x[0]? = some batch ∧
      w[0]? = some filters ∧ window.outExtents (x.drop 2) (w.drop 2) = .ok extents ∧
      out = batch :: filters :: extents := by
  obtain ⟨_, _, h⟩ := bind_eq_ok_iff.mp h
  obtain ⟨filters, hfilters, h⟩ := bind_eq_ok_iff.mp h
  obtain ⟨spatial, hspatial, h⟩ := bind_eq_ok_iff.mp h
  obtain ⟨kernel, hkernel, h⟩ := bind_eq_ok_iff.mp h
  obtain ⟨extents, hextents, h⟩ := bind_eq_ok_iff.mp h
  obtain ⟨batch, hbatch, h⟩ := bind_eq_ok_iff.mp h
  rw [Shape.eq_drop_of_from? (present_eq_ok hspatial),
    Shape.eq_drop_of_from? (present_eq_ok hkernel)] at hextents
  exact ⟨batch, filters, extents, present_eq_ok hbatch, getElem?_of_outChannels hfilters, hextents,
    (Except.ok.inj h).symm⟩

theorem outShape_within {window window' : Sliding n} (hsteps : window.SameSteps window')
    {x x' w out out' : Shape} (hx : Shape.Within x x') (hout : outShape window x w = .ok out)
    (hout' : outShape window' x' w = .ok out') : Shape.Within out out' := by
  obtain ⟨batch, filters, extents, hbatch, hfilters, hextents, rfl⟩ :=
    exists_extents_of_outShape hout
  obtain ⟨batch', filters', extents', hbatch', hfilters', hextents', rfl⟩ :=
    exists_extents_of_outShape hout'
  -- The weight is the same, and with it the number of filters.
  obtain rfl : filters = filters' := Option.some.inj (hfilters.symm.trans hfilters')
  have hbatches : batch ≤ batch' := hx.entry_le hbatch hbatch'
  have hpositions : Shape.Within extents extents' :=
    hsteps.outExtents_le (hx.drop 2) hextents hextents'
  exact .cons hbatches (.cons (Nat.le_refl filters) hpositions)

/-- Time and memory of a convolution of which only the first operand grows. -/
theorem below {given d d' : Conv n} {memoryFactor : α → α}
    (hfactor : ∀ a b : α, value a ≤ value b → value (memoryFactor a) ≤ value (memoryFactor b))
    {cx : CostContext} (hcx : cx.memoryUnit = .elements)
    {x x' w w' out out' : TensorType} {rest rest' : List TensorType}
    (h : given.resolve (x :: w :: rest) = .ok d) (h' : given.resolve (x' :: w' :: rest') = .ok d')
    (hranked : Ranked n (x :: w :: rest)) (hgrown : Grown (x :: w :: rest) (x' :: w' :: rest'))
    (hweight : SameWeight (x :: w :: rest) (x' :: w' :: rest'))
    (hout : outShape d.window x.shape w.shape = .ok out.shape)
    (hout' : outShape d'.window x'.shape w'.shape = .ok out'.shape) {m m' : Metrics α}
    (hm : d.metrics? memoryFactor ⟨x :: w :: rest, [out]⟩ cx = some m)
    (hm' : d'.metrics? memoryFactor ⟨x' :: w' :: rest', [out']⟩ cx = some m') : m.Below m' := by
  obtain ⟨_, _, window, hwindow, rfl⟩ := exists_window_of_resolve h
  obtain ⟨_, _, window', hwindow', rfl⟩ := exists_window_of_resolve h'
  have hw : w.shape = w'.shape := Option.some.inj hweight
  have hsteps := Sliding.sameSteps_of_resolve hwindow hwindow'
  rw [← hw] at hout'
  have houts : Shape.Within out.shape out'.shape := outShape_within hsteps hgrown.head hout hout'
  have hsize : (out.size : K) ≤ out'.size := houts.cast_size_le
  have hact := value_activation_le (α := α) given.act hsize
  have hin := value_sum_traffic_le (α := α) hcx hgrown
  have hwritten := value_sum_traffic_le (α := α) hcx (.cons houts .nil : Grown [out] [out'])
  have hrank : 1 ≤ w.shape.length := by
    rw [hranked.operands.2]
    omega
  simp only [metrics?, operations_eq hrank, operations_eq (hw ▸ hrank)] at hm hm'
  obtain rfl := Option.some.inj hm
  obtain rfl := Option.some.inj hm'
  constructor
  · have hvolume : (out.shape.size : K) ≤ out'.shape.size := hsize
    simp only [Valued.value_div, Valued.value_add, Valued.value_mul, value_volume,
      Valued.value_literal, hw]
    gcongr
  · apply hfactor
    rw [Valued.value_add, Valued.value_add]
    exact add_le_add hin hwritten

end Conv

end Convolution

open DataflowCost.Convolution in
instance : Monotone (Conv 2) where
  Comparable := SameWeight
  below {α K _ _ _ _ _ given d d' inputs inputs' outputs outputs' cx m m'} _ hcx h h' hgrown hweight
      hm hm' := by
    obtain ⟨x, w, rest, rfl⟩ := Arity.exists_cons₂_of_accepts h.accepts (Nat.le_refl 2)
    obtain ⟨x', w', rest', rfl⟩ := Arity.exists_cons₂_of_accepts h'.accepts (Nat.le_refl 2)
    obtain ⟨out, rfl, hout⟩ :=
      exists_single (r := Conv.outShape d.window x.shape w.shape) h.outShapes_eq
    obtain ⟨out', rfl, hout'⟩ :=
      exists_single (r := Conv.outShape d'.window x'.shape w'.shape) h'.outShapes_eq
    exact Conv.below (fun _ _ hle => hle) hcx h.yields h'.yields h.lawful.2 hgrown hweight hout
      hout' hm hm'

open DataflowCost.Convolution in
instance : Monotone (Conv 3) where
  Comparable := SameWeight
  below {α K _ _ _ _ _ given d d' inputs inputs' outputs outputs' cx m m'} _ hcx h h' hgrown hweight
      hm hm' := by
    obtain ⟨x, w, rest, rfl⟩ := Arity.exists_cons₂_of_accepts h.accepts (Nat.le_refl 2)
    obtain ⟨x', w', rest', rfl⟩ := Arity.exists_cons₂_of_accepts h'.accepts (Nat.le_refl 2)
    obtain ⟨out, rfl, hout⟩ :=
      exists_single (r := Conv.outShape d.window x.shape w.shape) h.outShapes_eq
    obtain ⟨out', rfl, hout'⟩ :=
      exists_single (r := Conv.outShape d'.window x'.shape w'.shape) h'.outShapes_eq
    have hfactor (a b : α) (hle : value a ≤ value b) : value (a * 1.2) ≤ value (b * 1.2) := by
      rw [Valued.value_mul, Valued.value_mul, Valued.value_literal]
      gcongr
    exact Conv.below hfactor hcx h.yields h'.yields h.lawful.2 hgrown hweight hout hout' hm hm'

namespace Pool

theorem pooled_le {d : Pool} {axis : Fin 2} {input input' p p' : Nat} (h : input ≤ input')
    (hp : d.pooled axis input = .ok p) (hp' : d.pooled axis input' = .ok p') : p ≤ p' := by
  rw [pooled_exact] at hp hp'
  obtain ⟨_, _, hp⟩ := bind_eq_ok_iff.mp hp
  obtain ⟨_, _, hp'⟩ := bind_eq_ok_iff.mp hp'
  have hfree (window : Nat) :
      input + 2 * d.pads.get axis - window ≤ input' + 2 * d.pads.get axis - window := by
    omega
  cases hceil : d.ceilMode with
  | true | false =>
    rw [hceil] at hp hp'
    obtain ⟨steps, hsteps, hp⟩ := bind_eq_ok_iff.mp hp
    obtain ⟨steps', hsteps', hp'⟩ := bind_eq_ok_iff.mp hp'
    rw [← Except.ok.inj hp, ← Except.ok.inj hp']
    apply Nat.succ_le_succ
    first
    | exact quotientUp_le (hfree _) hsteps hsteps'
    | exact quotient_le (hfree _) hsteps hsteps'

/-- Of an input with one spatial axis that axis is pooled. -/
theorem exists_columns_of_outShape {d : Pool} {x out : Shape} (hrank : x.length = 3)
    (h : d.outShape x = .ok out) : ∃ extent columns, x[2]? = some extent ∧
      d.pooled Window.columnAxis extent = .ok columns ∧ out = x.take 2 ++ [columns] := by
  obtain ⟨batch, channels, extent, rfl⟩ := List.length_eq_three.mp hrank
  obtain ⟨_, hlast, h⟩ := bind_eq_ok_iff.mp h
  obtain rfl := Except.ok.inj hlast
  obtain ⟨columns, hcolumns, h⟩ := bind_eq_ok_iff.mp h
  exact ⟨extent, columns, rfl, hcolumns, (Except.ok.inj h).symm⟩

/-- Of an input with two spatial axes both are pooled. -/
theorem exists_rows_of_outShape {d : Pool} {x out : Shape} (hrank : x.length = 4)
    (h : d.outShape x = .ok out) : ∃ height width rows columns, x[2]? = some height ∧
      x[3]? = some width ∧ d.pooled Window.rowAxis height = .ok rows ∧
      d.pooled Window.columnAxis width = .ok columns ∧ out = x.take 2 ++ [rows, columns] := by
  match x, hrank with
  | [batch, channels, height, width], _ =>
    obtain ⟨_, hlast, h⟩ := bind_eq_ok_iff.mp h
    obtain rfl := Except.ok.inj hlast
    obtain ⟨rows, hrows, h⟩ := bind_eq_ok_iff.mp h
    obtain ⟨columns, hcolumns, h⟩ := bind_eq_ok_iff.mp h
    exact ⟨height, width, rows, columns, rfl, rfl, hrows, hcolumns, (Except.ok.inj h).symm⟩

theorem outShape_within {d : Pool} {x x' out out' : Shape} (hrank : x.length = 3 ∨ x.length = 4)
    (h : Shape.Within x x') (hout : d.outShape x = .ok out) (hout' : d.outShape x' = .ok out') :
    Shape.Within out out' := by
  rcases hrank with hrank | hrank
  · obtain ⟨extent, columns, hextent, hcolumns, rfl⟩ := exists_columns_of_outShape hrank hout
    obtain ⟨extent', columns', hextent', hcolumns', rfl⟩ :=
      exists_columns_of_outShape (h.rank_eq ▸ hrank) hout'
    have hpooled := pooled_le (h.entry_le hextent hextent') hcolumns hcolumns'
    exact (h.take 2).append (.cons hpooled .nil)
  · obtain ⟨height, width, rows, columns, hheight, hwidth, hrows, hcolumns, rfl⟩ :=
      exists_rows_of_outShape hrank hout
    obtain ⟨height', width', rows', columns', hheight', hwidth', hrows', hcolumns', rfl⟩ :=
      exists_rows_of_outShape (h.rank_eq ▸ hrank) hout'
    have hpooledRows := pooled_le (h.entry_le hheight hheight') hrows hrows'
    have hpooledColumns := pooled_le (h.entry_le hwidth hwidth') hcolumns hcolumns'
    exact (h.take 2).append (.cons hpooledRows (.cons hpooledColumns .nil))

theorem kernel_pos_of_check {d d' : Pool} {x : TensorType} (h : d.check x = .ok d') (i : Fin 2) :
    0 < d.kernel.get i := by
  obtain ⟨_, _, h⟩ := bind_eq_ok_iff.mp h
  obtain ⟨_, hpositive, _⟩ := bind_eq_ok_iff.mp h
  have hkernel := List.all_eq_true.mp (of_require hpositive) d.kernel (by simp)
  have hmem : d.kernel.get i ∈ d.kernel.toList := by simp [Vector.get]
  exact of_decide_eq_true (List.all_eq_true.mp hkernel _ hmem)

section Factors

variable {α K : Type} [Scalar α] [Field K] [LinearOrder K] [IsStrictOrderedRing K] [Valued α K]

theorem value_stepFactor_nonneg (hlog : ∀ n : Nat, 0 ≤ value (log2 (ofNat n) : α)) (step : Nat)
    {weight : α} (hweight : 0 ≤ value weight) : 0 ≤ value (stepFactor step weight) := by
  have hstep := mul_nonneg (hlog step) hweight
  unfold stepFactor
  split
  · rw [Valued.value_add, Valued.value_mul, Valued.value_literal]
    linarith
  · norm_num

/-- The largest of a window is found by one comparison less than it has taps; a mean takes a
division more. -/
def perOutput (d : Pool) : α :=
  let window : α := ofNat (d.kernel.get Window.rowAxis * d.kernel.get Window.columnAxis)
  if d.kind = .maxPool then window - 1.0 else window + 1.0

theorem value_perOutput_nonneg {d : Pool} (hkernel : ∀ i : Fin 2, 0 < d.kernel.get i) :
    0 ≤ value (d.perOutput : α) := by
  have htaps : 1 ≤ d.kernel.get Window.rowAxis * d.kernel.get Window.columnAxis :=
    Nat.mul_pos (hkernel _) (hkernel _)
  have hwindow : (1 : K) ≤
      (d.kernel.get Window.rowAxis * d.kernel.get Window.columnAxis : Nat) := by
    exact_mod_cast htaps
  unfold perOutput
  split
  · rw [Valued.value_sub, Valued.value_ofNat, Valued.value_literal]
    linarith
  · rw [Valued.value_add, Valued.value_ofNat, Valued.value_literal]
    linarith

theorem memoryCost_eq {d : Pool} {io : Io} {cx : CostContext} {m : Metrics α}
    (h : metrics d io cx = some m) : m.memoryCost =
      io.inTraffic cx * 1.5 * stepFactor (greatest d.strides) 0.05 *
        stepFactor (greatest d.dilations) 0.1 + io.outTraffic cx := by
  obtain ⟨_, _, h⟩ := Option.bind_eq_some_iff.mp h
  obtain ⟨_, _, h⟩ := Option.bind_eq_some_iff.mp h
  obtain ⟨_, _, h⟩ := Option.bind_eq_some_iff.mp h
  obtain ⟨_, _, h⟩ := Option.bind_eq_some_iff.mp h
  obtain rfl := Option.some.inj h
  rfl

end Factors

end Pool

instance : Monotone Pool where
  below {α K _ _ _ _ _ given d d' inputs inputs' outputs outputs' cx m m'} hlog hcx h h' hgrown _
      hm hm' := by
    obtain ⟨x, rest, rfl⟩ := Arity.exists_cons_of_accepts h.accepts (Nat.le_refl 1)
    obtain ⟨x', rest', rfl⟩ := Arity.exists_cons_of_accepts h'.accepts (Nat.le_refl 1)
    have hcheck : given.check x = .ok d := h.yields
    have hcheck' : given.check x' = .ok d' := h'.yields
    obtain ⟨rfl, hfits⟩ := (given.meets_check x).of_ok hcheck
    obtain ⟨rfl, _⟩ := (d.meets_check x').of_ok hcheck'
    obtain ⟨out, rfl, hout⟩ := exists_single (r := d'.outShape x.shape) h.outShapes_eq
    obtain ⟨out', rfl, hout'⟩ := exists_single (r := d'.outShape x'.shape) h'.outShapes_eq
    have houts := Pool.outShape_within hfits.rank hgrown.head hout hout'
    have hsize : (out.size : K) ≤ out'.size := houts.cast_size_le
    have hper := Pool.value_perOutput_nonneg (α := α) (Pool.kernel_pos_of_check hcheck)
    have hdilation : 0 ≤ value (Pool.stepFactor (Pool.greatest d'.dilations) 0.1 : α) :=
      Pool.value_stepFactor_nonneg hlog _ (by norm_num)
    have hstride : 0 ≤ value (Pool.stepFactor (Pool.greatest d'.strides) 0.05 : α) :=
      Pool.value_stepFactor_nonneg hlog _ (by norm_num)
    constructor
    · rw [Pool.computeTime_eq hm, Pool.computeTime_eq hm']
      change value (out.elements * d'.perOutput * Pool.stepFactor (Pool.greatest d'.dilations) 0.1 /
        2e9 : α) ≤ value (out'.elements * d'.perOutput *
          Pool.stepFactor (Pool.greatest d'.dilations) 0.1 / 2e9 : α)
      simp only [Valued.value_div, Valued.value_mul, value_elements, Valued.value_literal]
      gcongr
    · have hin := value_sum_traffic_le (α := α) hcx hgrown
      have hwritten := value_sum_traffic_le (α := α) hcx (.cons houts .nil : Grown [out] [out'])
      rw [Pool.memoryCost_eq hm, Pool.memoryCost_eq hm']
      simp only [Valued.value_add, Valued.value_mul, Valued.value_literal]
      apply add_le_add _ hwritten
      change value (sum ((x :: rest).map cx.traffic) : α) * _ * _ * _ ≤
        value (sum ((x' :: rest').map cx.traffic) : α) * _ * _ * _
      gcongr

end DataflowCost
