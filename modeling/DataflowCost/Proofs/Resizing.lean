import DataflowCost.Proofs.Infers
import DataflowCost.Proofs.Resolution.Range

/-! Resizing on values that a host tells. The values belong to the listed axes one by one; how many there are
is compared with nothing, so that what is resolved follows from the entries that have both. -/
namespace DataflowCost

open Inference

namespace Payload

/-- The values as integers. -/
def ints? : Payload → Option (List Int)
  | reals _ => none
  | ints32 values | ints64 values => some values

def reals? : Payload → Option (List Float32)
  | reals values => some values
  | ints32 _ | ints64 _ => none

theorem length_eq_of_ints? {p : Payload} {values : List Int} (h : p.ints? = some values) :
    p.length = values.length := by
  cases p with
  | reals _ => cases h
  | ints32 _ | ints64 _ =>
    rw [← Option.some.inj h]
    rfl

end Payload

namespace Host

variable {host : Host} {t : Tensor} {p : Payload}

theorem ints_eq (h : host t = .ok (some p)) : host.ints t =
    match p.ints? with
    | some values => .ok (some values)
    | none => invalid (.floatingPayload t.guid) := by
  unfold ints
  rw [h]
  cases p <;> rfl

theorem reals_eq (h : host t = .ok (some p)) : host.reals t =
    match p.reals? with
    | some values => .ok (some values)
    | none => invalid (.integerPayload t.guid) := by
  unfold reals
  rw [h]
  cases p <;> rfl

end Host

namespace Resize

section Factors

variable {ρ : Type} [ScaleFactor ρ]

/-- The factor at an axis: that of the last entry for it, and one if there is no entry. -/
def factorAt (entries : List (Nat × ρ)) (axis : Nat) : ρ :=
  (entries.reverse.lookup axis).getD ScaleFactor.one

theorem factorAt_of_not_mem {entries : List (Nat × ρ)} {axis : Nat}
    (h : ∀ factor, (axis, factor) ∉ entries) : factorAt entries axis = ScaleFactor.one := by
  have hnone : entries.reverse.lookup axis = none := by
    rw [List.lookup_eq_none_iff]
    rintro ⟨a, factor⟩ hmem
    rw [bne_iff_ne]
    rintro rfl
    exact h factor (List.mem_reverse.mp hmem)
  rw [factorAt, hnone, Option.getD_none]

/-- The factors of all axes, from factors for the listed ones. -/
def placed (rank : Nat) (axes : List Nat) (factors : List ρ) : List ρ :=
  (List.range rank).map (factorAt (axes.zip factors))

@[simp] theorem length_placed (rank : Nat) (axes : List Nat) (factors : List ρ) :
    (placed rank axes factors).length = rank := by
  rw [placed, List.length_map, List.length_range]

/-- Entries that are written one after the other leave at each axis the last one. -/
theorem foldlM_overwrite {entries : List (Nat × ρ)} {out : List ρ}
    (h : ∀ e ∈ entries, e.1 < out.length) :
    entries.foldlM (fun out (axis, factor) => overwrite out axis factor) out =
      .ok ((List.range out.length).map fun axis =>
        (entries.reverse.lookup axis).getD (out.getD axis ScaleFactor.one)) := by
  induction entries generalizing out with
  | nil =>
    refine congrArg Except.ok (List.ext_getElem (by simp) fun i hi _ => ?_)
    simp [List.getD_eq_getElem?_getD, hi]
  | cons e entries ih =>
    obtain ⟨axis, factor⟩ := e
    obtain ⟨haxis, h⟩ := List.forall_mem_cons.mp h
    have hput : overwrite out axis factor = .ok (out.set axis factor) := if_pos haxis
    rw [List.foldlM_cons]
    refine bind_eq_ok_iff.mpr ⟨_, hput, ?_⟩
    rw [ih fun e he => by rw [List.length_set]; exact h e he, List.length_set]
    refine congrArg Except.ok (List.map_congr_left fun i hi => ?_)
    -- The first entry shows where none of the others does.
    rw [List.reverse_cons, List.lookup_append]
    cases entries.reverse.lookup i with
    | some later => rfl
    | none =>
      by_cases heq : i = axis
      · subst heq
        simp [List.getD_eq_getElem?_getD, List.mem_range.mp hi]
      · have hlookup : [(axis, factor)].lookup i = none := by
          rw [List.lookup_cons, beq_eq_false_iff_ne.mpr heq]
          rfl
        rw [hlookup]
        simp [List.getD_eq_getElem?_getD, Ne.symm heq]

variable {rank : Nat} {axes : List Nat} {s : Shape} {sizes : List Int}

theorem place_eq (haxes : ∀ axis ∈ axes, axis < rank) (factors : List ρ) :
    place rank axes factors = .ok (placed rank axes factors) := by
  have hinside : ∀ e ∈ axes.zip factors,
      e.1 < (List.replicate rank (ScaleFactor.one : ρ)).length := by
    intro e he
    rw [List.length_replicate]
    exact haxes _ (List.of_mem_zip he).1
  have h := foldlM_overwrite hinside
  rw [List.length_replicate] at h
  refine h.trans (congrArg Except.ok (List.map_congr_left fun axis haxis => ?_))
  have hone : (List.replicate rank (ScaleFactor.one : ρ)).getD axis ScaleFactor.one =
      ScaleFactor.one := by
    simp [List.getD_eq_getElem?_getD, List.mem_range.mp haxis]
  rw [hone, factorAt]

/-- The ratio of each size to the extent of its axis. -/
def ownRatios (s : Shape) (axes : List Nat) (sizes : List Int) : List ρ :=
  (axes.zip sizes).map fun (axis, size) =>
    ScaleFactor.div (ScaleFactor.ofInt size) (ScaleFactor.ofInt (s.extentAt axis))

/-- The ratios, or in their place the one that they share. -/
def underPolicy (policy : RatioPolicy) (own : List ρ) : List ρ :=
  own.map (sharedRatio policy own).getD

theorem length_ownRatios : (ownRatios (ρ := ρ) s axes sizes).length = min axes.length sizes.length := by
  rw [ownRatios, List.length_map, List.length_zip]

theorem ratios_eq (haxes : ∀ axis ∈ axes, axis < s.length) (sizes : List Int) :
    ratios (ρ := ρ) s axes sizes = .ok (ownRatios s axes sizes) := by
  refine mapM_eq_ok ?_
  rintro ⟨axis, size⟩ hmem
  have haxis := haxes axis (List.of_mem_zip hmem).1
  simp only [Shape.getElem?_eq_extentAt haxis]
  rfl

/-- The factor of each listed axis: the shared ratio, or else its own one, which is looked up in any case. -/
def lookUpFactors (policy : RatioPolicy) (axes : List Nat) (own : List ρ) : Inference (List ρ) :=
  axes.zipIdx.mapM fun (_, i) => do
    let factor ← present own[i]?
    return (sharedRatio policy own).getD factor

theorem scalesFromSizes_eq (haxes : ∀ axis ∈ axes, axis < s.length) (policy : RatioPolicy) :
    scalesFromSizes (ρ := ρ) policy s axes sizes = do
      let factors ← lookUpFactors policy axes (ownRatios s axes sizes)
      return placed s.length axes factors := by
  unfold scalesFromSizes
  rw [ratios_eq haxes]
  change (do
    let factors ← lookUpFactors policy axes (ownRatios s axes sizes)
    place s.length axes factors) = _
  exact bind_congr fun factors => place_eq haxes factors

theorem lookUpFactors_eq {own : List ρ} (h : own.length = axes.length) (policy : RatioPolicy) :
    lookUpFactors policy axes own = .ok (underPolicy policy own) := by
  refine mapM_eq_ok_iff.mpr (List.forall₂_iff_get.mpr ⟨?_, fun i hi hi' => ?_⟩)
  · rw [List.length_zipIdx, underPolicy, List.length_map, h]
  · rw [underPolicy, List.length_map] at hi'
    simp only [List.get_eq_getElem, List.getElem_zipIdx, Nat.zero_add,
      List.getElem?_eq_getElem hi', underPolicy, List.getElem_map]
    rfl

/-- With fewer ratios than axes a look-up goes beyond the last one. -/
theorem lookUpFactors_fault {own : List ρ} (h : own.length < axes.length) (policy : RatioPolicy) :
    lookUpFactors policy axes own = .error .fault := by
  cases hr : lookUpFactors policy axes own with
  | ok factors =>
    have hmem : (axes[own.length], own.length) ∈ axes.zipIdx :=
      List.mk_mem_zipIdx_iff_getElem?.mpr (List.getElem?_eq_getElem h)
    obtain ⟨factor, hfactor⟩ := exists_ok_of_mapM hr _ hmem
    obtain ⟨_, hpresent, _⟩ := bind_eq_ok_iff.mp hfactor
    rw [List.getElem?_eq_none (Nat.le_refl _)] at hpresent
    cases hpresent
  | error refusal =>
    obtain ⟨⟨_, i⟩, _, h⟩ := exists_error_of_mapM hr
    rcases bind_eq_error_iff.mp h with h | ⟨_, _, h⟩
    · cases hi : own[i]? with
      | none =>
        rw [hi] at h
        exact congrArg Except.error (Except.error.inj h).symm
      | some factor =>
        rw [hi] at h
        cases h
    · cases h

theorem resolveSizes_eq {d : Resize ρ} {guid : Nat} (haxes : ∀ axis ∈ axes, axis < s.length)
    (sizes : List Int) :
    d.resolveSizes s axes guid (some sizes) = do
      require (∀ size ∈ sizes, 0 < size) (.sizesNotPositive sizes)
      require (∀ axis ∈ axes, 0 < s.extentAt axis) .emptyResizeAxis
      return { d with resolvedAxes := axes, scales := ← scalesFromSizes d.ratio s axes sizes } := by
  have hextents : axes.mapM (fun axis => present s[axis]?) = .ok (axes.map s.extentAt) := by
    refine mapM_eq_ok fun axis haxis => ?_
    rw [Shape.getElem?_eq_extentAt (haxes axis haxis)]
    rfl
  unfold resolveSizes
  simp only [hextents, ok_bind, List.all_eq_true, List.forall_mem_map, decide_eq_true_eq]

/-- Sizes are accepted if they are positive, there is one for each axis, and no axis is empty. -/
theorem resolveSizes_eq_ok_iff {d d' : Resize ρ} {guid : Nat} (haxes : ∀ axis ∈ axes, axis < s.length) :
    d.resolveSizes s axes guid (some sizes) = .ok d' ↔
      ((∀ size ∈ sizes, 0 < size) ∧ (∀ axis ∈ axes, 0 < s.extentAt axis) ∧
        axes.length ≤ sizes.length) ∧ d' = { d with
        resolvedAxes := axes
        scales := placed s.length axes (underPolicy d.ratio (ownRatios s axes sizes)) } := by
  rw [resolveSizes_eq haxes, require_bind_eq_ok_iff, require_bind_eq_ok_iff, scalesFromSizes_eq haxes,
    and_assoc, and_assoc]
  refine and_congr_right fun _ => and_congr_right fun _ => ?_
  by_cases henough : axes.length ≤ sizes.length
  · have hown : (ownRatios (ρ := ρ) s axes sizes).length = axes.length := by
      rw [length_ownRatios, Nat.min_eq_left henough]
    rw [lookUpFactors_eq hown]
    exact ⟨fun h => ⟨henough, (Except.ok.inj h).symm⟩, fun h => congrArg Except.ok h.2.symm⟩
  · have hown : (ownRatios (ρ := ρ) s axes sizes).length < axes.length := by
      rw [length_ownRatios]
      omega
    rw [lookUpFactors_fault hown]
    exact ⟨nofun, fun h => absurd h.1 henough⟩

end Factors

section Shapes

variable {ρ : Type} {d : Resize ρ} {inputs : List TensorType} {s : Shape} {axes : List Nat}

/-- A region of interest is there exactly if it is needed, and has two values for each axis. -/
def checkRegion (d : Resize ρ) (inputs : List TensorType) (count : Nat) : Inference Unit := do
  require (d.coordinates = .cropAndResize ↔ inputs.length = 3) .regionInput
  match inputs[2]? with
  | some region => require (region.shape = [2 * count]) (.regionShape (2 * count) region.shape)
  | none => .ok ()

theorem checkShapes_eq {x parameter : TensorType} {count : Nat} (hx : inputs[0]? = some x)
    (hparameter : inputs[1]? = some parameter) (hshape : parameter.shape = [count]) :
    d.checkShapes inputs = do
      let axes ← resolveAxes d.axes x.rank count
      d.checkRegion inputs axes.length
      return (x.shape, axes) := by
  have hinput : Family.operand inputs 0 = .ok x := congrArg present hx
  have hvalues : Family.operand inputs 1 = .ok parameter := congrArg present hparameter
  unfold checkShapes checkRegion
  rw [hinput, hvalues, ok_bind, ok_bind, hshape]
  change (resolveAxes d.axes x.rank count >>= _) = _
  refine bind_congr fun axes => ?_
  rw [bind_assoc]
  cases inputs[2]? <;> rfl

theorem checkShapes_eq_ok_iff : d.checkShapes inputs = .ok (s, axes) ↔ ∃ x parameter count,
    inputs[0]? = some x ∧ inputs[1]? = some parameter ∧ parameter.shape = [count] ∧
    resolveAxes d.axes x.rank count = .ok axes ∧ d.checkRegion inputs axes.length = .ok () ∧
    s = x.shape := by
  constructor
  · intro h
    obtain ⟨x, hx, hrest⟩ := bind_eq_ok_iff.mp h
    obtain ⟨parameter, hparameter, hrest⟩ := bind_eq_ok_iff.mp hrest
    have hx := present_eq_ok hx
    have hparameter := present_eq_ok hparameter
    obtain ⟨count, hshape⟩ : ∃ count, parameter.shape = [count] := by
      cases hshape : parameter.shape with
      | nil =>
        rw [hshape] at hrest
        cases hrest
      | cons count rest =>
        cases rest with
        | nil => exact ⟨count, rfl⟩
        | cons _ _ =>
          rw [hshape] at hrest
          cases hrest
    rw [checkShapes_eq hx hparameter hshape] at h
    obtain ⟨axes', haxes, h⟩ := bind_eq_ok_iff.mp h
    obtain ⟨_, hregion, h⟩ := bind_eq_ok_iff.mp h
    obtain ⟨rfl, rfl⟩ := Prod.mk.inj (Except.ok.inj h)
    exact ⟨x, parameter, count, hx, hparameter, hshape, haxes, hregion, rfl⟩
  · rintro ⟨x, parameter, count, hx, hparameter, hshape, haxes, hregion, rfl⟩
    rw [checkShapes_eq hx hparameter hshape, haxes, ok_bind, hregion]
    rfl

end Shapes

section Values

variable {d : Resize Float32} {s : Shape} {axes : List Nat} {p : Payload} {guid : Nat}

/-- The values can be what they are to be: positive sizes, for axes that are not empty, or positive scale
factors. -/
def Usable (d : Resize Float32) (s : Shape) (axes : List Nat) (p : Payload) : Prop :=
  match d.target with
  | .sizes => ∃ sizes, p.ints? = some sizes ∧ (∀ size ∈ sizes, 0 < size) ∧
    ∀ axis ∈ axes, 0 < s.extentAt axis
  | .scales => ∃ scales, p.reals? = some scales ∧ ∀ scale ∈ scales, ScaleFactor.isPositive scale

/-- Some axis has no size. -/
def RunsShort (d : Resize Float32) (axes : List Nat) (p : Payload) : Prop :=
  d.target = .sizes ∧ p.length < axes.length

/-- The factors that the values give. -/
def factors (d : Resize Float32) (s : Shape) (axes : List Nat) (p : Payload) : List Float32 :=
  match d.target with
  | .sizes => underPolicy d.ratio (ownRatios s axes (p.ints?.getD []))
  | .scales => p.reals?.getD []

/-- The definition with the axes and the factors that the values give. -/
def resolvedBy (d : Resize Float32) (s : Shape) (axes : List Nat) (p : Payload) : Resize Float32 :=
  { d with resolvedAxes := axes, scales := placed s.length axes (d.factors s axes p) }

/-- The resolution that waits for the values, once these are there. -/
def resolvePayload (d : Resize Float32) (s : Shape) (axes : List Nat) (guid : Nat) (p : Payload) :
    Inference (Resize Float32) :=
  match d.target with
  | .sizes => match p.ints? with
    | some sizes => d.resolveSizes s axes guid (some sizes)
    | none => invalid (.floatingPayload guid)
  | .scales => match p.reals? with
    | some scales => d.resolveScales s axes guid (some scales)
    | none => invalid (.integerPayload guid)

theorem usable_sizes_iff (h : d.target = .sizes) : d.Usable s axes p ↔ ∃ sizes,
    p.ints? = some sizes ∧ (∀ size ∈ sizes, 0 < size) ∧ ∀ axis ∈ axes, 0 < s.extentAt axis := by
  rw [Usable, h]

theorem usable_scales_iff (h : d.target = .scales) : d.Usable s axes p ↔ ∃ scales,
    p.reals? = some scales ∧ ∀ scale ∈ scales, ScaleFactor.isPositive scale := by
  rw [Usable, h]

theorem resolvePayload_invalid (d : Resize Float32) (guid : Nat) (haxes : ∀ axis ∈ axes, axis < s.length)
    (h : ¬ d.Usable s axes p) :
    ∃ reason, d.resolvePayload s axes guid p = .error (.invalid reason) := by
  unfold resolvePayload
  cases htarget : d.target with
  | sizes =>
    rw [usable_sizes_iff htarget] at h
    cases hvalues : p.ints? with
    | none => exact ⟨_, rfl⟩
    | some sizes =>
      simp only [resolveSizes_eq haxes]
      by_cases hsizes : ∀ size ∈ sizes, 0 < size
      · by_cases hextents : ∀ axis ∈ axes, 0 < s.extentAt axis
        · exact absurd ⟨sizes, hvalues, hsizes, hextents⟩ h
        · rw [require_bind hsizes, require, if_neg hextents]
          exact ⟨_, rfl⟩
      · rw [require, if_neg hsizes]
        exact ⟨_, rfl⟩
  | scales =>
    rw [usable_scales_iff htarget] at h
    cases hvalues : p.reals? with
    | none => exact ⟨_, rfl⟩
    | some scales =>
      by_cases hscales : scales.all ScaleFactor.isPositive = true
      · exact absurd ⟨scales, hvalues, List.all_eq_true.mp hscales⟩ h
      · simp only [resolveScales, require, if_neg hscales]
        exact ⟨_, rfl⟩

theorem resolvePayload_fault (haxes : ∀ axis ∈ axes, axis < s.length) (h : d.Usable s axes p)
    (hshort : d.RunsShort axes p) : d.resolvePayload s axes guid p = .error .fault := by
  obtain ⟨htarget, hfew⟩ := hshort
  obtain ⟨sizes, hvalues, hsizes, hextents⟩ := (usable_sizes_iff htarget).mp h
  rw [Payload.length_eq_of_ints? hvalues] at hfew
  have hown : (ownRatios (ρ := Float32) s axes sizes).length < axes.length := by
    rw [length_ownRatios]
    omega
  simp only [resolvePayload, htarget, hvalues]
  rw [resolveSizes_eq haxes, require_bind hsizes, require_bind hextents, scalesFromSizes_eq haxes,
    lookUpFactors_fault hown]
  rfl

theorem resolvePayload_ok (haxes : ∀ axis ∈ axes, axis < s.length) (h : d.Usable s axes p)
    (hshort : ¬ d.RunsShort axes p) :
    d.resolvePayload s axes guid p = .ok (d.resolvedBy s axes p) := by
  cases htarget : d.target with
  | sizes =>
    obtain ⟨sizes, hvalues, hsizes, hextents⟩ := (usable_sizes_iff htarget).mp h
    have henough : axes.length ≤ sizes.length := by
      rw [← Payload.length_eq_of_ints? hvalues]
      exact Nat.not_lt.mp fun hfew => hshort ⟨htarget, hfew⟩
    simp only [resolvePayload, resolvedBy, factors, htarget, hvalues, Option.getD_some]
    exact (resolveSizes_eq_ok_iff haxes).mpr ⟨⟨hsizes, hextents, henough⟩, by rw [← htarget]⟩
  | scales =>
    obtain ⟨scales, hvalues, hscales⟩ := (usable_scales_iff htarget).mp h
    simp only [resolvePayload, resolvedBy, factors, htarget, hvalues, Option.getD_some, resolveScales,
      place_eq haxes]
    rw [require_bind (List.all_eq_true.mpr hscales), ← htarget]
    rfl

theorem run_prepare {types : List TensorType} (hcheck : d.checkShapes types = .ok (s, axes))
    {tensors : List Tensor} {t : Tensor} (ht : tensors[1]? = some t) {host : Host}
    (hp : host t = .ok (some p)) :
    (d.prepare types).run host tensors = d.resolvePayload s axes t.guid p := by
  unfold prepare resolvePayload
  rw [hcheck]
  simp only [Preparation.after]
  cases d.target with
  | sizes =>
    simp only [Preparation.run_awaitInts, ht]
    change (do d.resolveSizes s axes t.guid (← host.ints t)) = _
    rw [Host.ints_eq hp]
    cases p.ints? <;> rfl
  | scales =>
    simp only [Preparation.run_awaitReals, ht]
    change (do d.resolveScales s axes t.guid (← host.reals t)) = _
    rw [Host.reals_eq hp]
    cases p.reals? <;> rfl

/-- The extents, each multiplied by its factor and rounded. -/
def resized (s : Shape) (scales : List Float32) : Shape :=
  s.zipWith (fun (extent : Nat) scale =>
    ScaleFactor.roundToNat (ScaleFactor.mul scale (ScaleFactor.ofInt extent))) scales

theorem outShape_eq (h : d.scales.length = s.length) : d.outShape s = .ok (resized s d.scales) := by
  unfold outShape
  rw [require_bind h]
  rfl

/-- The element type of the output, if the parameter and the region of interest have theirs. -/
def outType (d : Resize Float32) (inputs : List TensorType) : Inference DType := do
  let x ← Family.operand inputs 0
  let parameter ← Family.operand inputs 1
  require (parameter.dtype = parameterType d.target)
    (.resizeParameterType d.target.name (parameterType d.target) parameter.dtype)
  match inputs[2]? with
  | some region => require (region.dtype = .float32) (.regionType region.dtype)
  | none => .ok ()
  return x.dtype

theorem outTypes_eq (d : Resize Float32) (inputs : List TensorType) :
    Family.outTypes d inputs = do return [← d.outType inputs] := by
  simp only [outType, bind_assoc]
  refine bind_congr fun x => bind_congr fun parameter => bind_congr fun _ => ?_
  cases inputs[2]? with
  | none => rfl
  | some region =>
    simp only [bind_assoc]
    rfl

end Values

end Resize

namespace Graph

variable {g : Graph} {ids : List TensorId} {types : List TensorType} {p : Payload}

/-- Inputs of these types, of which the host tells the values of the second. -/
structure Tells (g : Graph) (ids : List TensorId) (types : List TensorType) (p : Payload) : Prop where
  types_eq : g.typesOf? ids = some types
  told : ∃ id t, ids[1]? = some id ∧ g.tensor? id = some t ∧ g.host t = .ok (some p)

theorem Tells.withHost (h : g.Tells ids types p) (p' : Payload) :
    (g.withHost fun _ => .ok (some p')).Tells ids types p' := by
  obtain ⟨id, t, hid, ht, _⟩ := h.told
  exact ⟨h.types_eq, id, t, hid, ht, rfl⟩

theorem Tells.exists_tensors (h : g.Tells ids types p) : ∃ tensors t,
    ids.mapM g.tensor = .ok tensors ∧ tensors.map Tensor.type = types ∧ tensors[1]? = some t ∧
    g.host t = .ok (some p) := by
  obtain ⟨tensors, htensors, htypes⟩ := exists_tensors_of_typesOf? h.types_eq
  obtain ⟨id, t, hid, ht, hp⟩ := h.told
  refine ⟨tensors, t, htensors, htypes, ?_, hp⟩
  obtain ⟨hlt, rfl⟩ := List.getElem?_eq_some_iff.mp hid
  obtain ⟨hlen, hall⟩ := List.forall₂_iff_get.mp (mapM_eq_ok_iff.mp htensors)
  have hat := tensor_eq_ok_iff.mp (hall 1 hlt (hlen ▸ hlt))
  simp only [List.get_eq_getElem] at hat
  rw [List.getElem?_eq_getElem (hlen ▸ hlt), ← hat, ht]

variable {d : Resize Float32} {s : Shape} {axes : List Nat}

/-- What a resize answers when the host tells the values of its parameter. -/
theorem Tells.infer_resize_eq [Build] (h : g.Tells ids types p)
    (haccepts : (Family.arity d).accepts types.length) (hcheck : d.checkShapes types = .ok (s, axes)) :
    ∃ guid, g.infer (.resize d) ids = Inference.within .resize types (do
      let d' ← d.resolvePayload s axes guid p
      return ⟨.resize d', [⟨← d'.outShape s, ← d'.outType types⟩]⟩) := by
  obtain ⟨tensors, t, htensors, rfl, ht, hp⟩ := h.exists_tensors
  have hwrap : Operator.Wraps Operator.resize := ⟨fun _ _ => rfl, fun _ _ hole => hole⟩
  have hrun : ((Operator.resize d).prepare (tensors.map Tensor.type)).run g.host tensors =
      Operator.resize <$> d.resolvePayload s axes t.guid p := by
    change ((d.prepare (tensors.map Tensor.type)).map Operator.resize).run g.host tensors = _
    rw [Preparation.run_map, Resize.run_prepare hcheck ht hp]
  obtain ⟨x, parameter, rest, htypes⟩ := Arity.exists_cons₂_of_accepts haccepts (Nat.le_refl 2)
  obtain rfl : s = x.shape := by
    rw [htypes] at hcheck
    exact ((d.meets_checkShapes x parameter rest).of_ok hcheck).1
  have hshapes (d : Resize Float32) : Family.outShapes d (tensors.map Tensor.type) =
      do return [← d.outShape x.shape] := by
    rw [htypes]
    rfl
  exact ⟨t.guid, infer_eq_of_run hwrap htensors (List.length_map Tensor.type ▸ haccepts) rfl hrun
    hshapes fun d' => d'.outTypes_eq _⟩

theorem checkShapes_lt (haccepts : (Family.arity d).accepts types.length)
    (hcheck : d.checkShapes types = .ok (s, axes)) : ∀ axis ∈ axes, axis < s.length := by
  obtain ⟨x, parameter, rest, rfl⟩ := Arity.exists_cons₂_of_accepts haccepts (Nat.le_refl 2)
  obtain ⟨rfl, _, hlt⟩ := (d.meets_checkShapes x parameter rest).of_ok hcheck
  exact hlt

/-- Values that cannot be what they are to be are turned down. -/
theorem Tells.exists_error_of_unusable [Build] (h : g.Tells ids types p)
    (haccepts : (Family.arity d).accepts types.length) (hcheck : d.checkShapes types = .ok (s, axes))
    (husable : ¬ d.Usable s axes p) : ∃ e, g.infer (.resize d) ids = .error (.error e) := by
  obtain ⟨guid, hinfer⟩ := h.infer_resize_eq haccepts hcheck
  have hlt := checkShapes_lt haccepts hcheck
  obtain ⟨reason, hreason⟩ := d.resolvePayload_invalid guid hlt husable
  rw [hinfer, hreason]
  exact ⟨_, rfl⟩

/-- An axis without a size is a fault. -/
theorem Tells.infer_resize_fault [Build] (h : g.Tells ids types p)
    (haccepts : (Family.arity d).accepts types.length) (hcheck : d.checkShapes types = .ok (s, axes))
    (husable : d.Usable s axes p) (hshort : d.RunsShort axes p) :
    g.infer (.resize d) ids = .error .fault := by
  obtain ⟨guid, hinfer⟩ := h.infer_resize_eq haccepts hcheck
  rw [hinfer, Resize.resolvePayload_fault (checkShapes_lt haccepts hcheck) husable hshort]
  rfl

/-- Any other values are taken, however many they are. -/
theorem Tells.infer_resize_resolved [Build] (h : g.Tells ids types p)
    (haccepts : (Family.arity d).accepts types.length) (hcheck : d.checkShapes types = .ok (s, axes))
    (husable : d.Usable s axes p) (hshort : ¬ d.RunsShort axes p) :
    g.infer (.resize d) ids = Inference.within .resize types (do
      return ⟨.resize (d.resolvedBy s axes p),
        [⟨Resize.resized s (d.resolvedBy s axes p).scales, ← d.outType types⟩]⟩) := by
  obtain ⟨guid, hinfer⟩ := h.infer_resize_eq haccepts hcheck
  have hlen : (d.resolvedBy s axes p).scales.length = s.length := Resize.length_placed _ _ _
  rw [hinfer, Resize.resolvePayload_ok (checkShapes_lt haccepts hcheck) husable hshort, ok_bind,
    Resize.outShape_eq hlen]
  rfl

/-- A resize is accepted if its axes and the shapes of its inputs pass, and the values that the host tells can
be taken. -/
theorem Tells.infer_resize_eq_ok_iff [Build] (h : g.Tells ids types p) {inferred : Inferred} :
    g.infer (.resize d) ids = .ok inferred ↔ (Family.arity d).accepts types.length ∧
      ∃ s axes dtype, d.checkShapes types = .ok (s, axes) ∧ d.Usable s axes p ∧
        ¬ d.RunsShort axes p ∧ d.outType types = .ok dtype ∧
        inferred = ⟨.resize (d.resolvedBy s axes p),
          [⟨Resize.resized s (d.resolvedBy s axes p).scales, dtype⟩]⟩ := by
  constructor
  · intro hinfer
    obtain ⟨tensors, prepared, _, _, hoperands, hrun, _⟩ := infer_eq_ok_iff.mp hinfer
    obtain ⟨hfound, haccepts⟩ := operands_eq_ok hoperands
    obtain rfl := Option.some.inj ((typesOf?_of_mapM hfound).symm.trans h.types_eq)
    rw [← List.length_map Tensor.type] at haccepts
    refine ⟨haccepts, ?_⟩
    cases hcheck : d.checkShapes (tensors.map Tensor.type) with
    | error refusal =>
      -- Shapes that do not pass leave nothing to wait for.
      have hprepare : (Operator.resize d).prepare (tensors.map Tensor.type) =
          .done (Operator.resize <$> .error refusal) := by
        change (d.prepare (tensors.map Tensor.type)).map Operator.resize = _
        rw [Resize.prepare, hcheck]
        rfl
      rw [hprepare] at hrun
      cases hrun
    | ok r =>
      obtain ⟨s, axes⟩ := r
      by_cases husable : d.Usable s axes p
      · by_cases hshort : d.RunsShort axes p
        · rw [h.infer_resize_fault haccepts hcheck husable hshort] at hinfer
          cases hinfer
        · rw [h.infer_resize_resolved haccepts hcheck husable hshort, within_eq_ok_iff] at hinfer
          obtain ⟨dtype, hdtype, hinfer⟩ := bind_eq_ok_iff.mp hinfer
          exact ⟨s, axes, dtype, rfl, husable, hshort, hdtype, (Except.ok.inj hinfer).symm⟩
      · obtain ⟨e, he⟩ := h.exists_error_of_unusable haccepts hcheck husable
        rw [he] at hinfer
        cases hinfer
  · rintro ⟨haccepts, s, axes, dtype, hcheck, husable, hshort, hdtype, rfl⟩
    rw [h.infer_resize_resolved haccepts hcheck husable hshort, hdtype]
    rfl

end Graph

end DataflowCost
