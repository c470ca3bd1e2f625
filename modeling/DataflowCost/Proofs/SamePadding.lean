import DataflowCost.Proofs.Convolutions

/-! Same padding against the pads that it reports. Both ends of an axis get half of what is missing, so
where an odd number is missing the pads given explicitly leave one position less. -/
namespace DataflowCost

open Inference DataflowCost.Convolution

namespace Window

variable {input kernel stride dilation : Nat}

theorem ceilDiv_bounds (hstride : 0 < stride) (hinput : 0 < input) :
    0 < input ⌈/⌉ stride ∧ (input ⌈/⌉ stride - 1) * stride < input ∧
      input ≤ (input ⌈/⌉ stride - 1) * stride + stride := by
  have hpos : 0 < input ⌈/⌉ stride := by
    refine Nat.pos_of_ne_zero fun hz => ?_
    have := (ceilDiv_le_iff_le_mul hstride).mp (Nat.le_of_eq hz)
    omega
  -- The quotient rounded up is the least whose multiple is not below the input.
  have hbelow : ¬ input ≤ stride * (input ⌈/⌉ stride - 1) := by
    intro h
    have := (ceilDiv_le_iff_le_mul hstride).mpr h
    omega
  have habove : input ≤ stride * (input ⌈/⌉ stride) :=
    (ceilDiv_le_iff_le_mul hstride).mp (Nat.le_refl _)
  have hlast : stride * (input ⌈/⌉ stride) = (input ⌈/⌉ stride - 1) * stride + stride := by
    calc stride * (input ⌈/⌉ stride) = (input ⌈/⌉ stride - 1 + 1) * stride := by
          rw [Nat.sub_add_cancel hpos, Nat.mul_comm]
      _ = (input ⌈/⌉ stride - 1) * stride + stride := Nat.succ_mul _ _
  rw [Nat.mul_comm] at hbelow
  exact ⟨hpos, Nat.lt_of_not_le hbelow, hlast ▸ habove⟩

theorem div_eq_of_between {m k : Nat} (hle : k * stride ≤ m) (hlt : m < k * stride + stride) :
    m / stride = k := by
  apply Nat.div_eq_of_lt_le hle
  rwa [Nat.succ_mul]

/-- An axis and the reach of its window are machine words. -/
structure Fits (input kernel stride dilation : Nat) : Prop where
  input_lt : input < Word.limit
  reach_lt : reach input kernel stride dilation < Word.limit

/-- What is missing of an odd shortfall when both ends get half of it. -/
theorem padded_of_odd (hodd : ¬ Even (shortfall input kernel stride dilation)) :
    input + 2 * (shortfall input kernel stride dilation / 2) + 1 =
      reach input kernel stride dilation := by
  have hhalf := Nat.two_mul_div_two_add_one_of_odd (Nat.not_even_iff_odd.mp hodd)
  unfold shortfall at *
  omega

section Half

variable [Build] (hstride : 0 < stride) (hinput : 0 < input) (hkernel : 0 < kernel)
  (hfits : Fits input kernel stride dilation)

include hfits

/-- The padding of both ends is no more than the window reaches. -/
theorem mul_two_half : Word.mul 2 (shortfall input kernel stride dilation / 2) =
    .ok (2 * (shortfall input kernel stride dilation / 2)) := by
  refine Word.mul_eq fun _ => ?_
  have hreach : reach input kernel stride dilation < Word.limit := hfits.reach_lt
  unfold shortfall
  omega

include hstride hinput hkernel

/-- An axis that is padded by half of an even shortfall. -/
theorem positions_of_even (heven : Even (shortfall input kernel stride dilation)) :
    positions input kernel stride dilation (shortfall input kernel stride dilation / 2) =
      .ok (input ⌈/⌉ stride) := by
  obtain ⟨hpos, hlow, hhigh⟩ := ceilDiv_bounds hstride hinput
  have hboth := mul_two_half hfits
  obtain ⟨hword, hreach⟩ := hfits
  have hhalf := Nat.two_mul_div_two_of_even heven
  have hspan : 0 < span kernel dilation := Nat.succ_pos _
  apply (positions_eq_ok_iff hboth hstride).mpr
  unfold shortfall reach at *
  rw [hhalf, div_eq_of_between (k := input ⌈/⌉ stride - 1) (by omega) (by omega)]
  refine ⟨hkernel, ?_, ?_, ?_, ?_⟩ <;> omega

theorem positions_of_odd_of_ne_one (hodd : ¬ Even (shortfall input kernel stride dilation))
    (hone : input ⌈/⌉ stride ≠ 1) :
    positions input kernel stride dilation (shortfall input kernel stride dilation / 2) =
      .ok (input ⌈/⌉ stride - 1) := by
  obtain ⟨hpos, _, _⟩ := ceilDiv_bounds hstride hinput
  have hpadded := padded_of_odd hodd
  have hword := hfits.reach_lt
  -- The window reaches one element less, and so the last position is lost.
  have hlast : (input ⌈/⌉ stride - 1) * stride = (input ⌈/⌉ stride - 2) * stride + stride := by
    rw [← Nat.succ_mul]
    congr 1
    omega
  have hquotient : (input + 2 * (shortfall input kernel stride dilation / 2) -
      span kernel dilation) / stride = input ⌈/⌉ stride - 2 := by
    unfold reach at hpadded
    apply div_eq_of_between <;> omega
  apply (positions_eq_ok_iff (mul_two_half hfits) hstride).mpr
  rw [hquotient]
  unfold reach at *
  refine ⟨hkernel, ?_, ?_, ?_, ?_⟩ <;> omega

omit hstride hinput in
theorem positions_of_odd_of_one (hodd : ¬ Even (shortfall input kernel stride dilation))
    (hone : input ⌈/⌉ stride = 1) :
    positions input kernel stride dilation (shortfall input kernel stride dilation / 2) =
      invalid (.windowTooLarge (span kernel dilation)
        (input + 2 * (shortfall input kernel stride dilation / 2))) := by
  have hpadded := padded_of_odd hodd
  have hreach : reach input kernel stride dilation = span kernel dilation := by
    rw [reach, hone, Nat.sub_self, Nat.zero_mul, Nat.zero_add]
  have hword := hfits.reach_lt
  rw [positions_eq (mul_two_half hfits)]
  simp only
  rw [require_bind hkernel, require_bind (by omega), require_bind (by omega), require,
    if_neg (by omega)]
  rfl

end Half

end Window

namespace Sliding

variable {n : Nat}

/-- The padding that is missing on an axis for positions at every stride. -/
def missing (w : Sliding n) (spatial kernel : Vector Nat n) (i : Fin n) : Nat :=
  Window.shortfall (spatial.get i) (kernel.get i) (w.strides.get i) (w.dilations.get i)

/-- A window with these pads given explicitly. -/
def padded (w : Sliding n) (pads : Vector Nat n) : Sliding n :=
  { w with padding := .explicit pads.toList }

theorem resolve_padded [Build] {w : Sliding n} (h : w.Steps) (pads : Vector Nat n)
    (spatial kernel : List Nat) :
    (w.padded pads).resolve spatial kernel = .ok { w.padded pads with pads } :=
  resolve_eq_ok_iff.mpr ⟨⟨h.strides, h.dilations⟩, pads, explicitPads_toList pads, rfl⟩

/-- The extents of positions at every stride. -/
def sameExtents (w : Sliding n) (spatial : Vector Nat n) : Vector Nat n :=
  .ofFn fun i => spatial.get i ⌈/⌉ w.strides.get i

/-- The extents that are left where an odd padding is missing and both ends get half of it. -/
def halfExtents (w : Sliding n) (spatial kernel : Vector Nat n) : Vector Nat n :=
  .ofFn fun i => (w.sameExtents spatial).get i - w.missing spatial kernel i % 2

/-- An axis on which same padding leaves a single position, and that only by an odd padding. -/
def Loses (w : Sliding n) (spatial kernel : Vector Nat n) (i : Fin n) : Prop :=
  ¬ Even (w.missing spatial kernel i) ∧ (w.sameExtents spatial).get i = 1

section Extents

variable {w : Sliding n} {spatial kernel : Vector Nat n}

@[simp] theorem get_sameExtents (i : Fin n) :
    (w.sameExtents spatial).get i = spatial.get i ⌈/⌉ w.strides.get i :=
  Vector.getElem_ofFn i.isLt

@[simp] theorem get_halfExtents (i : Fin n) : (w.halfExtents spatial kernel).get i =
    (w.sameExtents spatial).get i - w.missing spatial kernel i % 2 :=
  Vector.getElem_ofFn i.isLt

theorem extentOn_same [Build] (hpadding : w.padding = .same) (hsteps : w.Steps) (i : Fin n) :
    w.extentOn spatial kernel i = .ok ((w.sameExtents spatial).get i) := by
  rw [extentOn, hpadding, get_sameExtents]
  exact quotientUp_eq (hsteps.strides i)

theorem eq_sameExtents [Build] {extents : Vector Nat n} (hpadding : w.padding = .same) (hsteps : w.Steps)
    (h : ∀ i : Fin n, w.extentOn spatial kernel i = .ok (extents.get i)) :
    extents = w.sameExtents spatial := by
  ext i hi
  exact Except.ok.inj ((h ⟨i, hi⟩).symm.trans (extentOn_same hpadding hsteps ⟨i, hi⟩))

variable (kernel) (hsteps : w.Steps) (hspatial : ∀ i : Fin n, 0 < spatial.get i)

include hsteps hspatial

theorem sameExtents_pos (i : Fin n) : 0 < (w.sameExtents spatial).get i := by
  rw [get_sameExtents]
  exact (Window.ceilDiv_bounds (hsteps.strides i) (hspatial i)).1

theorem halfExtents_add (i : Fin n) : (w.halfExtents spatial kernel).get i +
    w.missing spatial kernel i % 2 = (w.sameExtents spatial).get i := by
  have hpos := sameExtents_pos hsteps hspatial i
  rw [get_halfExtents]
  omega

theorem halfExtents_eq_iff :
    w.halfExtents spatial kernel = w.sameExtents spatial ↔
      ∀ i, Even (w.missing spatial kernel i) := by
  constructor
  · intro h i
    have hadd := halfExtents_add kernel hsteps hspatial i
    rw [h] at hadd
    rw [Nat.even_iff]
    omega
  · intro h
    ext i hi
    have hadd := halfExtents_add kernel hsteps hspatial ⟨i, hi⟩
    rwa [Nat.even_iff.mp (h ⟨i, hi⟩)] at hadd

end Extents

section Half

variable [Build] {w : Sliding n} {spatial kernel pads : Vector Nat n} (hsteps : w.Steps)
  (hspatial : ∀ i : Fin n, 0 < spatial.get i) (hkernel : ∀ i : Fin n, 0 < kernel.get i)
  (hfits : ∀ i : Fin n, Window.Fits (spatial.get i) (kernel.get i) (w.strides.get i)
    (w.dilations.get i))
  (hpads : ∀ i : Fin n, pads.get i = w.missing spatial kernel i / 2)

include hkernel hfits hpads

/-- On an axis that loses its position the window no longer fits into what it is given. -/
theorem extentOn_half_of_loses {i : Fin n} (h : w.Loses spatial kernel i) :
    ∃ window padded, extentOn { w.padded pads with pads } spatial kernel i =
      invalid (.windowTooLarge window padded) := by
  refine ⟨Window.span (kernel.get i) (w.dilations.get i),
    spatial.get i + 2 * (w.missing spatial kernel i / 2), ?_⟩
  change Window.positions _ _ _ _ (pads.get i) = _
  rw [hpads i]
  exact Window.positions_of_odd_of_one (hkernel i) (hfits i) h.1
    ((get_sameExtents i).symm.trans h.2)

include hsteps hspatial

theorem extentOn_half {i : Fin n} (h : ¬ w.Loses spatial kernel i) :
    extentOn { w.padded pads with pads } spatial kernel i =
      .ok ((w.halfExtents spatial kernel).get i) := by
  change Window.positions _ _ _ _ (pads.get i) = _
  rw [hpads i, get_halfExtents, get_sameExtents]
  by_cases heven : Even (w.missing spatial kernel i)
  · rw [Nat.even_iff.mp heven]
    exact Window.positions_of_even (hsteps.strides i) (hspatial i) (hkernel i) (hfits i) heven
  · rw [Nat.not_even_iff.mp heven]
    exact Window.positions_of_odd_of_ne_one (hsteps.strides i) (hspatial i) (hkernel i) (hfits i)
      heven fun hone => h ⟨heven, (get_sameExtents i).trans hone⟩

theorem mapM_extentOn_half_of_loses {i : Fin n} (h : w.Loses spatial kernel i) :
    ∃ window padded, (List.finRange n).mapM
      (extentOn { w.padded pads with pads } spatial kernel) =
        invalid (.windowTooLarge window padded) := by
  obtain ⟨_, _, hi⟩ := extentOn_half_of_loses hkernel hfits hpads h
  cases hall : (List.finRange n).mapM (extentOn { w.padded pads with pads } spatial kernel) with
  | ok extents =>
    obtain ⟨v, _, hv⟩ := mapM_finRange_eq_ok_iff.mp hall
    cases hi.symm.trans (hv i)
  | error e =>
    -- The first axis that is refused is one of those.
    obtain ⟨j, _, hj⟩ := exists_error_of_mapM hall
    by_cases hloses : w.Loses spatial kernel j
    · obtain ⟨window, padded, heq⟩ :=
        extentOn_half_of_loses hkernel hfits hpads hloses
      obtain rfl := Except.error.inj (hj.symm.trans heq)
      exact ⟨window, padded, rfl⟩
    · cases hj.symm.trans (extentOn_half hsteps hspatial hkernel hfits hpads hloses)

end Half

end Sliding

namespace Graph

variable [Build] {n : Nat} {wrap : Conv n → Operator} {g : Graph} {ids : List TensorId} {d : Conv n}
  {o : Operands n}

section Again

variable {pads : Vector Nat n} (hwrap : Operator.IsConvolution wrap)
  (htypes : g.typesOf? ids = some [o.input, o.weight])
  (hchannels : outChannels o.channels o.weight.shape = .ok o.filters) (hsteps : d.window.Steps)
  (hspatial : ∀ i : Fin n, 0 < o.spatial.get i) (hkernel : ∀ i : Fin n, 0 < o.kernel.get i)
  (hfits : ∀ i : Fin n, Window.Fits (o.spatial.get i) (o.kernel.get i) (d.window.strides.get i)
    (d.window.dilations.get i))
  (hpads : ∀ i : Fin n, pads.get i = d.window.missing o.spatial o.kernel i / 2)

include hwrap htypes hchannels hsteps hspatial hkernel hfits hpads

theorem infer_padded_of_not_loses (h : ¬ ∃ i, d.window.Loses o.spatial o.kernel i) :
    g.infer (wrap { d with window := d.window.padded pads }) ids =
      .ok ⟨wrap { d with window := { d.window.padded pads with pads } },
        [o.output (d.window.halfExtents o.spatial o.kernel)]⟩ := by
  refine (infer_convolution_eq_ok_iff hwrap htypes).mpr
    ⟨_, _, Sliding.resolve_padded hsteps pads _ _, hchannels, ?_, rfl⟩
  intro i
  exact Sliding.extentOn_half hsteps hspatial hkernel hfits hpads fun hi => h ⟨i, hi⟩

theorem infer_padded_of_loses {i : Fin n} (h : d.window.Loses o.spatial o.kernel i) :
    ∃ window padded, g.infer (wrap { d with window := d.window.padded pads }) ids =
      .error (.error (.invalidOperator (wrap { d with window := d.window.padded pads }).kind
        [o.input, o.weight] (.windowTooLarge window padded))) := by
  obtain ⟨window, padded, hextents⟩ :=
    Sliding.mapM_extentOn_half_of_loses hsteps hspatial hkernel hfits hpads h
  refine ⟨window, padded, ?_⟩
  have hinfer := infer_convolution hwrap htypes { d with window := d.window.padded pads }
  rw [Sliding.resolve_padded hsteps, hchannels] at hinfer
  rw [hinfer]
  change Inference.within _ _ (do
    let extents ← (List.finRange n).mapM (Sliding.extentOn { d.window.padded pads with pads } _ _)
    return _) = _
  rw [hextents]
  rfl

end Again

end Graph

namespace Graph

open scoped WrappingArithmetic

/-- One channel of five rows and four columns, and a weight of three rows and two columns. -/
def uneven : Graph :=
  (ofCalls [.tensor ⟨[1, 1, 5, 4], .float32⟩, .tensor ⟨[1, 1, 3, 2], .float32⟩]).1

/-- One element, and a weight of three rows and three columns. -/
def narrow : Graph :=
  (ofCalls [.tensor ⟨[1, 1, 1, 1], .float32⟩, .tensor ⟨[1, 1, 3, 3], .float32⟩]).1

end Graph

end DataflowCost
