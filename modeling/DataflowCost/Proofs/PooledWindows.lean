import DataflowCost.Proofs.Convolutions
import Mathlib.Data.Set.Card

/-! Convolutions and pooling leave of an axis as many elements as a window has positions on it. They are
sized by rules of their own, and where windows are the same the rules agree. -/
namespace DataflowCost

open Inference DataflowCost.Convolution
open scoped ExactArithmetic

theorem Inference.quotientUp_eq_add {a b : Nat} (h : 0 < b) :
    quotientUp a b = .ok (a / b + if b ∣ a then 0 else 1) := by
  rw [quotientUp_eq h, Nat.ceilDiv_eq_add_pred_div]
  cases a with
  | zero => simp [Nat.div_eq_of_lt (Nat.sub_lt h Nat.zero_lt_one)]
  | succ a =>
    -- Rounded up it is one more than the predecessor rounded down, which a multiple has passed.
    rw [Nat.add_right_comm, Nat.add_sub_cancel, Nat.add_div_right _ h, Nat.succ_div]
    by_cases hdvd : b ∣ a + 1
    · rw [if_pos hdvd, if_pos hdvd]
    · rw [if_neg hdvd, if_neg hdvd]

namespace Window

variable {window padded stride extra p : Nat} {rule rule' : Inference Nat}

/-- The positions of a window that moves in steps of `stride` and stays within `padded` elements. -/
def starts (window padded stride : Nat) : Set Nat := {i | i * stride + window ≤ padded}

/-- A rule that refuses a window longer than the axis, and otherwise answers with the number of its
positions and `extra` more. -/
structure Counts (rule : Inference Nat) (window padded stride extra : Nat) : Prop where
  refused : padded < window → ∃ reason, rule = invalid reason
  counted : window ≤ padded →
    ∃ p : Nat, rule = .ok p ∧ p = (starts window padded stride).encard + extra

theorem encard_starts (hstride : 0 < stride) (h : window ≤ padded) :
    (starts window padded stride).encard = ((padded - window) / stride + 1 : Nat) := by
  -- A window that fits at one position fits at all positions before it.
  have hstarts : starts window padded stride = Set.Iio ((padded - window) / stride + 1) := by
    apply Set.ext
    intro i
    rw [Set.mem_Iio, Nat.lt_succ_iff, Nat.le_div_iff_mul_le hstride, Nat.le_sub_iff_add_le h]
    rfl
  rw [hstarts, ← Finset.coe_Iio, Set.encard_coe_eq_coe_finsetCard, Nat.card_Iio]

namespace Counts

theorem of_eq (hstride : 0 < stride) (reason : Reason)
    (h : rule = do
      require (window ≤ padded) reason
      return (padded - window) / stride + extra + 1) :
    Counts rule window padded stride extra where
  refused hlt := ⟨reason, by rw [h, require, if_neg (Nat.not_le_of_gt hlt)]; rfl⟩
  counted hle := by
    refine ⟨(padded - window) / stride + extra + 1, ?_, ?_⟩
    · rw [h, require_bind hle]
      rfl
    · rw [encard_starts hstride hle, Nat.add_right_comm, Nat.cast_add]

theorem eq_ok_iff (h : Counts rule window padded stride extra) : rule = .ok p ↔
    window ≤ padded ∧ p = (starts window padded stride).encard + extra := by
  constructor
  · intro hp
    have hle : window ≤ padded := by
      by_contra hlt
      obtain ⟨_, hreason⟩ := h.refused (Nat.lt_of_not_le hlt)
      cases hreason.symm.trans hp
    obtain ⟨q, hq, hcount⟩ := h.counted hle
    obtain rfl := Except.ok.inj (hq.symm.trans hp)
    exact ⟨hle, hcount⟩
  · rintro ⟨hle, hp⟩
    obtain ⟨q, hq, hcount⟩ := h.counted hle
    rw [hq, Nat.cast_inj.mp (hcount.trans hp.symm)]

/-- Rules that count the same positions give the same answers. -/
theorem congr (h : Counts rule window padded stride extra)
    (h' : Counts rule' window padded stride extra) : rule = .ok p ↔ rule' = .ok p :=
  h.eq_ok_iff.trans h'.eq_ok_iff.symm

end Counts

theorem counts_positions {input kernel dilation pad : Nat} (hkernel : 0 < kernel)
    (hstride : 0 < stride) (hspan : span kernel dilation < Word.limit)
    (hpadded : input + 2 * pad < Word.limit) :
    Counts (positions input kernel stride dilation pad) (span kernel dilation) (input + 2 * pad)
      stride 0 := by
  refine .of_eq hstride (.windowTooLarge (span kernel dilation) (input + 2 * pad)) ?_
  rw [positions_exact]
  rw [require_bind hkernel, require_bind hspan, require_bind hpadded, quotient_eq hstride]
  rfl

end Window

namespace Pool

/-- The elements that a window in its first position leaves over at the end of the padded axis. -/
def free (d : Pool) (axis : Fin 2) (input : Nat) : Nat :=
  input + 2 * d.pads.get axis - Window.span (d.kernel.get axis) (d.dilations.get axis)

/-- What the last step counts in ceiling mode, which is one if it is partial. -/
def lastStep (d : Pool) (axis : Fin 2) (input : Nat) : Nat :=
  if d.ceilMode ∧ ¬ d.strides.get axis ∣ d.free axis input then 1 else 0

theorem pooled_eq (d : Pool) (axis : Fin 2) (input : Nat) (hstride : 0 < d.strides.get axis) :
    d.pooled axis input = (do
      let window := Window.span (d.kernel.get axis) (d.dilations.get axis)
      let padded := input + 2 * d.pads.get axis
      require (window ≤ padded) (.poolWindowTooLarge window padded)
      return (padded - window) / d.strides.get axis + d.lastStep axis input + 1) := by
  rw [pooled_exact]
  unfold lastStep free
  generalize Window.span (d.kernel.get axis) (d.dilations.get axis) = window
  generalize input + 2 * d.pads.get axis = padded
  cases d.ceilMode with
  | false =>
    change (do require (window ≤ padded) _; return (← quotient (padded - window) _) + 1) = _
    rw [quotient_eq hstride, if_neg fun h => Bool.false_ne_true h.1]
    rfl
  | true =>
    change (do require (window ≤ padded) _; return (← quotientUp (padded - window) _) + 1) = _
    rw [quotientUp_eq_add hstride, ← ite_not]
    simp only [true_and]
    rfl

theorem counts_pooled (d : Pool) (axis : Fin 2) (input : Nat) (hstride : 0 < d.strides.get axis) :
    Window.Counts (d.pooled axis input)
      (Window.span (d.kernel.get axis) (d.dilations.get axis)) (input + 2 * d.pads.get axis)
      (d.strides.get axis) (d.lastStep axis input) :=
  .of_eq hstride _ (d.pooled_eq axis input hstride)

/-- Windows are not empty and move on every axis. -/
structure Moves (d : Pool) : Prop where
  kernel : ∀ i : Fin 2, 0 < d.kernel.get i
  strides : ∀ i : Fin 2, 0 < d.strides.get i
  dilations : ∀ i : Fin 2, 0 < d.dilations.get i

theorem moves_iff {d : Pool} :
    ([d.kernel, d.strides, d.dilations].all fun v => v.toList.all (0 < ·)) = true ↔ d.Moves := by
  simp only [List.all_cons, List.all_nil, Bool.and_true, Bool.and_eq_true, Sliding.all_toList_iff]
  exact ⟨fun ⟨hkernel, hstrides, hdilations⟩ => ⟨hkernel, hstrides, hdilations⟩,
    fun ⟨hkernel, hstrides, hdilations⟩ => ⟨hkernel, hstrides, hdilations⟩⟩

/-- Any pooling of windows that move takes an input with two spatial axes. -/
theorem check_eq_ok_iff {d d' : Pool} {x : TensorType} (hrank : x.rank = 4) :
    d.check x = .ok d' ↔ isPooling d.kind = true ∧ d.Moves ∧ d' = d := by
  unfold check
  rw [require_bind_eq_ok_iff, require_bind_eq_ok_iff, moves_iff, require_bind (.inr hrank),
    require_bind fun h => absurd (hrank.symm.trans h) (by decide)]
  exact and_congr_right fun _ => and_congr_right fun _ => ok_eq_ok_iff

theorem outShape_planar (d : Pool) (batch channels : Nat) (spatial : Vector Nat 2) :
    d.outShape (batch :: channels :: spatial.toList) = (do
      let extents ← (List.finRange 2).mapM fun i => d.pooled i (spatial.get i)
      return batch :: channels :: extents) := by
  have hspatial : spatial.toList = [spatial.get Window.rowAxis, spatial.get Window.columnAxis] :=
    congrArg Vector.toList (Sliding.eq_pair spatial)
  have haxes : List.finRange 2 = [Window.rowAxis, Window.columnAxis] := rfl
  rw [hspatial, haxes, List.mapM_cons, List.mapM_cons, List.mapM_nil]
  simp only [bind_assoc, pure_bind]
  rfl

/-- The windows of a pooling are those of a convolution with a kernel of that size, whose pads are the same
on every axis, if only because there are none. -/
structure SlidesAs (d : Pool) (w : Sliding 2) (kernel : Vector Nat 2) : Prop where
  kernel_eq : d.kernel = kernel
  strides_eq : d.strides = w.strides
  dilations_eq : d.dilations = w.dilations
  pads_eq : w.padding = .explicit d.pads.toList ∨ w.padding = .valid ∧ d.pads = .replicate 2 0

namespace SlidesAs

variable {d : Pool} {w window : Sliding 2} {kernel spatial : Vector Nat 2}

theorem padding_ne (h : d.SlidesAs w kernel) : w.padding ≠ .same := by
  rcases h.pads_eq with hpadding | ⟨hpadding, _⟩ <;> rw [hpadding] <;> exact nofun

theorem resolve_eq_ok_iff (h : d.SlidesAs w kernel) :
    w.resolve spatial.toList kernel.toList = .ok window ↔
      w.Steps ∧ window = { w with pads := d.pads } := by
  have hpads : w.padsFor spatial.toList kernel.toList = .ok d.pads := by
    unfold Sliding.padsFor
    rcases h.pads_eq with hpadding | ⟨hpadding, hpads⟩
    · rw [hpadding]
      exact Sliding.explicitPads_toList d.pads
    · rw [hpadding, hpads]
  rw [Sliding.resolve_eq_ok_iff, hpads]
  constructor
  · rintro ⟨hsteps, pads, hok, rfl⟩
    obtain rfl := Except.ok.inj hok
    exact ⟨hsteps, rfl⟩
  · rintro ⟨hsteps, rfl⟩
    exact ⟨hsteps, d.pads, rfl, rfl⟩

/-- A convolution that moves and leaves an extent of every axis has taps on it. -/
theorem moves (h : d.SlidesAs w kernel) (hsteps : w.Steps) {extents : Vector Nat 2}
    (hextents : ∀ i : Fin 2,
      Sliding.extentOn { w with pads := d.pads } spatial kernel i = .ok (extents.get i)) :
    d.Moves where
  kernel i := by
    -- Pooling checks its kernel and convolutions do not, but they refuse to count without one.
    have hextent := hextents i
    rw [Sliding.extentOn_of_ne_same (w := { w with pads := d.pads }) h.padding_ne,
      ← h.kernel_eq] at hextent
    exact ((Window.positions_eq_ok_iff rfl (hsteps.strides i)).mp hextent).1
  strides i := h.strides_eq ▸ hsteps.strides i
  dilations i := h.dilations_eq ▸ hsteps.dilations i

/-- On one axis the rule of convolutions and the rule of pooling count the same positions. -/
theorem extentOn_eq_ok_iff (h : d.SlidesAs w kernel) (hfloor : d.ceilMode = false) {i : Fin 2} {p : Nat}
    (hkernel : 0 < d.kernel.get i) (hstride : 0 < d.strides.get i)
    (hspan : Window.span (d.kernel.get i) (d.dilations.get i) < Word.limit)
    (hpadded : spatial.get i + 2 * d.pads.get i < Word.limit) :
    Sliding.extentOn { w with pads := d.pads } spatial kernel i = .ok p ↔
      d.pooled i (spatial.get i) = .ok p := by
  have hpooled := d.counts_pooled i (spatial.get i) hstride
  have hlast : d.lastStep i (spatial.get i) = 0 :=
    if_neg fun hceil => Bool.false_ne_true (hfloor.symm.trans hceil.1)
  rw [hlast] at hpooled
  rw [Sliding.extentOn_of_ne_same (w := { w with pads := d.pads }) h.padding_ne, ← h.kernel_eq,
    ← h.strides_eq, ← h.dilations_eq]
  exact (Window.counts_positions hkernel hstride hspan hpadded).congr hpooled

end SlidesAs

end Pool

namespace Convolution.Operands

/-- The input with these extents in place of its spatial ones. -/
def pooled (o : Operands 2) (extents : Vector Nat 2) : TensorType :=
  ⟨o.batch :: o.channels :: extents.toList, o.dtype⟩

theorem pooled_injective {o : Operands 2} : Function.Injective o.pooled := by
  intro v w h
  apply Vector.toList_inj.mp
  exact (List.cons.inj (List.cons.inj (congrArg TensorType.shape h)).2).2

end Convolution.Operands

namespace Graph

variable {g : Graph} {ids : List TensorId} {o : Operands 2}

theorem infer_pool {d : Pool} {x : TensorType} (htypes : g.typesOf? ids = some [x]) :
    g.infer (.pool d) ids = Inference.within d.kind [x] (do
      let d' ← d.check x
      return ⟨.pool d', [⟨← d'.outShape x.shape, x.dtype⟩]⟩) :=
  infer_eq_of_outShape ⟨fun _ _ => rfl, fun _ _ hole => hole⟩ htypes rfl rfl rfl (fun _ => rfl)
    fun _ => rfl

theorem infer_pool_eq_ok_iff {d : Pool} {inferred : Inferred}
    (htypes : g.typesOf? ids = some [o.input]) :
    g.infer (.pool d) ids = .ok inferred ↔ Pool.isPooling d.kind = true ∧ d.Moves ∧
      ∃ extents : Vector Nat 2, (∀ i : Fin 2, d.pooled i (o.spatial.get i) = .ok (extents.get i)) ∧
        inferred = ⟨.pool d, [o.pooled extents]⟩ := by
  have hrank : o.input.rank = 4 := by simp [TensorType.rank, Operands.input]
  rw [infer_pool htypes, within_eq_ok_iff, bind_eq_ok_iff]
  constructor
  · rintro ⟨d', hcheck, h⟩
    obtain ⟨hkind, hmoves, rfl⟩ := (Pool.check_eq_ok_iff hrank).mp hcheck
    obtain ⟨out, hout, h⟩ := bind_eq_ok_iff.mp h
    rw [Operands.input, Pool.outShape_planar] at hout
    obtain ⟨_, hlist, hout⟩ := bind_eq_ok_iff.mp hout
    obtain ⟨extents, rfl, hextents⟩ := Sliding.mapM_finRange_eq_ok_iff.mp hlist
    obtain rfl := Except.ok.inj hout
    exact ⟨hkind, hmoves, extents, hextents, (Except.ok.inj h).symm⟩
  · rintro ⟨hkind, hmoves, extents, hextents, rfl⟩
    refine ⟨d, (Pool.check_eq_ok_iff hrank).mpr ⟨hkind, hmoves, rfl⟩, ?_⟩
    rw [Operands.input, Pool.outShape_planar,
      Sliding.mapM_finRange_eq_ok_iff.mpr ⟨extents, rfl, hextents⟩]
    rfl

theorem infer_pool_ok_or_error (d : Pool) {x : TensorType} (htypes : g.typesOf? ids = some [x]) :
    (∃ inferred, g.infer (.pool d) ids = .ok inferred) ∨
      ∃ e, g.infer (.pool d) ids = .error (.error e) := by
  rw [infer_pool htypes]
  refine Meets.within_ok_or_error ?_ d.kind [x]
  refine (d.meets_check x).bind ?_
  rintro _ ⟨rfl, hfits⟩
  exact (Pool.meets_outShape ExactArithmetic.elim hfits).bind fun _ _ => meets_ok trivial

/-- A convolution and a pooling of the same windows, of which no extent is beyond a machine word, leave the
same extents. -/
theorem infer_conv2d_iff_infer_pool {g' : Graph} {ids' : List TensorId} {d : Conv 2} {pool : Pool}
    (htypes : g.typesOf? ids = some [o.input, o.weight])
    (htypes' : g'.typesOf? ids' = some [o.input])
    (hchannels : outChannels o.channels o.weight.shape = .ok o.filters)
    (hkind : Pool.isPooling pool.kind = true) (hfloor : pool.ceilMode = false)
    (hslides : pool.SlidesAs d.window o.kernel)
    (hspan : ∀ i : Fin 2,
      Window.span (pool.kernel.get i) (pool.dilations.get i) < Word.limit)
    (hpadded : ∀ i : Fin 2, o.spatial.get i + 2 * pool.pads.get i < Word.limit)
    (extents : Vector Nat 2) :
    (∃ op, g.infer (.conv2d d) ids = .ok ⟨op, [o.output extents]⟩) ↔
      ∃ op, g'.infer (.pool pool) ids' =
        .ok ⟨op, [o.pooled extents]⟩ := by
  -- Either side yields what the other one checks, and then the rules agree on each axis.
  have hagree {i : Fin 2} (hmoves : pool.Moves) :=
    hslides.extentOn_eq_ok_iff hfloor (p := extents.get i) (hmoves.kernel i) (hmoves.strides i)
      (hspan i) (hpadded i)
  constructor
  · rintro ⟨op, h⟩
    obtain ⟨window, extents', hresolve, _, hextents, h⟩ :=
      (infer_convolution_eq_ok_iff .planar htypes).mp h
    obtain ⟨hsteps, rfl⟩ := hslides.resolve_eq_ok_iff.mp hresolve
    obtain rfl : extents = extents' :=
      Operands.output_injective (List.singleton_inj.mp (Inferred.mk.inj h).2)
    have hmoves := hslides.moves hsteps hextents
    exact ⟨.pool pool, (infer_pool_eq_ok_iff htypes').mpr
      ⟨hkind, hmoves, extents, fun i => (hagree hmoves).mp (hextents i), rfl⟩⟩
  · rintro ⟨op, h⟩
    obtain ⟨_, hmoves, extents', hextents, h⟩ := (infer_pool_eq_ok_iff htypes').mp h
    obtain rfl : extents = extents' :=
      Operands.pooled_injective (List.singleton_inj.mp (Inferred.mk.inj h).2)
    have hsteps : d.window.Steps :=
      ⟨fun i => hslides.strides_eq ▸ hmoves.strides i,
        fun i => hslides.dilations_eq ▸ hmoves.dilations i⟩
    exact ⟨_, (infer_convolution_eq_ok_iff .planar htypes).mpr
      ⟨_, extents, hslides.resolve_eq_ok_iff.mpr ⟨hsteps, rfl⟩, hchannels,
        fun i => (hagree hmoves).mpr (hextents i), rfl⟩⟩

/-- The extent that a convolution leaves of an axis is the number of positions of its window, as far as
sizes are machine words, and so is that of a pooling; in ceiling mode a pooling counts one more if its last
step is partial. Therefore a convolution and a pooling of the same windows leave the same extents of an
input, or both report an error. -/
theorem windows_count_positions :
    (∀ {input kernel stride dilation pad : Nat}, 0 < kernel → 0 < stride →
      Window.span kernel dilation < Word.limit → input + 2 * pad < Word.limit →
      Window.Counts (Window.positions input kernel stride dilation pad)
        (Window.span kernel dilation) (input + 2 * pad) stride 0) ∧
    (∀ (d : Pool) (axis : Fin 2) (input : Nat), 0 < d.strides.get axis →
      Window.Counts (d.pooled axis input)
        (Window.span (d.kernel.get axis) (d.dilations.get axis)) (input + 2 * d.pads.get axis)
        (d.strides.get axis)
        (if d.ceilMode ∧ ¬ d.strides.get axis ∣ d.free axis input then 1 else 0)) ∧
    ∀ {g g' : Graph} {ids ids' : List TensorId} {o : Operands 2} {d : Conv 2} {pool : Pool},
      g.typesOf? ids = some [o.input, o.weight] → g'.typesOf? ids' = some [o.input] →
      outChannels o.channels o.weight.shape = .ok o.filters →
      Pool.isPooling pool.kind = true → pool.ceilMode = false → pool.SlidesAs d.window o.kernel →
      (∀ i : Fin 2, Window.span (pool.kernel.get i) (pool.dilations.get i) < Word.limit) →
      (∀ i : Fin 2, o.spatial.get i + 2 * pool.pads.get i < Word.limit) →
      (∃ extents : Vector Nat 2, (∃ op, g.infer (.conv2d d) ids = .ok ⟨op, [o.output extents]⟩) ∧
        ∃ op, g'.infer (.pool pool) ids' =
          .ok ⟨op, [o.pooled extents]⟩) ∨
      (∃ e, g.infer (.conv2d d) ids = .error (.error e)) ∧
        ∃ e, g'.infer (.pool pool) ids' = .error (.error e) := by
  refine ⟨Window.counts_positions, Pool.counts_pooled, ?_⟩
  intro g g' ids ids' o d pool htypes htypes' hchannels hkind hfloor hslides hspan hpadded
  have hiff := infer_conv2d_iff_infer_pool htypes htypes' hchannels hkind hfloor hslides hspan hpadded
  rcases infer_convolution_ok_or_error .planar d htypes hchannels with ⟨_, h⟩ | ⟨e, h⟩
  · obtain ⟨_, extents, _, _, _, rfl⟩ := (infer_convolution_eq_ok_iff .planar htypes).mp h
    exact .inl ⟨extents, ⟨_, h⟩, (hiff extents).mp ⟨_, h⟩⟩
  · refine .inr ⟨⟨e, h⟩, ?_⟩
    rcases infer_pool_ok_or_error pool htypes' with ⟨_, h'⟩ | h'
    · obtain ⟨_, _, extents, _, rfl⟩ := (infer_pool_eq_ok_iff htypes').mp h'
      obtain ⟨_, hok⟩ := (hiff extents).mpr ⟨_, h'⟩
      cases hok.symm.trans h
    · exact h'

/-- An image of three channels, and four filters for it. -/
def image : Graph :=
  (ofCalls [.tensor ⟨[1, 3, 7, 6], .float32⟩, .tensor ⟨[4, 3, 3, 2], .float32⟩]).1

/-- There are four positions for the rows, which are padded at both ends, and two for the columns. In
ceiling mode the columns take a partial step more. -/
theorem windows_count_positions_image :
    let o : Operands 2 := ⟨1, 3, #v[7, 6], 4, 3, #v[3, 2], .float32, .float32⟩
    let d : Conv 2 := { window := ⟨.explicit [1, 0], #v[2, 2], #v[1, 2], .replicate 2 0⟩ }
    let pool : Pool :=
      { kind := .maxPool, kernel := #v[3, 2], dilations := #v[1, 2], pads := #v[1, 0],
        strides := #v[2, 2] }
    image.typesOf? [⟨0⟩, ⟨1⟩] = some [o.input, o.weight] ∧
      image.typesOf? [⟨0⟩] = some [o.input] ∧
      outChannels o.channels o.weight.shape = .ok o.filters ∧ pool.SlidesAs d.window o.kernel ∧
      Window.Counts (Window.positions 7 3 2 1 1) 3 9 2 0 ∧
      Window.Counts ({ pool with ceilMode := true }.pooled Window.columnAxis 6) 3 6 2 1 ∧
      (∃ op, image.infer (.pool pool) [⟨0⟩] = .ok ⟨op, [⟨[1, 3, 4, 2], .float32⟩]⟩) ∧
      ∃ op, image.infer (.conv2d d) [⟨0⟩, ⟨1⟩] = .ok ⟨op, [⟨[1, 4, 4, 2], .float32⟩]⟩ := by
  intro o d pool
  have htypes : image.typesOf? [⟨0⟩, ⟨1⟩] = some [o.input, o.weight] := by rfl
  have htypes' : image.typesOf? [⟨0⟩] = some [o.input] := by rfl
  have hchannels : outChannels o.channels o.weight.shape = .ok o.filters :=
    outChannels_eq_ok_iff.mpr (by decide)
  have hslides : pool.SlidesAs d.window o.kernel := ⟨rfl, rfl, rfl, .inl rfl⟩
  have hextents (i : Fin 2) : pool.pooled i (o.spatial.get i) = .ok (#v[4, 2].get i) := by
    match i with
    | 0 | 1 =>
      rw [pool.pooled_eq _ _ (by decide), require_bind (by decide)]
      exact congrArg Except.ok (by decide)
  have hpooled : image.infer (.pool pool) [⟨0⟩] = .ok ⟨.pool pool, [⟨[1, 3, 4, 2], .float32⟩]⟩ :=
    (infer_pool_eq_ok_iff htypes').mpr
      ⟨rfl, ⟨by decide, by decide, by decide⟩, #v[4, 2], hextents, rfl⟩
  obtain ⟨hconv, hpool, hsame⟩ := windows_count_positions
  have hrows : Window.Counts (Window.positions 7 3 2 1 1) 3 9 2 0 :=
    hconv (by decide) (by decide) (by decide) (by decide)
  have hcolumns : Window.Counts ({ pool with ceilMode := true }.pooled Window.columnAxis 6) 3 6 2 1 := by
    convert hpool { pool with ceilMode := true } Window.columnAxis 6 (by decide) using 1 <;> decide
  refine ⟨htypes, htypes', hchannels, hslides, hrows, hcolumns, ⟨_, hpooled⟩, ?_⟩
  rcases hsame htypes htypes' hchannels rfl rfl hslides (by decide) (by decide) with
    ⟨extents, ⟨op, hop⟩, _, hextents⟩ | ⟨_, e, herror⟩
  · have houtputs := (Inferred.mk.inj (Except.ok.inj (hextents.symm.trans hpooled))).2
    obtain rfl : extents = #v[4, 2] :=
      Operands.pooled_injective (o := o) (List.singleton_inj.mp houtputs)
    exact ⟨op, hop⟩
  · cases hpooled.symm.trans herror

end Graph

end DataflowCost
