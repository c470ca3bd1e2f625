import DataflowCost.Proofs.Infers
import DataflowCost.Proofs.Keys.Layout
import DataflowCost.Proofs.Resolution.Range
import Mathlib.Data.Int.Interval
import Mathlib.Data.Set.Card
import Mathlib.Order.Interval.Set.ProjIcc

/-! Slices as selections. An axis of the output has as many elements as positions are selected on that
axis of the input, whichever way the steps go and wherever the bounds lie. -/
namespace DataflowCost

open Inference
open scoped ExactArithmetic

/-- The positions that lie whole steps behind the first one, and before the stop in the direction of
the steps. -/
def AxisRange.reached (first stop step : Int) : Set Int :=
  {p | ∃ k : Nat, p = first + k * step ∧ if 0 < step then p < stop else stop < p}

namespace AxisRange

theorem extent_full (extent : Nat) : (full extent).extent = extent := by
  simp [AxisRange.extent, full_exact]

theorem reached_eq_image (r : AxisRange) (h : r.step ≠ 0) :
    reached r.start r.stop r.step = r.position '' Set.Iio r.extent := by
  apply Set.ext
  intro p
  constructor
  · rintro ⟨k, rfl, hbefore⟩
    exact ⟨k, (lt_extent_iff h k).mpr hbefore, rfl⟩
  · rintro ⟨k, hk, rfl⟩
    exact ⟨k, rfl, (lt_extent_iff h k).mp hk⟩

/-- No two steps lead to the same position, so the extent counts the positions. -/
theorem encard_reached (r : AxisRange) (h : r.step ≠ 0) :
    (reached r.start r.stop r.step).encard = r.extent := by
  have hinj : Function.Injective r.position := by
    intro k l hkl
    have hsteps : (k : Int) * r.step = l * r.step := Int.add_left_cancel hkl
    exact Int.ofNat.inj (Int.eq_of_mul_eq_mul_right h hsteps)
  calc (reached r.start r.stop r.step).encard
    _ = (Set.Iio r.extent).encard := by rw [reached_eq_image r h, hinj.encard_image]
    _ = r.extent := by
      rw [← Finset.coe_Iio, Set.encard_coe_eq_coe_finsetCard, Nat.card_Iio]

theorem reached_subset {r : AxisRange} {extent : Nat} (hstep : r.step ≠ 0) (h : r.Within extent) :
    reached r.start r.stop r.step ⊆ Set.Ico 0 (extent : Int) := by
  rw [reached_eq_image r hstep]
  rintro _ ⟨k, hk, rfl⟩
  exact h k hk

/-- A range takes no more positions than the axis has. -/
theorem extent_le {r : AxisRange} {extent : Nat} (hstep : r.step ≠ 0) (h : r.Within extent) :
    r.extent ≤ extent := by
  have hcount : (Set.Ico 0 (extent : Int)).encard = extent := by
    rw [← Finset.coe_Ico, Set.encard_coe_eq_coe_finsetCard, Int.card_Ico, Int.sub_zero,
      Int.toNat_natCast]
  have hle := Set.encard_le_encard (reached_subset hstep h)
  rw [encard_reached r hstep, hcount] at hle
  exact ENat.natCast_le_natCast.mp hle

end AxisRange

/-- The positions that axis references name, one after the other. -/
theorem Axis.forall₂_of_resolveEach {rank : Nat} {axes : List Int} {named : List Nat}
    (h : resolveEach rank axes = .ok named) : List.Forall₂ (fun (axis : Int) (position : Nat) =>
      position < rank ∧ (axis = position ∨ axis = position - rank)) axes named := by
  have hgo (rest : List Int) (seen : List Nat) (named : List Nat)
      (h : resolveEach.go rank axes rest seen = .ok named) :
      List.Forall₂ (fun (axis : Int) (position : Nat) =>
        position < rank ∧ (axis = position ∨ axis = position - rank)) rest named := by
    induction rest generalizing seen named with
    | nil =>
      obtain rfl := Except.ok.inj h
      exact .nil
    | cons axis rest ih =>
      obtain ⟨position, hposition, h⟩ := bind_eq_ok_iff.mp h
      by_cases hseen : position ∈ seen
      · rw [if_pos hseen] at h
        cases h
      · rw [if_neg hseen] at h
        obtain ⟨others, hothers, h⟩ := bind_eq_ok_iff.mp h
        obtain rfl := Except.ok.inj h
        refine .cons ?_ (ih _ _ hothers)
        obtain ⟨hrange, hwrap⟩ : (0 ≤ wrap axis rank ∧ wrap axis rank < rank) ∧
            (wrap axis rank).toNat = position := by
          by_cases hrange : 0 ≤ wrap axis rank ∧ wrap axis rank < rank
          · exact ⟨hrange, Except.ok.inj ((if_pos hrange).symm.trans hposition)⟩
          · exact absurd ((if_neg hrange).symm.trans hposition) nofun
        unfold wrap at hrange hwrap
        split at hrange <;> omega
  exact hgo axes [] named h

namespace Slice

/-- The entries at position `i` are about this axis of an input. Without a list of axes they are about
the leading ones; a listed axis counts from the first one or, if negative, from behind the last. -/
def Names (d : Slice) (rank i axis : Nat) : Prop :=
  i < d.starts.length ∧ axis < rank ∧ match d.axes with
    | none => axis = i
    | some axes => axes[i]? = some (axis : Int) ∨ axes[i]? = some (axis - rank : Int)

/-- The step of the entries at position `i`. -/
def stepAt (d : Slice) (i : Nat) : Int :=
  match d.steps with
  | none => 1
  | some steps => steps.getD i 0

/-- A bound on an axis: one that is negative counts from behind the last position, and one that lies
outside moves to the nearest place at which a range may start or stop. -/
def bound (extent : Nat) (step value : Int) : Int :=
  let counted := if value < 0 then value + extent else value
  if 0 < step then Set.projIcc 0 (extent : Int) (Int.natCast_nonneg extent) counted
  else Set.projIcc (-1) (extent - 1 : Int) (by omega) counted

/-- The positions of an axis that bounds and a step select. -/
def selected (extent : Nat) (start stop step : Int) : Set Int :=
  AxisRange.reached (bound extent step start) (bound extent step stop) step

/-- The output of a slice. Each entry is about one axis and no axis has two entries; such an axis keeps
the positions that are selected, and every other axis keeps all. -/
structure Selects (d : Slice) (s t : Shape) : Prop where
  length_eq : t.length = s.length
  ends_eq : d.ends.length = d.starts.length
  exists_axis : ∀ i < d.starts.length, ∃ axis, d.Names s.length i axis
  entry_unique : ∀ {i j axis}, d.Names s.length i axis → d.Names s.length j axis → i = j
  sliced : ∀ {i axis}, d.Names s.length i axis → ∃ extent out start stop,
    s[axis]? = some extent ∧ t[axis]? = some out ∧ d.starts[i]? = some start ∧
    d.ends[i]? = some stop ∧ d.stepAt i ≠ 0 ∧
    (selected extent start stop (d.stepAt i)).encard = out ∧
    selected extent start stop (d.stepAt i) ⊆ Set.Ico 0 (extent : Int)
  kept : ∀ {axis}, (∀ i, ¬ d.Names s.length i axis) → t[axis]? = s[axis]?
  within : List.Forall₂ (· ≤ ·) t s

theorem limited_eq (value : Int) (extent : Nat) (step : Int) :
    AxisRange.limited value extent step = bound extent step value := by
  simp only [AxisRange.limited, bound, Set.coe_projIcc, min_comm]

/-- What the entries at position `i` put on an axis. -/
def Puts [Build] (s : Shape) (starts ends steps : List Int) (i axis : Nat) (r : AxisRange) : Prop :=
  ∃ extent start stop step, s[axis]? = some extent ∧ starts[i]? = some start ∧
    ends[i]? = some stop ∧ steps[i]? = some step ∧
    AxisRange.clamped start stop step extent = .ok r

theorem eq_set_of_placeAt [Build] {s : Shape} {starts ends steps : List Int}
    {taken placed : List AxisRange} {axis i : Nat}
    (h : placeAt s starts ends steps taken axis i = .ok placed) :
    ∃ r, Puts s starts ends steps i axis r ∧ placed = taken.set axis r := by
  obtain ⟨extent, hextent, h⟩ := bind_eq_ok_iff.mp h
  obtain ⟨start, hstart, h⟩ := bind_eq_ok_iff.mp h
  obtain ⟨stop, hstop, h⟩ := bind_eq_ok_iff.mp h
  obtain ⟨step, hstep, h⟩ := bind_eq_ok_iff.mp h
  obtain ⟨r, hr, h⟩ := bind_eq_ok_iff.mp h
  exact ⟨r, ⟨extent, start, stop, step, present_eq_ok hextent, present_eq_ok hstart,
    present_eq_ok hstop, present_eq_ok hstep, hr⟩, eq_set_of_overwrite h⟩

/-- Ranges are put on the named axes and on no others. -/
theorem getElem?_of_foldlM [Build] {s : Shape} {starts ends steps : List Int} {named : List Nat}
    {first : Nat} {taken placed : List AxisRange} (hnodup : named.Nodup)
    (hlt : ∀ axis ∈ named, axis < taken.length)
    (h : (named.zipIdx first).foldlM (fun ranges (axis, i) =>
      placeAt s starts ends steps ranges axis i) taken = .ok placed) :
    (∀ axis ∉ named, placed[axis]? = taken[axis]?) ∧
      ∀ {k axis}, named[k]? = some axis → ∃ r, placed[axis]? = some r ∧
        Puts s starts ends steps (first + k) axis r := by
  induction named generalizing first taken with
  | nil =>
    obtain rfl := Except.ok.inj h
    exact ⟨fun _ _ => rfl, nofun⟩
  | cons axis named ih =>
    rw [List.zipIdx_cons, List.foldlM_cons] at h
    obtain ⟨taken', hput, h⟩ := bind_eq_ok_iff.mp h
    obtain ⟨r, hr, rfl⟩ := eq_set_of_placeAt hput
    obtain ⟨hfresh, hnodup⟩ := List.nodup_cons.mp hnodup
    obtain ⟨haxis, hlt⟩ := List.forall_mem_cons.mp hlt
    obtain ⟨hothers, hnamed⟩ := ih hnodup (fun a ha => by rw [List.length_set]; exact hlt a ha) h
    refine ⟨?_, ?_⟩
    · intro a ha
      have hne : axis ≠ a := fun heq => ha (heq ▸ List.mem_cons_self)
      rw [hothers a fun hmem => ha (List.mem_cons_of_mem _ hmem), List.getElem?_set_ne hne]
    · intro k a hk
      cases k with
      | zero =>
        -- What is put first stays, as the axis is not named again.
        obtain rfl := Option.some.inj hk
        exact ⟨r, by rw [hothers _ hfresh, List.getElem?_set_self haxis], hr⟩
      | succ k =>
        obtain ⟨r, hr, hputs⟩ := hnamed (k := k) hk
        exact ⟨r, hr, by rwa [Nat.add_right_comm] at hputs⟩

theorem nodup_of_resolveAxes {axes : Option (List Int)} {count rank : Nat} {named : List Nat}
    (h : resolveAxes axes count rank = .ok named) : named.Nodup := by
  cases axes with
  | none =>
    obtain ⟨_, _, h⟩ := bind_eq_ok_iff.mp h
    obtain rfl := Except.ok.inj h
    exact List.nodup_range
  | some axes =>
    obtain ⟨_, _, h⟩ := bind_eq_ok_iff.mp h
    exact Axis.nodup_resolveEach h

/-- The axes that a slice resolves to are those that its entries are about. -/
theorem getElem?_resolveAxes_iff {d : Slice} {rank : Nat} {named : List Nat}
    (h : resolveAxes d.axes d.starts.length rank = .ok named) {i axis : Nat} :
    named[i]? = some axis ↔ d.Names rank i axis := by
  unfold Names
  cases haxes : d.axes with
  | none =>
    rw [haxes] at h
    obtain ⟨_, hle, h⟩ := bind_eq_ok_iff.mp h
    obtain rfl := Except.ok.inj h
    have hle : d.starts.length ≤ rank := of_require hle
    rw [List.getElem?_eq_some_iff]
    simp only [List.length_range, List.getElem_range]
    constructor
    · rintro ⟨hi, rfl⟩
      exact ⟨hi, by omega, rfl⟩
    · rintro ⟨hi, _, rfl⟩
      exact ⟨hi, rfl⟩
  | some axes =>
    rw [haxes] at h
    obtain ⟨_, hcount, h⟩ := bind_eq_ok_iff.mp h
    have hcount : axes.length = d.starts.length := of_require hcount
    obtain ⟨hlen, hnamed⟩ := List.forall₂_iff_get.mp (Axis.forall₂_of_resolveEach h)
    constructor
    · intro hi
      obtain ⟨hlt, rfl⟩ := List.getElem?_eq_some_iff.mp hi
      obtain ⟨hrank, hentry⟩ := hnamed i (by omega) hlt
      simp only [List.get_eq_getElem] at hrank hentry
      refine ⟨by omega, hrank, ?_⟩
      show axes[i]? = some _ ∨ axes[i]? = some _
      rw [List.getElem?_eq_getElem (by omega)]
      exact hentry.imp (congrArg some) (congrArg some)
    · rintro ⟨hi, hrank, hentry⟩
      change axes[i]? = some _ ∨ axes[i]? = some _ at hentry
      have hlt : i < named.length := by omega
      obtain ⟨hrank', hentry'⟩ := hnamed i (by omega) hlt
      simp only [List.get_eq_getElem] at hrank' hentry'
      rw [List.getElem?_eq_getElem (by omega : i < axes.length), Option.some.injEq,
        Option.some.injEq] at hentry
      rw [List.getElem?_eq_getElem hlt, Option.some.injEq]
      omega

theorem stepAt_of_resolveSteps {d : Slice} {count : Nat} {steps : List Int}
    (h : resolveSteps d.steps count = .ok steps) {i : Nat} {step : Int}
    (hi : steps[i]? = some step) : step = d.stepAt i ∧ step ≠ 0 := by
  refine ⟨?_, ((meets_resolveSteps d.steps count).of_ok h).2 step (List.mem_of_getElem? hi)⟩
  unfold stepAt
  cases hsteps : d.steps with
  | none =>
    rw [hsteps] at h
    obtain rfl := Except.ok.inj h
    exact List.eq_of_mem_replicate (List.mem_of_getElem? hi)
  | some given =>
    rw [hsteps] at h
    obtain ⟨_, _, h⟩ := bind_eq_ok_iff.mp h
    obtain ⟨_, _, h⟩ := bind_eq_ok_iff.mp h
    obtain rfl := Except.ok.inj h
    show step = given.getD i 0
    rw [List.getD_eq_getElem?_getD, hi, Option.getD_some]

theorem Covers.within {s : Shape} {taken : List AxisRange} (h : Covers s taken) :
    List.Forall₂ (· ≤ ·) (taken.map AxisRange.extent) s := by
  rw [List.forall₂_map_left_iff]
  refine h.flip.imp ?_
  rintro r extent ⟨hstep, hwithin⟩
  exact AxisRange.extent_le hstep hwithin

theorem selects_of_outShape {d : Slice} {s t : Shape} (h : d.outShape s = .ok t) :
    d.Selects s t := by
  obtain ⟨taken, htaken, h⟩ := bind_eq_ok_iff.mp h
  have hcovers := covers_of_resolveRanges htaken
  rw [hcovers.mapM_count] at h
  obtain rfl := Except.ok.inj h
  obtain ⟨_, hends, htaken⟩ := bind_eq_ok_iff.mp htaken
  obtain ⟨named, hnamed, htaken⟩ := bind_eq_ok_iff.mp htaken
  obtain ⟨steps, hsteps, htaken⟩ := bind_eq_ok_iff.mp htaken
  have hnodup := nodup_of_resolveAxes hnamed
  obtain ⟨hcount, hlt⟩ := (meets_resolveAxes _ _ _).of_ok hnamed
  obtain ⟨hothers, hputs⟩ := getElem?_of_foldlM hnodup
    (fun axis haxis => by rw [List.length_map]; exact hlt axis haxis) htaken
  refine {
    length_eq := by rw [List.length_map, hcovers.length_eq]
    ends_eq := of_require hends
    exists_axis := ?_
    entry_unique := ?_
    sliced := ?_
    kept := ?_
    within := hcovers.within }
  · intro i hi
    exact ⟨named[i], (getElem?_resolveAxes_iff hnamed).mp (List.getElem?_eq_getElem (by omega))⟩
  · intro i j axis hi hj
    have hi := (getElem?_resolveAxes_iff hnamed).mpr hi
    have hj := (getElem?_resolveAxes_iff hnamed).mpr hj
    exact (List.getElem?_inj (List.getElem?_eq_some_iff.mp hi).1 hnodup).mp (hi.trans hj.symm)
  · intro i axis hi
    obtain ⟨r, hr, extent, start, stop, step, hextent, hstart, hstop, hstep, hcut⟩ :=
      hputs ((getElem?_resolveAxes_iff hnamed).mpr hi)
    rw [AxisRange.clamped_exact] at hcut
    obtain rfl := Except.ok.inj hcut
    rw [Nat.zero_add] at hstart hstop hstep
    obtain ⟨rfl, hne⟩ := stepAt_of_resolveSteps hsteps hstep
    have hselected : selected extent start stop (d.stepAt i) = AxisRange.reached
        (AxisRange.limited start extent (d.stepAt i))
        (AxisRange.limited stop extent (d.stepAt i)) (d.stepAt i) := by
      rw [selected, limited_eq, limited_eq]
    refine ⟨extent, (AxisRange.cut start stop (d.stepAt i) extent).extent, start, stop, hextent,
      ?_, hstart, hstop, hne, ?_, ?_⟩
    · rw [List.getElem?_map, hr, Option.map_some]
    · rw [hselected]
      exact AxisRange.encard_reached (.cut start stop _ extent) hne
    · rw [hselected]
      exact AxisRange.reached_subset hne (AxisRange.within_cut start stop hne extent)
  · intro axis hnone
    have hfree : axis ∉ named := by
      intro hmem
      obtain ⟨i, hi⟩ := List.getElem?_of_mem hmem
      exact hnone i ((getElem?_resolveAxes_iff hnamed).mp hi)
    rw [List.getElem?_map, hothers axis hfree, List.getElem?_map, Option.map_map]
    cases s[axis]? with
    | none => rfl
    | some extent => exact congrArg some (AxisRange.extent_full extent)

end Slice

namespace Graph

/-- What is inferred of a slice that is accepted is what its bounds and steps select of the input. -/
theorem slice_selects {g : Graph} {d : Slice} {ids : List TensorId} {inferred : Inferred}
    (h : g.infer (.slice d) ids = .ok inferred) :
    ∃ x t, g.typesOf? ids = some [x] ∧ inferred.outputs = [⟨t, x.dtype⟩] ∧ d.Selects x.shape t := by
  have hwrap : Operator.Wraps Operator.slice := ⟨fun _ _ => rfl, fun _ _ hole => hole⟩
  obtain ⟨types, d', htypes, hinfers, _⟩ :=
    (infer_eq_ok_iff_infers hwrap fun _ _ => ⟨_, rfl⟩).mp h
  obtain ⟨x, rfl⟩ := Arity.eq_singleton_of_accepts hinfers.accepts
  obtain ⟨t, ht, houtputs⟩ := hinfers.exists_output (r := d'.outShape x.shape) rfl rfl
  -- The attributes as they are given decide again when the output is inferred.
  obtain ⟨_, _, hd'⟩ := bind_eq_ok_iff.mp (Preparation.done.inj hinfers.prepare_eq)
  obtain ⟨_, _, hd'⟩ := bind_eq_ok_iff.mp hd'
  obtain rfl := Except.ok.inj hd'
  exact ⟨x, t, htypes, houtputs, Slice.selects_of_outShape (d := d) ht⟩

/-- Five rows of four columns, with nothing in them. -/
def hollow : Graph := (ofCalls [.tensor ⟨[5, 4, 0], .float32⟩]).1

/-- Every other row from the last one on, and columns from the third up to the first: three rows are
selected, and no column. -/
theorem slice_selects_hollow :
    let d : Slice :=
      { starts := [-1, 3], ends := [-100, 1], axes := some [-3, 1], steps := some [-2, 1] }
    ∃ inferred, hollow.infer (.slice d) [⟨0⟩] = .ok inferred ∧
      inferred.outputs = [⟨[3, 0, 0], .float32⟩] ∧ d.Selects [5, 4, 0] [3, 0, 0] ∧
      (Slice.selected 5 (-1) (-100) (-2)).encard = 3 ∧
      Slice.selected 5 (-1) (-100) (-2) ⊆ Set.Ico 0 5 := by
  intro d
  have hinfer : hollow.infer (.slice d) [⟨0⟩] = .ok ⟨.slice { d with
      ranges := [⟨4, -1, -2⟩, ⟨3, 1, 1⟩, ⟨0, 0, 1⟩] }, [⟨[3, 0, 0], .float32⟩]⟩ := by cbv
  obtain ⟨x, t, hx, ht, hselects⟩ := slice_selects hinfer
  obtain rfl : x = ⟨[5, 4, 0], .float32⟩ :=
    List.singleton_inj.mp (Option.some.inj (hx.symm.trans rfl))
  obtain rfl : [3, 0, 0] = t := congrArg TensorType.shape (List.singleton_inj.mp ht)
  have hrows : d.Names 3 0 0 := ⟨by decide, by decide, .inr rfl⟩
  obtain ⟨extent, out, start, stop, hextent, hout, hstart, hstop, _, hcount, hsub⟩ :=
    hselects.sliced hrows
  obtain rfl := Option.some.inj hextent
  obtain rfl := Option.some.inj hout
  obtain rfl := Option.some.inj hstart
  obtain rfl := Option.some.inj hstop
  exact ⟨_, hinfer, rfl, hselects, hcount, hsub⟩

end Graph

end DataflowCost
