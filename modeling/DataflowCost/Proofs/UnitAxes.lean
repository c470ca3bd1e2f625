import DataflowCost.Proofs.Infers
import DataflowCost.Proofs.Resolution.Layout

/-! Unit axes that are put in and taken out again. An output lays out the extents of its input over the
positions that are not listed, and to leave out the listed ones is the way back. -/
namespace DataflowCost

open Inference

namespace Unsqueeze

/-- A shape over positions that has a one at each listed position, and at the others the extents of another
shape, all of them and in order. -/
inductive LaysOut (axes : List Nat) : List Nat → Shape → Shape → Prop
  | nil : LaysOut axes [] [] []
  | listed {position : Nat} {positions : List Nat} {s t : Shape} :
    position ∈ axes → LaysOut axes positions s t →
      LaysOut axes (position :: positions) s (1 :: t)
  | kept {position : Nat} {positions : List Nat} {extent : Nat} {s t : Shape} :
    position ∉ axes → LaysOut axes positions s t →
      LaysOut axes (position :: positions) (extent :: s) (extent :: t)

variable {axes positions : List Nat} {s t : Shape}

namespace LaysOut

theorem interleave_eq (h : LaysOut axes positions s t) : interleave axes positions s = t := by
  induction h with
  | nil => rfl
  | listed hlisted _ ih => rw [interleave_of_mem hlisted, ih]
  | kept hkept _ ih => rw [interleave_of_not_mem hkept, ih]

theorem length_eq (h : LaysOut axes positions s t) :
    s.length = positions.countP fun position => position ∉ axes := by
  induction h with
  | nil => rfl
  | listed hlisted _ ih => rw [List.countP_cons_of_neg (by simpa using hlisted), ih]
  | kept hkept _ ih => rw [List.countP_cons_of_pos (by simpa using hkept), List.length_cons, ih]

/-- As many extents as positions that are not listed can be laid out. -/
theorem exists_of_length (axes positions : List Nat) (s : Shape)
    (h : s.length = positions.countP fun position => position ∉ axes) :
    ∃ t, LaysOut axes positions s t := by
  -- By induction on the positions: one that is not listed takes an extent, and there is one to take.
  induction positions generalizing s with
  | nil =>
    obtain rfl := List.length_eq_zero_iff.mp h
    exact ⟨[], .nil⟩
  | cons position positions ih =>
    by_cases hlisted : position ∈ axes
    · rw [List.countP_cons_of_neg (by simpa using hlisted)] at h
      obtain ⟨t, ht⟩ := ih s h
      exact ⟨1 :: t, .listed hlisted ht⟩
    · rw [List.countP_cons_of_pos (by simpa using hlisted)] at h
      obtain ⟨extent, s, rfl⟩ := List.exists_cons_of_length_eq_add_one h
      obtain ⟨t, ht⟩ := ih s (Nat.succ.inj h)
      exact ⟨extent :: t, .kept hlisted ht⟩

end LaysOut

/-- To lay extents out is the reverse of leaving positions out that hold ones. -/
theorem laysOut_iff : LaysOut axes positions s t ↔ t.length = positions.length ∧
    ((t.zip positions).filter fun (_, position) => !axes.contains position).map (·.1) = s ∧
    ∀ entry ∈ t.zip positions, entry.2 ∈ axes → entry.1 = 1 := by
  constructor
  · intro h
    induction h with
    | nil => exact ⟨rfl, rfl, nofun⟩
    | listed hlisted _ ih =>
      obtain ⟨hlen, hkept, hunit⟩ := ih
      refine ⟨congrArg Nat.succ hlen, ?_, List.forall_mem_cons.mpr ⟨fun _ => rfl, hunit⟩⟩
      rw [List.zip_cons_cons, List.filter_cons_of_neg (by simpa using hlisted), hkept]
    | kept hkept _ ih =>
      obtain ⟨hlen, hrest, hunit⟩ := ih
      refine ⟨congrArg Nat.succ hlen, ?_,
        List.forall_mem_cons.mpr ⟨fun hlisted => absurd hlisted hkept, hunit⟩⟩
      rw [List.zip_cons_cons, List.filter_cons_of_pos (by simpa using hkept), List.map_cons, hrest]
  · rintro ⟨hlen, rfl, hunit⟩
    induction positions generalizing t with
    | nil =>
      obtain rfl := List.length_eq_zero_iff.mp hlen
      exact .nil
    | cons position positions ih =>
      obtain ⟨extent, t, rfl⟩ := List.exists_cons_of_length_eq_add_one hlen
      rw [List.zip_cons_cons] at hunit ⊢
      obtain ⟨hfirst, hrest⟩ := List.forall_mem_cons.mp hunit
      have ht := ih (Nat.succ.inj hlen) hrest
      by_cases hlisted : position ∈ axes
      · rw [List.filter_cons_of_neg (by simpa using hlisted)]
        obtain rfl : extent = 1 := hfirst hlisted
        exact .listed hlisted ht
      · rw [List.filter_cons_of_pos (by simpa using hlisted), List.map_cons]
        exact .kept hlisted ht

theorem laysOut_range_iff : LaysOut axes (List.range t.length) s t ↔
    Squeeze.without axes t = s ∧ ∀ axis ∈ axes, axis < t.length → t[axis]? = some 1 := by
  have hzip : t.zip (List.range t.length) = t.zipIdx := by
    rw [List.zipIdx_eq_zip_range', List.range_eq_range']
  rw [laysOut_iff, hzip, List.length_range, eq_self_iff_true, true_and]
  refine and_congr_right fun _ => ?_
  constructor
  · intro h axis hlisted hlt
    have hmem : (t[axis], axis) ∈ t.zipIdx :=
      List.mk_mem_zipIdx_iff_getElem?.mpr (List.getElem?_eq_getElem hlt)
    have hunit : t[axis] = 1 := h _ hmem hlisted
    rw [List.getElem?_eq_getElem hlt, hunit]
  · rintro h ⟨extent, axis⟩ hmem hlisted
    have hextent : t[axis]? = some extent := List.mk_mem_zipIdx_iff_getElem?.mp hmem
    have hlt := (List.getElem?_eq_some_iff.mp hextent).1
    exact Option.some.inj (hextent.symm.trans (h axis hlisted hlt))

/-- The positions that no reference names and the references together are all positions. -/
theorem keptBefore_of_resolveSet {rank : Nat} {given : List Int}
    (h : Axis.resolveSet rank given = .ok axes) :
    Shape.keptBefore axes rank + given.length = rank := by
  obtain ⟨hascending, hlt⟩ := Axis.ascending_of_resolveSet h
  rw [← Axis.length_resolveSet h]
  exact Shape.keptBefore_add_length (hascending.imp Nat.ne_of_lt) hlt

/-- Every position that is not listed gets an extent, and every extent gets a position. -/
theorem exists_laysOut {given : List Int}
    (h : Axis.resolveSet (s.length + given.length) given = .ok axes) :
    ∃ t, interleave axes (List.range (s.length + given.length)) s = t ∧
      s.length + given.length = t.length ∧ LaysOut axes (List.range t.length) s t := by
  have hkept : s.length = Shape.keptBefore axes (s.length + given.length) :=
    (Nat.add_right_cancel (keptBefore_of_resolveSet h)).symm
  obtain ⟨t, ht⟩ := LaysOut.exists_of_length axes (List.range (s.length + given.length)) s hkept
  have hlen : t.length = s.length + given.length := (laysOut_iff.mp ht).1.trans List.length_range
  exact ⟨t, ht.interleave_eq, hlen.symm, hlen ▸ ht⟩

end Unsqueeze

namespace Squeeze

variable {given : List Int} {axes : List Nat} {s : Shape}

/-- Axes that are named are taken out if they are unit axes. -/
theorem resolveAxes_eq_ok_iff (hne : given ≠ []) : resolveAxes given s = .ok axes ↔
    Axis.resolveSet s.length given = .ok axes ∧ ∀ axis ∈ axes, s[axis]? = some 1 := by
  have hnamed : resolveAxes given s = (do
      let axes ← Axis.resolveSet s.length given
      axes.forM fun axis => do
        let extent ← present s[axis]?
        require (extent = 1) (.squeezeExtent axis extent)
      return axes) := if_neg (by simpa using hne)
  constructor
  · intro h
    refine ⟨?_, (unit_of_resolveAxes h).2⟩
    rw [hnamed] at h
    obtain ⟨named, hresolve, h⟩ := bind_eq_ok_iff.mp h
    obtain ⟨_, _, h⟩ := bind_eq_ok_iff.mp h
    rwa [Except.ok.inj h] at hresolve
  · rintro ⟨hresolve, hunit⟩
    have hunits : (axes.forM fun axis => do
        let extent ← present s[axis]?
        require (extent = 1) (.squeezeExtent axis extent)) = .ok () := by
      refine forM_eq_ok fun axis haxis => ?_
      rw [hunit axis haxis]
      rfl
    rw [hnamed, hresolve]
    apply bind_eq_ok_iff.mpr
    refine ⟨axes, rfl, ?_⟩
    rw [hunits]
    rfl

/-- What a shape becomes when ones are laid out in it is squeezed back along the axes of the ones. -/
theorem without_of_laysOut {t : Shape} (hne : given ≠ [])
    (hresolve : Axis.resolveSet t.length given = .ok axes)
    (hout : Unsqueeze.LaysOut axes (List.range t.length) s t) :
    resolveAxes given t = .ok axes ∧ without axes t = s := by
  obtain ⟨hback, hunit⟩ := Unsqueeze.laysOut_range_iff.mp hout
  have hlt := (Axis.ascending_of_resolveSet hresolve).2
  exact ⟨(resolveAxes_eq_ok_iff hne).mpr ⟨hresolve, fun axis h => hunit axis h (hlt axis h)⟩, hback⟩

/-- A shape lays out again what is left of it when unit axes are taken out, and has as many axes as what is
left and the list of axes have together. -/
theorem laysOut_of_resolveAxes (hne : given ≠ []) (h : resolveAxes given s = .ok axes) :
    (without axes s).length + given.length = s.length ∧
    Axis.resolveSet s.length given = .ok axes ∧
    Unsqueeze.LaysOut axes (List.range s.length) (without axes s) s := by
  obtain ⟨hresolve, hunit⟩ := (resolveAxes_eq_ok_iff hne).mp h
  have hout : Unsqueeze.LaysOut axes (List.range s.length) (without axes s) s :=
    Unsqueeze.laysOut_range_iff.mpr ⟨rfl, fun axis hlisted _ => hunit axis hlisted⟩
  refine ⟨?_, hresolve, hout⟩
  rw [hout.length_eq]
  exact Unsqueeze.keptBefore_of_resolveSet hresolve

end Squeeze

namespace Graph

variable {g : Graph} {ids : List TensorId} {x : TensorType} {inferred : Inferred}

theorem infer_squeeze_eq [Build] (d : Squeeze) (htypes : g.typesOf? ids = some [x]) :
    g.infer (.squeeze d) ids = Inference.within .squeeze [x] (do
      let axes ← Squeeze.resolveAxes d.axes x.shape
      return ⟨.squeeze { d with resolved := axes, rank := x.rank },
        [⟨Squeeze.without axes x.shape, x.dtype⟩]⟩) := by
  have hwrap : Operator.Wraps Operator.squeeze := ⟨fun _ _ => rfl, fun _ _ hole => hole⟩
  have hshapes (d' : Squeeze) : Family.outShapes d' [x] = (do
      return [← Squeeze.resolveAxes d'.axes x.shape >>= fun axes =>
        .ok (Squeeze.without axes x.shape)]) := by
    rw [bind_assoc]
    rfl
  exact infer_eq_of_resolved_again hwrap htypes rfl
    (f := fun given : Squeeze => Squeeze.resolveAxes given.axes x.shape)
    (s := fun given resolved => { given with resolved, rank := x.rank }) rfl (fun _ => rfl) hshapes
    fun _ => rfl

theorem infer_squeeze_eq_ok_iff [Build] {d : Squeeze} (htypes : g.typesOf? ids = some [x]) :
    g.infer (.squeeze d) ids = .ok inferred ↔ ∃ axes, Squeeze.resolveAxes d.axes x.shape = .ok axes ∧
      inferred = ⟨.squeeze { d with resolved := axes, rank := x.rank },
        [⟨Squeeze.without axes x.shape, x.dtype⟩]⟩ := by
  rw [infer_squeeze_eq d htypes, within_eq_ok_iff, bind_eq_ok_iff]
  exact exists_congr fun axes => and_congr_right fun _ => ok_eq_ok_iff

theorem infer_unsqueeze_eq [Build] (d : Unsqueeze) (htypes : g.typesOf? ids = some [x]) :
    g.infer (.unsqueeze d) ids = Inference.within .unsqueeze [x] (do
      let axes ← Axis.resolveSet (x.rank + d.axes.length) d.axes
      return ⟨.unsqueeze { d with resolved := axes, outRank := x.rank + d.axes.length },
        [⟨Unsqueeze.interleave axes (List.range (x.rank + d.axes.length)) x.shape, x.dtype⟩]⟩) := by
  have hwrap : Operator.Wraps Operator.unsqueeze := ⟨fun _ _ => rfl, fun _ _ hole => hole⟩
  exact infer_eq_of_resolved_again hwrap htypes rfl
    (f := fun given : Unsqueeze => Axis.resolveSet (x.rank + given.axes.length) given.axes)
    (s := fun given resolved => { given with resolved, outRank := x.rank + given.axes.length })
    (k := fun given axes =>
      .ok (Unsqueeze.interleave axes (List.range (x.rank + given.axes.length)) x.shape))
    rfl (fun _ => rfl) (fun _ => rfl) fun _ => rfl

theorem infer_unsqueeze_eq_ok_iff [Build] {d : Unsqueeze} (htypes : g.typesOf? ids = some [x]) :
    g.infer (.unsqueeze d) ids = .ok inferred ↔ ∃ axes,
      Axis.resolveSet (x.rank + d.axes.length) d.axes = .ok axes ∧
      inferred = ⟨.unsqueeze { d with resolved := axes, outRank := x.rank + d.axes.length },
        [⟨Unsqueeze.interleave axes (List.range (x.rank + d.axes.length)) x.shape, x.dtype⟩]⟩ := by
  rw [infer_unsqueeze_eq d htypes, within_eq_ok_iff, bind_eq_ok_iff]
  exact exists_congr fun axes => and_congr_right fun _ => ok_eq_ok_iff

/-- Unit axes that are put in are taken out again by the axes they were put in with, and the other way
round. Whichever axes are put in, no position is without an extent or a listed axis to fill it, and no
extent is left over. -/
theorem squeeze_inverts_unsqueeze [Build] {u : Unsqueeze} {q : Squeeze} (haxes : q.axes = u.axes)
    (htypes : g.typesOf? ids = some [x]) :
    (∀ {inferred}, g.infer (.unsqueeze u) ids = .ok inferred → ∃ y axes, inferred.outputs = [y] ∧
      Axis.resolveSet y.rank u.axes = .ok axes ∧
      Unsqueeze.LaysOut axes (List.range y.rank) x.shape y.shape ∧
      (u.axes ≠ [] → ∀ {g' : Graph} {ids' : List TensorId}, g'.typesOf? ids' = some [y] →
        ∃ op, g'.infer (.squeeze q) ids' = .ok ⟨op, [x]⟩)) ∧
    (u.axes ≠ [] → ∀ {inferred}, g.infer (.squeeze q) ids = .ok inferred →
      ∃ y, inferred.outputs = [y] ∧
        ∀ {g' : Graph} {ids' : List TensorId}, g'.typesOf? ids' = some [y] →
          ∃ op, g'.infer (.unsqueeze u) ids' = .ok ⟨op, [x]⟩) := by
  constructor
  · intro inferred h
    obtain ⟨axes, hresolve, rfl⟩ := (infer_unsqueeze_eq_ok_iff htypes).mp h
    obtain ⟨t, ht, hrank, hout⟩ := Unsqueeze.exists_laysOut hresolve
    -- References count from the rank of the output, at which they are squeezed again.
    rw [TensorType.rank, hrank] at hresolve
    refine ⟨⟨t, x.dtype⟩, axes, ?_, hresolve, hout, fun hne g' ids' htypes' => ?_⟩
    · rw [TensorType.rank, ht]
    · obtain ⟨hagain, hback⟩ := Squeeze.without_of_laysOut hne hresolve hout
      rw [← haxes] at hagain
      refine ⟨.squeeze { q with resolved := axes, rank := t.length },
        (infer_squeeze_eq_ok_iff htypes').mpr ⟨axes, hagain, ?_⟩⟩
      rw [hback]
      rfl
  · intro hne inferred h
    obtain ⟨axes, haxes', rfl⟩ := (infer_squeeze_eq_ok_iff htypes).mp h
    rw [haxes] at haxes'
    obtain ⟨hrank, hresolve, hout⟩ := Squeeze.laysOut_of_resolveAxes hne haxes'
    refine ⟨_, rfl, fun {g' ids'} htypes' => ?_⟩
    refine ⟨.unsqueeze { u with resolved := axes, outRank := x.shape.length },
      (infer_unsqueeze_eq_ok_iff htypes').mpr ⟨axes, ?_, ?_⟩⟩
    · rw [TensorType.rank, hrank]
      exact hresolve
    · rw [TensorType.rank, hrank, hout.interleave_eq]

section

open scoped WrappingArithmetic

/-- A matrix, and the same matrix between two unit axes. -/
def framed : Graph := (ofCalls [.tensor ⟨[3, 4], .float32⟩, .tensor ⟨[1, 3, 4, 1], .float32⟩]).1

/-- The last axis and the first, named in that order, frame the matrix and free it. -/
theorem squeeze_inverts_unsqueeze_framed :
    let u : Unsqueeze := { axes := [-1, 0] }
    let q : Squeeze := { axes := [-1, 0] }
    framed.typesOf? [⟨0⟩] = some [⟨[3, 4], .float32⟩] ∧
      framed.typesOf? [⟨1⟩] = some [⟨[1, 3, 4, 1], .float32⟩] ∧
      framed.infer (.unsqueeze u) [⟨0⟩] =
        .ok ⟨.unsqueeze { u with resolved := [0, 3], outRank := 4 }, [⟨[1, 3, 4, 1], .float32⟩]⟩ ∧
      (∃ op, framed.infer (.squeeze q) [⟨1⟩] = .ok ⟨op, [⟨[3, 4], .float32⟩]⟩) ∧
      ∃ op, framed.infer (.unsqueeze u) [⟨0⟩] = .ok ⟨op, [⟨[1, 3, 4, 1], .float32⟩]⟩ := by
  intro u q
  have hne : u.axes ≠ [] := by decide
  have htypes : framed.typesOf? [⟨0⟩] = some [⟨[3, 4], .float32⟩] := by rfl
  have htypes' : framed.typesOf? [⟨1⟩] = some [⟨[1, 3, 4, 1], .float32⟩] := by rfl
  have hinfer : framed.infer (.unsqueeze u) [⟨0⟩] =
      .ok ⟨.unsqueeze { u with resolved := [0, 3], outRank := 4 }, [⟨[1, 3, 4, 1], .float32⟩]⟩ := by
    cbv
  obtain ⟨y, _, hy, _, _, hback⟩ := (squeeze_inverts_unsqueeze (q := q) rfl htypes).1 hinfer
  obtain rfl := List.singleton_inj.mp hy
  obtain ⟨op, hsqueeze⟩ := hback hne htypes'
  obtain ⟨z, hz, hforth⟩ := (squeeze_inverts_unsqueeze (u := u) rfl htypes').2 hne hsqueeze
  obtain rfl := List.singleton_inj.mp hz
  exact ⟨htypes, htypes', hinfer, ⟨op, hsqueeze⟩, hforth htypes⟩

end

end Graph

end DataflowCost
