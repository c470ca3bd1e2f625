import DataflowCost.Proofs.AxisSets
import DataflowCost.Proofs.Extents

/-! Reductions one after the other and in their two output forms. What is inferred depends on the set of
axes alone: a union is reduced in one step or in two, and without its unit axes the one form is the other. -/
namespace DataflowCost

open Inference
open scoped ExactArithmetic

namespace Shape

variable {axes axes' : List Nat} {s : Shape}

/-- The shape with one in place of each listed extent. -/
def collapsed (s : Shape) (axes : List Nat) : Shape :=
  tabulate s.length fun axis => if axis ∈ axes then 1 else s.extentAt axis

@[simp] theorem length_collapsed (s : Shape) (axes : List Nat) :
    (s.collapsed axes).length = s.length :=
  length_tabulate _ _

theorem extentAt_collapsed {axis : Nat} (h : axis < s.length) :
    (s.collapsed axes).extentAt axis = if axis ∈ axes then 1 else s.extentAt axis :=
  extentAt_tabulate h _

theorem collapsed_collapsed (s : Shape) (axes axes' : List Nat) :
    (s.collapsed axes).collapsed axes' = s.collapsed (axes ++ axes') := by
  rw [collapsed, length_collapsed]
  refine List.map_congr_left fun axis haxis => ?_
  rw [extentAt_collapsed (List.mem_range.mp haxis)]
  by_cases hlast : axis ∈ axes' <;> simp [hlast]

theorem collapsed_congr (h : ∀ axis < s.length, axis ∈ axes ↔ axis ∈ axes') :
    s.collapsed axes = s.collapsed axes' := by
  refine List.map_congr_left fun axis haxis => ?_
  simp only [h axis (List.mem_range.mp haxis)]

/-- The extents that are left are the same before and after. -/
theorem dropping_collapsed (s : Shape) (axes : List Nat) :
    (s.collapsed axes).dropping axes = s.dropping axes := by
  rw [dropping, length_collapsed]
  refine List.map_congr_left fun axis haxis => ?_
  obtain ⟨hlt, hkept⟩ := List.mem_filter.mp haxis
  rw [extentAt_collapsed (List.mem_range.mp hlt), if_neg (of_decide_eq_true hkept)]

/-- The extents of the axes that are not listed, or a single one if all are listed. -/
def leaving (s : Shape) (axes : List Nat) : Shape :=
  if s.dropping axes = [] then [1] else s.dropping axes

theorem size_leaving (s : Shape) (axes : List Nat) :
    (s.leaving axes).size = (s.dropping axes).size := by
  unfold leaving
  by_cases hnil : s.dropping axes = []
  · rw [if_pos hnil, hnil]
    rfl
  · rw [if_neg hnil]

theorem dropping_eq_nil_iff : s.dropping axes = [] ↔ ∀ axis < s.length, axis ∈ axes := by
  simp [dropping, List.filter_eq_nil_iff]

theorem leaving_eq_unit (h : ∀ axis < s.length, axis ∈ axes) : s.leaving axes = [1] :=
  if_pos (dropping_eq_nil_iff.mpr h)

theorem leaving_eq_dropping (h : ∃ axis < s.length, axis ∉ axes) :
    s.leaving axes = s.dropping axes := by
  refine if_neg fun hnil => ?_
  obtain ⟨axis, hlt, hkept⟩ := h
  exact hkept (dropping_eq_nil_iff.mp hnil axis hlt)

theorem getElem?_collapsed (hlt : ∀ axis ∈ axes, axis < s.length) :
    ∀ axis ∈ axes, (s.collapsed axes)[axis]? = some 1 := by
  intro axis hlisted
  have haxis := hlt axis hlisted
  rw [getElem?_eq_extentAt (by rwa [length_collapsed]), extentAt_collapsed haxis, if_pos hlisted]

theorem size_dropping_eq_size_collapsed (hlt : ∀ axis ∈ axes, axis < s.length) :
    (s.dropping axes).size = (s.collapsed axes).size := by
  rw [← dropping_collapsed, size_dropping (getElem?_collapsed hlt)]

/-- The listed extents are the missing factor. -/
theorem size_collapsed_mul (hnodup : axes.Nodup) (hlt : ∀ axis ∈ axes, axis < s.length) :
    (s.collapsed axes).size * (axes.map s.extentAt).prod = s.size := by
  -- Both factors are brought to products over all axes, each with one where the other has the extent.
  have hothers (axis : Nat) (h : decide (axis ∈ axes) = false) :
      (if axis ∈ axes then s.extentAt axis else 1) = 1 := if_neg (of_decide_eq_false h)
  have hlisted : (axes.map s.extentAt).prod =
      ((List.range s.length).map fun axis => if axis ∈ axes then s.extentAt axis else 1).prod := by
    rw [← ((filter_mem_range_perm hnodup hlt).map _).prod_eq,
      ← prod_map_filter fun axis _ => hothers axis]
    refine congrArg List.prod (List.map_congr_left fun axis haxis => ?_)
    rw [if_pos (of_decide_eq_true (List.mem_filter.mp haxis).2)]
  rw [hlisted, size_eq_prod, collapsed, tabulate, ← List.prod_map_mul, size_eq_prod_range]
  refine congrArg List.prod (List.map_congr_left fun axis _ => ?_)
  by_cases hmem : axis ∈ axes <;> simp [hmem]

end Shape

namespace Reduce

variable {d e u : Reduce} {rank : Nat} {axes : List Nat}

/-- The axis is one of those that the definition reduces: it is listed, from the first axis or from behind the
last, or no list is given. -/
def Names (d : Reduce) (rank axis : Nat) : Prop :=
  axis < rank ∧ match d.axes with
    | none => True
    | some axes => (axis : Int) ∈ axes ∨ (axis - rank : Int) ∈ axes

theorem ascending_of_axesOn (h : d.axesOn rank = .ok axes) : axes.Pairwise (· < ·) := by
  have hresolve : d.resolve rank = .ok { d with resolved := axes } := by rw [resolve_eq, h]; rfl
  exact (ascending_of_resolve hresolve).1

theorem axesOn_eq_ok (h : d.axesOn rank = .ok axes) :
    axes.Nodup ∧ ∀ axis, axis ∈ axes ↔ d.Names rank axis := by
  obtain ⟨_, h⟩ := require_bind_eq_ok_iff.mp h
  unfold Names
  cases haxes : d.axes with
  | none =>
    rw [haxes] at h
    obtain rfl := Except.ok.inj h
    exact ⟨List.nodup_range, fun axis => by simp⟩
  | some given =>
    rw [haxes] at h
    obtain ⟨hascending, hlt⟩ := Axis.ascending_of_resolveSet h
    refine ⟨hascending.imp Nat.ne_of_lt, fun axis => ?_⟩
    rw [Axis.mem_resolveSet_iff h]
    -- An axis has two names, and these are all that wrap to it.
    have hname {a : Int} (hlt : axis < rank) :
        Axis.wrap a rank = axis ↔ a = axis ∨ a = axis - rank := by
      unfold Axis.wrap
      split <;> omega
    constructor
    · rintro ⟨a, ha, hwrapped⟩
      have hlt : axis < rank := hlt axis ((Axis.mem_resolveSet_iff h axis).mpr ⟨a, ha, hwrapped⟩)
      obtain rfl | rfl := (hname hlt).mp hwrapped
      · exact ⟨hlt, .inl ha⟩
      · exact ⟨hlt, .inr ha⟩
    · rintro ⟨hlt, ha | ha⟩
      · exact ⟨_, ha, (hname hlt).mpr (.inl rfl)⟩
      · exact ⟨_, ha, (hname hlt).mpr (.inr rfl)⟩

/-- One definition reduces the axes of two others. -/
def Joins (rank : Nat) (d e u : Reduce) : Prop :=
  ∀ axis, u.Names rank axis ↔ d.Names rank axis ∨ e.Names rank axis

/-- What two definitions reduce can be listed for a single one. -/
theorem exists_joins {axes' : List Nat} (h : d.axesOn rank = .ok axes)
    (h' : e.axesOn rank = .ok axes') :
    ∃ u, u.keepDims = true ∧ Joins rank d e u ∧ ∃ joined, u.axesOn rank = .ok joined := by
  obtain ⟨_, hnames⟩ := axesOn_eq_ok h
  obtain ⟨_, hnames'⟩ := axesOn_eq_ok h'
  -- The union in order, with every axis counted from the first.
  let named := (List.range rank).filter fun axis => axis ∈ axes ∨ axis ∈ axes'
  have hnamed (axis : Nat) : axis ∈ named ↔ d.Names rank axis ∨ e.Names rank axis := by
    rw [List.mem_filter, decide_eq_true_eq, hnames, hnames', List.mem_range]
    exact and_iff_right_of_imp fun h => h.elim And.left And.left
  have hlt (axis : Nat) (haxis : axis ∈ named) : axis < rank :=
    List.mem_range.mp (List.mem_filter.mp haxis).1
  have hresolve : Axis.resolveEach rank (named.map Nat.cast) = .ok named :=
    Axis.resolveEach_eq_ok_iff.mpr
      ⟨Axis.map_wrap_natCast rank named, hlt, List.nodup_range.filter _⟩
  have hreduction := (require_bind_eq_ok_iff.mp h).1
  refine ⟨⟨d.kind, some (named.map Nat.cast), true, []⟩, rfl, fun axis => ?_, _,
    require_bind_eq_ok_iff.mpr ⟨hreduction, bind_eq_ok_iff.mpr ⟨_, hresolve, rfl⟩⟩⟩
  rw [← hnamed]
  constructor
  · rintro ⟨hlt, hmem | hmem⟩
    · exact (List.mem_map_of_injective Nat.cast_injective).mp hmem
    · obtain ⟨position, _, hposition⟩ := List.mem_map.mp hmem
      omega
  · intro haxis
    exact ⟨hlt axis haxis, .inl (List.mem_map_of_mem haxis)⟩

/-- The element counts of the two outputs for a reduction over the given axes. -/
structure Counts (axes : List Nat) (x kept dropped : TensorType) : Prop where
  size_eq : kept.size = dropped.size
  size_mul : kept.size * (axes.map x.shape.extentAt).prod = x.size
  unit : (∀ axis < x.rank, axis ∈ axes) → dropped.shape = [1]

theorem outShape_eq_ite (hascending : d.resolved.Pairwise (· < ·)) (s : Shape) : d.outShape s =
    if d.keepDims then s.collapsed d.resolved else s.leaving d.resolved := by
  rw [← List.singleton_inj, outShape_eq hascending, Resolution.shapes]
  by_cases hkeep : d.keepDims = true
  · rw [if_pos hkeep, if_pos hkeep, Shape.collapsed]
  · rw [if_neg hkeep, if_neg hkeep, Shape.leaving]
    by_cases hnil : s.dropping d.resolved = [] <;> simp only [hnil, if_true, if_false]

theorem resolveSet_of_axesOn {given : List Int} (hgiven : d.axes = some given)
    (h : d.axesOn rank = .ok axes) : Axis.resolveSet rank given = .ok axes := by
  simpa only [hgiven] using (require_bind_eq_ok_iff.mp h).2

end Reduce

namespace Graph

variable {g : Graph} {ids : List TensorId} {x : TensorType} {d e u : Reduce} {axes : List Nat}

theorem reduce_maps [Build] (h : d.axesOn x.rank = .ok axes) : Operator.Maps (.reduce d) x
    ⟨if d.keepDims then x.shape.collapsed axes else x.shape.leaving axes, x.dtype⟩ := by
  intro g ids htypes
  refine ⟨.reduce { d with resolved := axes }, ?_⟩
  rw [infer_reduce_eq d htypes, within_eq_ok_iff]
  refine bind_eq_ok_iff.mpr ⟨axes, h, ?_⟩
  rw [Reduce.outShape_eq_ite (Reduce.ascending_of_axesOn h)]
  rfl

theorem exists_axesOn [Build] {inferred : Inferred} (htypes : g.typesOf? ids = some [x])
    (h : g.infer (.reduce d) ids = .ok inferred) : ∃ axes, d.axesOn x.rank = .ok axes := by
  rw [infer_reduce_eq d htypes, within_eq_ok_iff] at h
  obtain ⟨axes, haxes, _⟩ := bind_eq_ok_iff.mp h
  exact ⟨axes, haxes⟩

/-- A reduction that keeps its axes infers the collapsed shape. -/
theorem reduce_maps_collapsed [Build] (h : d.axesOn x.rank = .ok axes) (hkeep : d.keepDims = true) :
    Operator.Maps (.reduce d) x ⟨x.shape.collapsed axes, x.dtype⟩ := by
  have hmaps := reduce_maps h
  rwa [if_pos hkeep] at hmaps

/-- A union may be reduced in two steps. -/
theorem reduce_maps_of_joins [Build] {axes' : List Nat} (hd : d.axesOn x.rank = .ok axes)
    (he : e.axesOn x.rank = .ok axes') (hkeep : u.keepDims = true) {joined : List Nat}
    (hu : u.axesOn x.rank = .ok joined) (h : Reduce.Joins x.rank d e u) :
    Operator.Maps (.reduce u) x ⟨(x.shape.collapsed axes).collapsed axes', x.dtype⟩ := by
  have hmem (axis : Nat) : axis ∈ joined ↔ axis ∈ axes ++ axes' := by
    rw [(Reduce.axesOn_eq_ok hu).2, h, List.mem_append, (Reduce.axesOn_eq_ok hd).2,
      (Reduce.axesOn_eq_ok he).2]
  rw [Shape.collapsed_collapsed, ← Shape.collapsed_congr fun axis _ => hmem axis]
  exact reduce_maps_collapsed hu hkeep

/-- Without the ones that stand for its axes, a reduction that keeps them is one that drops them. -/
theorem squeeze_maps_dropping [Build] {q : Squeeze} (hne : q.axes ≠ [])
    (h : Axis.resolveSet x.rank q.axes = .ok axes) : Operator.Maps (.squeeze q)
      ⟨x.shape.collapsed axes, x.dtype⟩ ⟨x.shape.dropping axes, x.dtype⟩ := by
  intro g ids htypes
  -- Only axes of one position are squeezed, and the reduction has left such.
  have hunit : Squeeze.resolveAxes q.axes (x.shape.collapsed axes) = .ok axes := by
    refine (Squeeze.resolveAxes_eq_ok_iff hne).mpr ⟨?_, Shape.getElem?_collapsed ?_⟩
    · rwa [Shape.length_collapsed]
    · exact (Axis.ascending_of_resolveSet h).2
  refine ⟨.squeeze { q with resolved := axes, rank := (x.shape.collapsed axes).length }, ?_⟩
  rw [infer_squeeze_eq q htypes, within_eq_ok_iff]
  refine bind_eq_ok_iff.mpr ⟨axes, hunit, ?_⟩
  rw [← Shape.dropping_collapsed, ← Shape.filter_zipIdx_eq_dropping]
  rfl

/-- Reductions over sets of axes. The two output forms have as many elements as each other, which times the
reduced extents are those of the input; a unit is left where no axis is; and to squeeze what keeps the axes
is to drop them. What two reductions do one after the other a single one does over the union. -/
theorem reductions_compose [Build] {inferred : Inferred} (htypes : g.typesOf? ids = some [x])
    (h : g.infer (.reduce d) ids = .ok inferred) :
    ∃ (axes : List Nat) (kept dropped : TensorType),
      (∀ axis, axis ∈ axes ↔ d.Names x.rank axis) ∧
      Operator.Maps (.reduce { d with keepDims := true }) x kept ∧
      Operator.Maps (.reduce { d with keepDims := false }) x dropped ∧
      Reduce.Counts axes x kept dropped ∧
      (∀ {q : Squeeze} {given : List Int} {σ : Equiv.Perm Nat}, d.axes = some given → given ≠ [] →
        Axis.Respells x.rank σ given q.axes → (∃ axis < x.rank, axis ∉ axes) →
          Operator.Maps (.squeeze q) kept dropped) ∧
      ∀ {e : Reduce} {inferred' : Inferred}, e.keepDims = true →
        g.infer (.reduce e) ids = .ok inferred' → ∃ z, Operator.Maps (.reduce e) kept z ∧
          (∃ u, u.keepDims = true ∧ Reduce.Joins x.rank d e u ∧ Operator.Maps (.reduce u) x z) ∧
          ∀ {u : Reduce} {inferred'' : Inferred}, u.keepDims = true → Reduce.Joins x.rank d e u →
            g.infer (.reduce u) ids = .ok inferred'' → Operator.Maps (.reduce u) x z := by
  obtain ⟨axes, haxes⟩ := exists_axesOn htypes h
  obtain ⟨hnodup, hnames⟩ := Reduce.axesOn_eq_ok haxes
  have hlt (axis : Nat) (hmem : axis ∈ axes) : axis < x.rank := ((hnames axis).mp hmem).1
  refine ⟨axes, ⟨x.shape.collapsed axes, x.dtype⟩, ⟨x.shape.leaving axes, x.dtype⟩, hnames,
    reduce_maps (d := { d with keepDims := true }) haxes,
    reduce_maps (d := { d with keepDims := false }) haxes,
    ⟨?_, Shape.size_collapsed_mul hnodup hlt, Shape.leaving_eq_unit⟩, ?_, ?_⟩
  · exact (Shape.size_dropping_eq_size_collapsed hlt).symm.trans (Shape.size_leaving _ _).symm
  · intro q given σ hgiven hne hrespells hothers
    have hne' : q.axes ≠ [] := by
      rwa [Ne, ← List.length_eq_zero_iff, hrespells.length_eq, List.length_eq_zero_iff]
    rw [Shape.leaving_eq_dropping hothers]
    exact squeeze_maps_dropping hne' (hrespells.resolveSet (Reduce.resolveSet_of_axesOn hgiven haxes))
  · intro e inferred' hkeep he
    obtain ⟨axes', haxes'⟩ := exists_axesOn htypes he
    -- As many axes are kept as there were, so that the second reduction resolves as it did.
    have hkept : e.axesOn (x.shape.collapsed axes).length = .ok axes' := by
      rwa [Shape.length_collapsed]
    obtain ⟨u, hkeep', hjoins, joined, hjoined⟩ := Reduce.exists_joins haxes haxes'
    refine ⟨_, reduce_maps_collapsed hkept hkeep, ⟨u, hkeep', hjoins, ?_⟩, ?_⟩
    · exact reduce_maps_of_joins haxes haxes' hkeep' hjoined hjoins
    · intro u inferred'' hkeep' hjoins hu
      obtain ⟨joined, hjoined⟩ := exists_axesOn htypes hu
      exact reduce_maps_of_joins haxes haxes' hkeep' hjoined hjoins

/-- A volume with four axes. -/
def volume : Graph := (ofCalls [.tensor ⟨[2, 7, 3, 5], .float32⟩]).1

/-- The outer axes are summed, and then a maximum is taken over one of them and a middle one. -/
theorem reductions_compose_volume :
    let d : Reduce := { kind := .reduceSum, axes := some [-1, 0] }
    let e : Reduce := { kind := .reduceMax, axes := some [-3, 3], keepDims := true }
    let u : Reduce := { kind := .reduceMean, axes := some [3, -4, 1], keepDims := true }
    volume.typesOf? [⟨0⟩] = some [⟨[2, 7, 3, 5], .float32⟩] ∧
      volume.infer (.reduce d) [⟨0⟩] =
        .ok ⟨.reduce { d with resolved := [0, 3] }, [⟨[7, 3], .float32⟩]⟩ ∧
      Operator.Maps (.squeeze { axes := [0, -1] }) ⟨[1, 7, 3, 1], .float32⟩ ⟨[7, 3], .float32⟩ ∧
      Operator.Maps (.reduce e) ⟨[1, 7, 3, 1], .float32⟩ ⟨[1, 1, 3, 1], .float32⟩ ∧
      Operator.Maps (.reduce u) ⟨[2, 7, 3, 5], .float32⟩ ⟨[1, 1, 3, 1], .float32⟩ := by
  intro d e u
  have htypes : volume.typesOf? [⟨0⟩] = some [⟨[2, 7, 3, 5], .float32⟩] := by rfl
  have hd : volume.infer (.reduce d) [⟨0⟩] =
      .ok ⟨.reduce { d with resolved := [0, 3] }, [⟨[7, 3], .float32⟩]⟩ := by cbv
  have hkept : volume.infer (.reduce { d with keepDims := true }) [⟨0⟩] =
      .ok ⟨.reduce { d with keepDims := true, resolved := [0, 3] }, [⟨[1, 7, 3, 1], .float32⟩]⟩ := by
    cbv
  have he : volume.infer (.reduce e) [⟨0⟩] =
      .ok ⟨.reduce { e with resolved := [1, 3] }, [⟨[2, 1, 3, 1], .float32⟩]⟩ := by cbv
  have hu : volume.infer (.reduce u) [⟨0⟩] =
      .ok ⟨.reduce { u with resolved := [0, 1, 3] }, [⟨[1, 1, 3, 1], .float32⟩]⟩ := by cbv
  have hjoins : Reduce.Joins 4 d e u := by
    intro axis
    simp [Reduce.Names, d, e, u]
    omega
  obtain ⟨axes, kept, dropped, hnames, hmaps, hmaps', _, hsqueeze, hcompose⟩ :=
    reductions_compose htypes hd
  obtain rfl := hmaps.unique htypes hkept
  obtain rfl := hmaps'.unique htypes hd
  have hothers : 1 ∉ axes := by
    rw [hnames]
    simp [Reduce.Names, d, TensorType.rank]
  obtain ⟨z, hz, _, hjoined⟩ := hcompose rfl he
  have hz' := hjoined rfl hjoins hu
  obtain rfl := hz'.unique htypes hu
  exact ⟨htypes, hd, hsqueeze rfl (by simp) (Axis.respells_iff_carries.mpr (.swap 3 0))
    ⟨1, by decide, hothers⟩, hz, hz'⟩

end Graph

end DataflowCost
