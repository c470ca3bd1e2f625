import DataflowCost.Proofs.ExactForms
import DataflowCost.Proofs.Keys.Basic

/-! What attributes resolve to, and the output that a resolution describes. Outputs are described axis by
axis from the input alone, without regard to how they are inferred. -/
namespace DataflowCost

open Inference
open scoped ExactArithmetic

namespace Shape

/-- The extent of an axis, zero where there is none. -/
def extentAt (s : Shape) (axis : Nat) : Nat := s.getD axis 0

/-- The shape whose axes have the given extents. -/
def tabulate (rank : Nat) (extent : Nat → Nat) : Shape := (List.range rank).map extent

/-- The extents of the axes that are not listed. -/
def dropping (s : Shape) (axes : List Nat) : Shape :=
  ((List.range s.length).filter fun axis => axis ∉ axes).map s.extentAt

/-- How many axes in front of a position are not listed. -/
def keptBefore (axes : List Nat) (position : Nat) : Nat :=
  (List.range position).countP fun axis => axis ∉ axes

theorem getElem?_eq_extentAt {s : Shape} {axis : Nat} (h : axis < s.length) :
    s[axis]? = some (s.extentAt axis) := by
  rw [List.getElem?_eq_getElem h, extentAt, ← List.getElem_eq_getD]

theorem length_tabulate (rank : Nat) (extent : Nat → Nat) : (tabulate rank extent).length = rank := by
  simp [tabulate]

theorem extentAt_tabulate {rank axis : Nat} (h : axis < rank) (extent : Nat → Nat) :
    (tabulate rank extent).extentAt axis = extent axis := by
  simp [tabulate, extentAt, h]

/-- A shape is read back from the front of any shape that it begins. -/
theorem map_extentAt_append (s t : Shape) :
    (List.range s.length).map (extentAt (s ++ t)) = s := by
  apply List.ext_getElem
  · simp
  · intro i _ hi
    rw [List.getElem_map, List.getElem_range, extentAt, List.getD_eq_getElem?_getD,
      List.getElem?_append_left hi, List.getElem?_eq_getElem hi, Option.getD_some]

theorem zipIdx_eq (s : Shape) :
    s.zipIdx = (List.range s.length).map fun axis => (s.extentAt axis, axis) := by
  apply List.ext_getElem
  · simp
  · intro i hi _
    have hs : i < s.length := by simpa using hi
    simp [extentAt, hs]

theorem filter_zipIdx_eq_dropping (s : Shape) (axes : List Nat) :
    ((s.zipIdx.filter fun (_, axis) => !axes.contains axis).map (·.1)) = s.dropping axes := by
  rw [zipIdx_eq, List.filter_map, List.map_map]
  have hlisted (axis : Nat) : (!axes.contains axis) = decide (axis ∉ axes) := by simp
  simp only [Function.comp_def, hlisted]
  rfl

theorem keptBefore_succ (axes : List Nat) (position : Nat) : keptBefore axes (position + 1) =
    keptBefore axes position + if position ∈ axes then 0 else 1 := by
  unfold keptBefore
  rw [List.range_succ, List.countP_append, List.countP_singleton]
  simp

theorem keptBefore_mono (axes : List Nat) {i j : Nat} (h : i ≤ j) :
    keptBefore axes i ≤ keptBefore axes j :=
  (List.range_sublist.mpr h).countP_le

theorem filter_mem_range_perm {axes : List Nat} {rank : Nat} (hnodup : axes.Nodup)
    (hlt : ∀ axis ∈ axes, axis < rank) : ((List.range rank).filter (· ∈ axes)).Perm axes := by
  refine (List.perm_ext_iff_of_nodup (List.nodup_range.filter _) hnodup).mpr ?_
  intro axis
  simpa using hlt axis

/-- Listed and other axes together are all. -/
theorem keptBefore_add_length {axes : List Nat} {rank : Nat} (hnodup : axes.Nodup)
    (hlt : ∀ axis ∈ axes, axis < rank) : keptBefore axes rank + axes.length = rank := by
  -- Nothing is listed twice, so that the listed axes below the rank are as many as are listed.
  have hlisted := filter_mem_range_perm hnodup hlt
  have hall := List.length_eq_countP_add_countP (fun axis => decide (axis ∈ axes))
    (l := List.range rank)
  rw [List.countP_eq_length_filter, hlisted.length_eq, List.length_range] at hall
  simp only [keptBefore, decide_not, decide_eq_true_eq] at hall ⊢
  omega

theorem map_zipIdx_eq (s : Shape) (f : Nat × Nat → Nat) :
    s.zipIdx.map f = tabulate s.length fun axis => f (s.extentAt axis, axis) := by
  rw [zipIdx_eq, List.map_map]
  rfl

end Shape

namespace AxisRange

/-- Where a range has come to after a number of steps, be it past its stop. -/
def position (r : AxisRange) (k : Nat) : Int := r.start + k * r.step

/-- Every position that the range takes is one of the axis. -/
def Within (r : AxisRange) (extent : Nat) : Prop :=
  ∀ k < r.extent, 0 ≤ r.position k ∧ r.position k < extent

/-- The extent counts the steps that do not reach the stop. -/
theorem lt_extent_iff {r : AxisRange} (h : r.step ≠ 0) (k : Nat) :
    k < r.extent ↔ if 0 < r.step then r.position k < r.stop else r.stop < r.position k := by
  -- A span divided by a step and rounded up counts the multiples of the step below the span.
  have hcount (span step : Int) (hstep : 0 < step) :
      k < ((span + step - 1) / step).toNat ↔ k * step < span := by
    rw [Int.lt_toNat, ← Int.add_one_le_iff, Int.le_ediv_iff_mul_le hstep, Int.add_mul, Int.one_mul]
    omega
  simp only [extent, position]
  by_cases hforward : 0 < r.step
  · rw [if_pos hforward, if_pos hforward, hcount _ _ (by omega), Int.natAbs_of_nonneg (by omega)]
    omega
  · have hback : (r.step.natAbs : Int) = -r.step := by omega
    rw [if_neg hforward, if_neg hforward, hcount _ _ (by omega), hback, Int.mul_neg]
    omega

theorem within_full (extent : Nat) : (full extent).Within extent := by
  intro k hk
  have hlt : (full extent).position k < extent := by
    simpa [full_exact] using (lt_extent_iff (r := full extent) Int.one_ne_zero k).mp hk
  simp only [full_exact, position] at hlt ⊢
  omega

/-- Bounds that are moved onto an axis keep all positions on it, in either direction. -/
theorem within_cut (start stop : Int) {step : Int} (h : step ≠ 0) (extent : Nat) :
    (cut start stop step extent).Within extent := by
  intro k hk
  have hlt := (lt_extent_iff h k).mp hk
  simp only [cut, position, limited] at hlt ⊢
  -- What is taken lies between the two bounds, and the stop of a backward range may be minus one.
  by_cases hforward : 0 < step
  · have hmoved : 0 ≤ k * step := Int.mul_nonneg (Int.natCast_nonneg k) (Int.le_of_lt hforward)
    simp only [if_pos hforward] at hlt ⊢
    omega
  · have hmoved : k * step ≤ 0 :=
      Int.mul_nonpos_of_nonneg_of_nonpos (Int.natCast_nonneg k) (Int.not_lt.mp hforward)
    simp only [if_neg hforward] at hlt ⊢
    omega

end AxisRange

/-- The extents that an axis is cut into. Equal pieces leave the remainder to the last one. -/
def Pieces.cuts (pieces : Pieces) (extent : Nat) : List Nat :=
  match pieces with
  | .equal count => (List.range count).map fun i =>
    if i + 1 = count then extent - i * (extent / count) else extent / count
  | .ratio parts => parts.map fun part => part * (extent / parts.sum)

/-- What the attributes of an operator on shapes resolve to. -/
inductive Resolution where
  /-- The extents of the output. -/
  | dims (shape : Shape)
  /-- The axis before which the input is cut in two. -/
  | cut (axis : Nat)
  /-- Axes that are taken out of as many as there are. -/
  | removed (axes : List Nat) (rank : Nat)
  /-- Axes of the output that are put in, and how many it has. -/
  | inserted (axes : List Nat) (rank : Nat)
  | permuted (axes : List Nat)
  | ranges (taken : List AxisRange)
  /-- Begin pads of all axes, then end pads. -/
  | padded (pads : List Nat)
  | divided (axis : Nat) (pieces : Pieces)
  /-- The axis along which copies are appended, and their number. -/
  | repeated (axis num : Nat)
  | reduced (kind : Kind) (axes : List Nat) (keepDims : Bool)

namespace Resolution

/-- The shapes of the outputs for an input. -/
def shapes (s : Shape) : Resolution → List Shape
  | dims shape => [shape]
  | cut axis => [[Shape.size (s.take axis), Shape.size (s.drop axis)]]
  | removed axes _ => [s.dropping axes]
  | inserted axes rank => [Shape.tabulate rank fun i =>
      if i ∈ axes then 1 else s.extentAt (Shape.keptBefore axes i)]
  | permuted axes => [axes.map s.extentAt]
  | ranges taken => [taken.map AxisRange.extent]
  | padded pads => [Shape.tabulate s.length fun axis =>
      s.extentAt axis + pads.getD axis 0 + pads.getD (axis + s.length) 0]
  | divided axis pieces => (pieces.cuts (s.extentAt axis)).map fun extent => s.set axis extent
  | repeated axis num => [s.set axis (s.extentAt axis * (num + 1))]
  | reduced _ axes keepDims =>
    if keepDims then [Shape.tabulate s.length fun axis => if axis ∈ axes then 1 else s.extentAt axis]
    else if s.dropping axes = [] then [[1]] else [s.dropping axes]

/-- The resolution is one for an input of this shape. -/
def Fits (s : Shape) : Resolution → Prop
  | dims shape => shape.size = s.size
  | cut axis => axis ≤ s.length
  | removed axes rank =>
    rank = s.length ∧ axes.Pairwise (· < ·) ∧ ∀ axis ∈ axes, s[axis]? = some 1
  | inserted axes rank =>
    rank = s.length + axes.length ∧ axes.Pairwise (· < ·) ∧ ∀ axis ∈ axes, axis < rank
  | permuted axes => axes.Perm (List.range s.length)
  | ranges taken => s.Forall₂ (fun extent r => r.step ≠ 0 ∧ r.Within extent) taken
  | padded pads => pads.length = 2 * s.length
  | divided axis pieces =>
    axis < s.length ∧ (pieces.cuts (s.extentAt axis)).sum = s.extentAt axis
  | repeated axis _ => axis < s.length
  | reduced _ axes _ => axes.Pairwise (· < ·) ∧ ∀ axis ∈ axes, axis < s.length

/-- The resolution is one for the input, and the outputs are those that it describes. -/
structure Describes (r : Resolution) (s : Shape) (outputs : List TensorType) : Prop where
  fits : r.Fits s
  shapes_eq : outputs.map TensorType.shape = r.shapes s

end Resolution

namespace Family

/-- Attributes that are resolved once more when the output is inferred resolve to what is stored. -/
theorem Registered.exists_resolved_again [Build] {δ β : Type} [Family δ] {d : δ} {x : TensorType}
    {inputs outputs : List TensorType} {f : δ → Inference β} {s : δ → β → δ}
    {k : δ → β → Inference (List Shape)} (h : Registered d (x :: inputs) outputs)
    (hprepare : ∀ given : δ, prepare given (x :: inputs) =
      .done (f given >>= fun b => .ok (s given b)))
    (hagain : ∀ given b, f (s given b) = f given)
    (hshapes : ∀ d : δ, outShapes d (x :: inputs) = f d >>= k d) :
    ∃ given b, f given = .ok b ∧ d = s given b ∧
      k d b = .ok (outputs.map TensorType.shape) := by
  obtain ⟨given, b, hb, rfl⟩ := h.exists_resolved hprepare
  have hout := h.outShapes_eq
  rw [hshapes, hagain, hb] at hout
  exact ⟨given, b, hb, rfl, hout⟩

end Family

end DataflowCost
