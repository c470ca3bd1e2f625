import DataflowCost.Families.Reduce
import DataflowCost.Proofs.BinarySearch
import DataflowCost.Proofs.Keys.Layout
import DataflowCost.Proofs.Resolution.Basic

/-! Families that regroup, permute or reduce axes. Their attributes are resolved when an operator is added
and again when its output is inferred; the output that comes of the second resolution is the one
that the first describes. -/
namespace DataflowCost

open Inference Family
open scoped ExactArithmetic

variable {x : TensorType} {rest outputs : List TensorType}

/-- Named positions, put in order, ascend below the rank. -/
theorem Axis.ascending_of_resolveSet {rank : Nat} {axes : List Int} {resolved : List Nat}
    (h : resolveSet rank axes = .ok resolved) :
    resolved.Pairwise (· < ·) ∧ ∀ axis ∈ resolved, axis < rank := by
  obtain ⟨_, _, _, hascends⟩ := resolveSet_eq_ok_iff.mp h
  exact ⟨hascends, (meets_resolveSet rank axes).of_ok h⟩

/-- The element counts that are compared are those of the shapes, as far as words tell them apart. -/
theorem Reshape.modEq_of_resolveTarget [Build] {target : List Int} {input out : Shape}
    (h : resolveTarget target input = .ok out) : out.size ≡ input.size [MOD Word.modulus] := by
  -- A target with and one without an open extent end in the same check.
  have hdone {size : Nat} {filled : Shape} (hsize : Word.product input = .ok size) (h : (do
      let found ← Word.product filled
      require (found = size) (.targetSize target found size)
      return filled) = Except.ok out) : out.size ≡ input.size [MOD Word.modulus] := by
    obtain ⟨found, hfound, h⟩ := bind_eq_ok_iff.mp h
    obtain ⟨_, heq, h⟩ := bind_eq_ok_iff.mp h
    obtain rfl := Except.ok.inj h
    obtain rfl : found = size := of_require heq
    exact (Word.modEq_of_product hfound).symm.trans (Word.modEq_of_product hsize)
  obtain ⟨⟨known, open?⟩, _, h⟩ := bind_eq_ok_iff.mp h
  obtain ⟨size, hsize, h⟩ := bind_eq_ok_iff.mp h
  cases open? with
  | none => exact hdone hsize h
  | some position =>
    obtain ⟨_, _, h⟩ := bind_eq_ok_iff.mp h
    obtain ⟨_, _, h⟩ := bind_eq_ok_iff.mp h
    obtain ⟨_, _, h⟩ := bind_eq_ok_iff.mp h
    obtain ⟨_, _, h⟩ := bind_eq_ok_iff.mp h
    exact hdone hsize h

theorem Reshape.describes {d : Reshape} (h : Registered d (x :: rest) outputs) :
    (Resolution.dims d.resolved).Describes x.shape outputs := by
  obtain ⟨given, out, hout, rfl, hshapes⟩ := h.exists_resolved_again
    (f := fun given : Reshape => resolveTarget given.target x.shape)
    (s := fun given resolved => { given with resolved }) (fun _ => rfl) (fun _ _ => rfl)
    fun _ => rfl
  exact ⟨Word.eq_of_modEq (modEq_of_resolveTarget hout) ExactArithmetic.elim,
    (Except.ok.inj hshapes).symm⟩

theorem Flatten.describes {d : Flatten} (h : Registered d (x :: rest) outputs) :
    (Resolution.cut d.resolved).Describes x.shape outputs := by
  obtain ⟨given, axis, haxis, rfl, hshapes⟩ := h.exists_resolved_again
    (f := fun given : Flatten => resolveAxis given.axis x.rank)
    (s := fun given resolved => { given with resolved }) (fun _ => rfl) (fun _ _ => rfl)
    fun d => by
      change (d.outShape x.shape >>= fun s => .ok [s]) = _
      rw [outShape_exact]
      exact bind_assoc _ _ _
  have hle : axis ≤ x.shape.length := (meets_resolveAxis given.axis x.rank).of_ok haxis
  rw [Shape.before?_of_le hle, Shape.from?_of_le hle] at hshapes
  exact ⟨hle, (Except.ok.inj hshapes).symm⟩

namespace Squeeze

/-- Only unit axes are removed, whether they are named or found. -/
theorem unit_of_resolveAxes {axes : List Int} {s : Shape} {resolved : List Nat}
    (h : resolveAxes axes s = .ok resolved) :
    resolved.Pairwise (· < ·) ∧ ∀ axis ∈ resolved, s[axis]? = some 1 := by
  unfold resolveAxes at h
  by_cases hall : axes.isEmpty = true
  · rw [if_pos hall] at h
    have hfound : resolved = (List.range s.length).filter fun axis => s.extentAt axis = 1 := by
      rw [← Except.ok.inj h, Shape.zipIdx_eq, List.filter_map, List.map_map]
      exact List.map_id _
    rw [hfound]
    refine ⟨List.pairwise_lt_range.filter _, fun axis haxis => ?_⟩
    obtain ⟨hlt, hunit⟩ := List.mem_filter.mp haxis
    rw [Shape.getElem?_eq_extentAt (List.mem_range.mp hlt), of_decide_eq_true hunit]
  · rw [if_neg hall] at h
    obtain ⟨named, hnamed, h⟩ := bind_eq_ok_iff.mp h
    obtain ⟨_, hunits, h⟩ := bind_eq_ok_iff.mp h
    obtain rfl := Except.ok.inj h
    refine ⟨(Axis.ascending_of_resolveSet hnamed).1, fun axis haxis => ?_⟩
    obtain ⟨extent, hextent, hunit⟩ := bind_eq_ok_iff.mp (ok_of_forM hunits axis haxis)
    rw [present_eq_ok hextent, of_require hunit]

theorem describes {d : Squeeze} (h : Registered d (x :: rest) outputs) :
    (Resolution.removed d.resolved d.rank).Describes x.shape outputs := by
  obtain ⟨given, axes, haxes, rfl, hshapes⟩ := h.exists_resolved_again
    (f := fun given : Squeeze => resolveAxes given.axes x.shape)
    (s := fun given resolved => { given with resolved, rank := x.rank }) (fun _ => rfl)
    (fun _ _ => rfl) fun _ => rfl
  refine ⟨⟨rfl, unit_of_resolveAxes haxes⟩, ?_⟩
  rw [← Except.ok.inj hshapes, without, Shape.filter_zipIdx_eq_dropping]
  rfl

end Squeeze

namespace Unsqueeze

theorem interleave_of_mem {axes positions : List Nat} {position : Nat} {s : Shape}
    (h : position ∈ axes) :
    interleave axes (position :: positions) s = 1 :: interleave axes positions s := by
  cases s <;> simp [interleave, h]

theorem interleave_of_not_mem {axes positions : List Nat} {position extent : Nat} {s : Shape}
    (h : position ∉ axes) : interleave axes (position :: positions) (extent :: s) =
      extent :: interleave axes positions s := by
  simp [interleave, h]

/-- From any position on, the extents that are left are laid out over the positions that are left. -/
theorem interleave_eq (axes : List Nat) (s : Shape) (start count : Nat)
    (h : Shape.keptBefore axes (start + count) ≤ s.length) :
    interleave axes (List.range' start count) (s.drop (Shape.keptBefore axes start)) =
      (List.range' start count).map fun i =>
        if i ∈ axes then 1 else s.extentAt (Shape.keptBefore axes i) := by
  -- As many extents have been laid out as positions in front of the start are not listed.
  induction count generalizing start with
  | zero => rfl
  | succ count ih =>
    have hrest := ih (start + 1) (by rwa [Nat.add_right_comm, Nat.add_assoc])
    rw [Shape.keptBefore_succ] at hrest
    rw [List.range'_succ, List.map_cons, ← hrest]
    by_cases hlisted : start ∈ axes
    · rw [if_pos hlisted, if_pos hlisted, interleave_of_mem hlisted]
      rfl
    · -- A position that is not listed takes the next extent.
      have hnext : Shape.keptBefore axes start < s.length := by
        have hle := Shape.keptBefore_mono axes (i := start + 1) (j := start + (count + 1)) (by omega)
        rw [Shape.keptBefore_succ, if_neg hlisted] at hle
        omega
      rw [if_neg hlisted, if_neg hlisted, List.drop_eq_getElem_cons hnext,
        interleave_of_not_mem hlisted, Shape.extentAt, ← List.getElem_eq_getD]

theorem interleave_eq_tabulate {axes : List Nat} {s : Shape} {rank : Nat}
    (hrank : rank = s.length + axes.length) (hnodup : axes.Nodup) (hlt : ∀ axis ∈ axes, axis < rank) :
    interleave axes (List.range rank) s = Shape.tabulate rank fun i =>
      if i ∈ axes then 1 else s.extentAt (Shape.keptBefore axes i) := by
  -- The positions that are not listed are as many as the input has axes.
  have hkept := Shape.keptBefore_add_length hnodup hlt
  have hout := interleave_eq axes s 0 rank (by
    rw [Nat.zero_add]
    omega)
  rw [← List.range_eq_range'] at hout
  exact hout

theorem describes {d : Unsqueeze} (h : Registered d (x :: rest) outputs) :
    (Resolution.inserted d.resolved d.outRank).Describes x.shape outputs := by
  obtain ⟨given, axes, haxes, rfl, hshapes⟩ := h.exists_resolved_again
    (f := fun given : Unsqueeze => Axis.resolveSet (x.rank + given.axes.length) given.axes)
    (s := fun given resolved => { given with resolved, outRank := x.rank + given.axes.length })
    (fun _ => rfl) (fun _ _ => rfl)
    fun d => show (d.outShape x.shape >>= fun s => .ok [s]) = _ from bind_assoc _ _ _
  obtain ⟨hascending, hlt⟩ := Axis.ascending_of_resolveSet haxes
  have hrank : x.rank + given.axes.length = x.rank + axes.length :=
    congrArg (x.rank + ·) (Axis.length_resolveSet haxes).symm
  refine ⟨⟨hrank, hascending, hlt⟩, ?_⟩
  rw [← Except.ok.inj hshapes]
  exact congrArg (fun s => [s])
    (interleave_eq_tabulate hrank (hascending.imp Nat.ne_of_lt) hlt)

end Unsqueeze

theorem Transpose.describes {d : Transpose} (h : Registered d (x :: rest) outputs) :
    (Resolution.permuted d.resolved).Describes x.shape outputs := by
  obtain ⟨hperm, t, rfl⟩ := exists_output h
  exact ⟨hperm, rfl⟩

namespace Reduce

theorem ascending_of_resolve {given d : Reduce} {rank : Nat} (h : given.resolve rank = .ok d) :
    d.resolved.Pairwise (· < ·) ∧ ∀ axis ∈ d.resolved, axis < rank := by
  obtain ⟨_, _, h⟩ := bind_eq_ok_iff.mp h
  cases haxes : given.axes with
  | none =>
    rw [haxes] at h
    obtain rfl := Except.ok.inj h
    exact ⟨List.pairwise_lt_range, fun axis haxis => List.mem_range.mp haxis⟩
  | some axes =>
    rw [haxes] at h
    obtain ⟨resolved, hresolved, h⟩ := bind_eq_ok_iff.mp h
    obtain rfl := Except.ok.inj h
    exact Axis.ascending_of_resolveSet hresolved

/-- In order, the resolved axes are the ones that the search finds. -/
theorem reduces_eq_contains {d : Reduce} (h : d.resolved.Pairwise (· < ·)) :
    d.reduces = d.resolved.contains := by
  funext axis
  rw [Bool.eq_iff_iff, reduces, binSearchContains_iff_mem h, List.mem_toArray, List.contains_iff_mem]

theorem outShape_eq {d : Reduce} (h : d.resolved.Pairwise (· < ·)) (s : Shape) :
    [d.outShape s] = (Resolution.reduced d.kind d.resolved d.keepDims).shapes s := by
  simp only [outShape, kept, reduces_eq_contains h, Resolution.shapes]
  by_cases hkeep : d.keepDims = true
  · rw [if_pos hkeep, if_pos hkeep, Shape.map_zipIdx_eq]
    simp only [List.contains_iff_mem]
  · rw [if_neg hkeep, if_neg hkeep]
    have hkept : extentsAt (!d.resolved.contains ·) s = s.dropping d.resolved :=
      Shape.filter_zipIdx_eq_dropping s d.resolved
    rw [hkept]
    cases s.dropping d.resolved with
    | nil => rfl
    | cons extent extents => rfl

theorem describes {d : Reduce} (h : Registered d (x :: rest) outputs) :
    (Resolution.reduced d.kind d.resolved d.keepDims).Describes x.shape outputs := by
  obtain ⟨given, _, hyields⟩ := h.resolved
  have hresolve : given.resolve x.rank = .ok d := hyields
  have hout : [d.outShape x.shape] = outputs.map TensorType.shape := Except.ok.inj h.outShapes_eq
  have hascending := ascending_of_resolve hresolve
  exact ⟨hascending, hout.symm.trans (outShape_eq hascending.1 x.shape)⟩

end Reduce

end DataflowCost
