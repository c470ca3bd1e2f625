import DataflowCost.Proofs.Keys.Range
import DataflowCost.Proofs.Resolution.Basic
import Mathlib.Algebra.BigOperators.Group.List.Basic

/-! Element counts, axis by axis. One extent enters the count as a factor, unit extents leave it as it is,
and a count is zero through some extent. -/
namespace DataflowCost

namespace Shape

variable {axis : Nat} {s t u : Shape}

theorem size_eq_prod (s : Shape) : s.size = s.prod :=
  List.prod_eq_foldr.symm

theorem size_eq_zero_iff : s.size = 0 ↔ 0 ∈ s := by
  rw [size_eq_prod, List.prod_eq_zero_iff]

/-- One extent is a factor of the element count. -/
theorem size_set (h : axis < s.length) (extent : Nat) :
    Shape.size (s.set axis extent) = extent * Shape.size (s.set axis 1) := by
  simp only [size_eq_prod, List.prod_set, if_pos h, Nat.mul_one]
  rw [Nat.mul_comm _ extent, Nat.mul_assoc]

theorem set_extentAt (h : axis < s.length) : s.set axis (s.extentAt axis) = s := by
  rw [extentAt, ← List.getElem_eq_getD (h := h), List.set_getElem_self]

theorem extentAt_set (h : axis < s.length) (extent : Nat) :
    extentAt (s.set axis extent) axis = extent := by
  rw [extentAt, List.getD_eq_getElem?_getD, List.getElem?_set_self h, Option.getD_some]

theorem size_eq_prod_range (s : Shape) : s.size = ((List.range s.length).map s.extentAt).prod := by
  rw [size_eq_prod]
  congr 1
  apply List.ext_getElem
  · simp
  · intro i hi _
    simp [extentAt, hi]

/-- Shapes of one rank that agree on every axis but one. -/
structure AgreeOff (axis : Nat) (s t : Shape) : Prop where
  length_eq : t.length = s.length
  getElem?_eq : ∀ {i}, i ≠ axis → t[i]? = s[i]?

/-- Some axis other than the given one has no extent. -/
def HollowOff (axis : Nat) (s : Shape) : Prop := ∃ i ≠ axis, s[i]? = some 0

namespace AgreeOff

theorem symm (h : AgreeOff axis s t) : AgreeOff axis t s :=
  ⟨h.length_eq.symm, fun hi => (h.getElem?_eq hi).symm⟩

theorem trans (h : AgreeOff axis s t) (h' : AgreeOff axis t u) : AgreeOff axis s u :=
  ⟨h'.length_eq.trans h.length_eq, fun hi => (h'.getElem?_eq hi).trans (h.getElem?_eq hi)⟩

theorem set (axis : Nat) (s : Shape) (extent : Nat) : AgreeOff axis s (s.set axis extent) :=
  ⟨List.length_set, fun hi => List.getElem?_set_ne (Ne.symm hi)⟩

/-- The one extent makes up the difference. -/
theorem eq_set (h : AgreeOff axis s t) (haxis : axis < s.length) :
    t = s.set axis (t.extentAt axis) := by
  apply List.ext_getElem?
  intro i
  by_cases hi : i = axis
  · obtain rfl := hi
    rw [List.getElem?_set_self haxis, getElem?_eq_extentAt (h.length_eq ▸ haxis)]
  · rw [List.getElem?_set_ne (Ne.symm hi), h.getElem?_eq hi]

theorem hollowOff (h : AgreeOff axis s t) (hs : HollowOff axis s) : HollowOff axis t := by
  obtain ⟨i, hi, hzero⟩ := hs
  exact ⟨i, hi, (h.getElem?_eq hi).trans hzero⟩

theorem hollowOff_iff (h : AgreeOff axis s t) : HollowOff axis t ↔ HollowOff axis s :=
  ⟨h.symm.hollowOff, h.hollowOff⟩

end AgreeOff

theorem size_eq_zero_of_hollowOff (h : HollowOff axis s) : s.size = 0 := by
  obtain ⟨i, _, hzero⟩ := h
  exact size_eq_zero_iff.mpr (List.mem_of_getElem? hzero)

/-- A shape without elements has no extent on the axis, or none on another one. -/
theorem extentAt_eq_zero_of_size (h : s.size = 0) (hfull : ¬ HollowOff axis s) :
    s.extentAt axis = 0 := by
  obtain ⟨i, hi⟩ := List.getElem?_of_mem (size_eq_zero_iff.mp h)
  by_cases haxis : i = axis
  · obtain rfl := haxis
    rw [extentAt, List.getD_eq_getElem?_getD, hi, Option.getD_some]
  · exact absurd ⟨i, haxis, hi⟩ hfull

theorem extentAt_pos (h : axis < s.length) (hsize : 0 < s.size) : 0 < s.extentAt axis := by
  rw [← set_extentAt h, size_set h] at hsize
  exact Nat.pos_of_mul_pos_right hsize

/-- Leading extents make no more elements than all extents do, if there are elements. -/
theorem size_take_le (h : 0 < s.size) (k : Nat) : Shape.size (s.take k) ≤ s.size := by
  have hdvd : Shape.size (s.take k) ∣ s.size := by
    rw [size_eq_prod, size_eq_prod]
    exact Dvd.intro _ (List.prod_take_mul_prod_drop s k)
  exact Nat.le_of_dvd h hdvd

/-- Elements that words can number can be counted in words, if there are any. -/
theorem fits_of_size_lt [Build] (hpos : 0 < s.size) (h : s.size < Word.limit) : s.Fits := by
  unfold Fits
  cases Build.overflow with
  | exact => trivial
  | wraps => exact h
  | traps => exact fun k => Nat.lt_of_le_of_lt (size_take_le hpos k) h

/-- The pieces of an axis have together as many elements as the axis in one piece. -/
theorem sum_size_set (h : axis < s.length) (extents : List Nat) :
    (extents.map fun extent => Shape.size (s.set axis extent)).sum =
      Shape.size (s.set axis extents.sum) := by
  have hfactor : (fun extent => Shape.size (s.set axis extent)) =
      fun extent => extent * Shape.size (s.set axis 1) := funext (size_set h)
  rw [hfactor, List.sum_map_mul_right, List.map_id', size_set h extents.sum]

/-- Entries of one may be left out of a product. -/
theorem prod_map_filter {f : Nat → Nat} {p : Nat → Bool} {xs : List Nat}
    (h : ∀ x ∈ xs, p x = false → f x = 1) : ((xs.filter p).map f).prod = (xs.map f).prod := by
  induction xs with
  | nil => rfl
  | cons x xs ih =>
    obtain ⟨hx, hxs⟩ := List.forall_mem_cons.mp h
    by_cases hp : p x = true
    · rw [List.filter_cons_of_pos hp, List.map_cons, List.map_cons, List.prod_cons, List.prod_cons,
        ih hxs]
    · rw [List.filter_cons_of_neg hp, List.map_cons, List.prod_cons, ih hxs,
        hx (Bool.eq_false_iff.mpr hp), Nat.one_mul]

/-- Without some of its unit axes a shape has as many elements. -/
theorem size_dropping {axes : List Nat} (h : ∀ axis ∈ axes, s[axis]? = some 1) :
    (s.dropping axes).size = s.size := by
  rw [size_eq_prod, size_eq_prod_range, dropping]
  apply prod_map_filter
  intro axis _ hlisted
  have hunit := h axis (by simpa using hlisted)
  rw [extentAt, List.getD_eq_getElem?_getD, hunit, Option.getD_some]

/-- The positions that are not listed take the factors one after the other. -/
theorem prod_spread (axes : List Nat) (f : Nat → Nat) (rank : Nat) :
    ((List.range rank).map fun i => if i ∈ axes then 1 else f (keptBefore axes i)).prod =
      ((List.range (keptBefore axes rank)).map f).prod := by
  induction rank with
  | zero => rfl
  | succ rank ih =>
    rw [List.range_succ, List.map_append, List.prod_append, ih, keptBefore_succ]
    by_cases hlisted : rank ∈ axes
    · simp [hlisted]
    · simp [hlisted, List.range_succ]

/-- Unit axes at the listed positions add no elements. -/
theorem size_inserted {axes : List Nat} {rank : Nat} (hnodup : axes.Nodup)
    (hlt : ∀ axis ∈ axes, axis < rank) (hrank : rank = s.length + axes.length) :
    (tabulate rank fun i => if i ∈ axes then 1 else s.extentAt (keptBefore axes i)).size =
      s.size := by
  have hkept : keptBefore axes rank = s.length := by
    have hall := keptBefore_add_length hnodup hlt
    omega
  rw [size_eq_prod, tabulate, prod_spread, hkept, size_eq_prod_range]

end Shape

end DataflowCost
