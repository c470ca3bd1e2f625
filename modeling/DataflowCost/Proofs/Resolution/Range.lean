import DataflowCost.Proofs.Keys.Range
import DataflowCost.Proofs.Resolution.Basic

/-! Families that take ranges, pad, cut or repeat along axes. The extent of every axis of an output
follows from the attributes that are stored and the extent of that axis alone. -/
namespace DataflowCost

open Inference Family
open scoped ExactArithmetic

variable {x : TensorType} {rest outputs : List TensorType}

theorem Inference.present_getD {xs : List Nat} {i : Nat} (h : i < xs.length) :
    present xs[i]? = .ok (xs.getD i 0) := by
  rw [List.getElem?_eq_getElem h, List.getElem_eq_getD 0]
  rfl

theorem Inference.eq_set_of_overwrite {α : Type} {xs ys : List α} {i : Nat} {a : α}
    (h : overwrite xs i a = .ok ys) : ys = xs.set i a := by
  unfold overwrite at h
  split at h
  next => exact (Except.ok.inj h).symm
  next => cases h

/-- A relation of two lists stays if it holds of what is put into the second one. -/
theorem forall₂_set {α β : Type} {R : α → β → Prop} {xs : List α} {ys : List β}
    (h : List.Forall₂ R xs ys) {i : Nat} {a : α} {b : β} (ha : xs[i]? = some a) (hb : R a b) :
    List.Forall₂ R xs (ys.set i b) := by
  induction h generalizing i with
  | nil => exact .nil
  | @cons x y xs ys hxy hrest ih =>
    cases i with
    | zero =>
      obtain rfl := Option.some.inj ha
      exact .cons hb hrest
    | succ i => exact .cons hxy (ih ha)

namespace Slice

/-- Each axis has a range that moves on, and takes no position but the axis has it. -/
def Covers (s : Shape) (taken : List AxisRange) : Prop :=
  s.Forall₂ (fun extent r => r.step ≠ 0 ∧ r.Within extent) taken

theorem covers_full (s : Shape) : Covers s (s.map AxisRange.full) := by
  refine List.forall₂_map_right_iff.mpr (List.forall₂_same.mpr ?_)
  intro extent _
  exact ⟨Int.one_ne_zero, AxisRange.within_full extent⟩

theorem Covers.placeAt {s : Shape} {starts ends steps : List Int} {taken placed : List AxisRange}
    {axis i : Nat} (hs : Covers s taken) (hsteps : ∀ step ∈ steps, step ≠ 0)
    (h : Slice.placeAt s starts ends steps taken axis i = .ok placed) : Covers s placed := by
  rw [placeAt_exact] at h
  obtain ⟨extent, hextent, h⟩ := bind_eq_ok_iff.mp h
  obtain ⟨start, _, h⟩ := bind_eq_ok_iff.mp h
  obtain ⟨stop, _, h⟩ := bind_eq_ok_iff.mp h
  obtain ⟨step, hstep, h⟩ := bind_eq_ok_iff.mp h
  obtain rfl := eq_set_of_overwrite h
  have hne : step ≠ 0 := hsteps step (List.mem_of_getElem? (present_eq_ok hstep))
  exact forall₂_set hs (present_eq_ok hextent) ⟨hne, AxisRange.within_cut start stop hne extent⟩

theorem covers_of_resolveRanges {d : Slice} {s : Shape} {taken : List AxisRange}
    (h : d.resolveRanges s = .ok taken) : Covers s taken := by
  obtain ⟨_, _, h⟩ := bind_eq_ok_iff.mp h
  obtain ⟨axes, _, h⟩ := bind_eq_ok_iff.mp h
  obtain ⟨steps, hsteps, h⟩ := bind_eq_ok_iff.mp h
  -- Steps are checked before any range is placed.
  have hne := ((meets_resolveSteps d.steps d.starts.length).of_ok hsteps).2
  exact (meets_foldlM (covers_full s) fun _ hs _ _ => ⟨hs.placeAt hne, fun _ => trivial⟩).of_ok h

theorem Covers.mapM_count {s : Shape} {taken : List AxisRange} (h : Covers s taken) :
    taken.mapM AxisRange.count = .ok (taken.map AxisRange.extent) := by
  have hne : ∀ r ∈ taken, r.step ≠ 0 := ((List.forall₂_and_left _ _).mp h.flip).1
  refine mapM_eq_ok fun r hr => ?_
  rw [AxisRange.count_exact, if_neg (hne r hr)]

theorem describes {d : Slice} (h : Registered d (x :: rest) outputs) :
    (Resolution.ranges d.ranges).Describes x.shape outputs := by
  obtain ⟨given, taken, htaken, rfl, hshapes⟩ := h.exists_resolved_again
    (f := fun given : Slice => given.resolveRanges x.shape)
    (s := fun given ranges => { given with ranges }) (fun _ => rfl) (fun _ _ => rfl)
    fun d => show (d.outShape x.shape >>= fun s => .ok [s]) = _ from bind_assoc _ _ _
  have hcovers := covers_of_resolveRanges htaken
  rw [hcovers.mapM_count] at hshapes
  exact ⟨hcovers, (Except.ok.inj hshapes).symm⟩

end Slice

theorem Pad.padded_eq_tabulate [Build] {pads : List Nat} {s : Shape}
    (h : pads.length = 2 * s.length) (hfits : Build.Bounded → ∀ axis < s.length,
      s.extentAt axis + pads.getD axis 0 + pads.getD (axis + s.length) 0 < Word.limit) :
    padded pads s = .ok (Shape.tabulate s.length fun axis =>
      s.extentAt axis + pads.getD axis 0 + pads.getD (axis + s.length) 0) := by
  have hmap : padded pads s = .ok (s.zipIdx.map fun p =>
      p.1 + pads.getD p.2 0 + pads.getD (p.2 + s.length) 0) := by
    refine mapM_eq_ok ?_
    rintro ⟨extent, axis⟩ hmem
    obtain ⟨_, haxis⟩ := mem_and_lt_of_mem_zipIdx hmem
    have hextent : s.extentAt axis = extent := Option.some.inj
      ((Shape.getElem?_eq_extentAt haxis).symm.trans (List.mk_mem_zipIdx_iff_getElem?.mp hmem))
    have hbefore : present pads[axis]? = .ok (pads.getD axis 0) := present_getD (by omega)
    have hbehind : present pads[axis + s.length]? = .ok (pads.getD (axis + s.length) 0) :=
      present_getD (by omega)
    subst hextent
    have hbegun : Word.add (s.extentAt axis) (pads.getD axis 0) =
        .ok (s.extentAt axis + pads.getD axis 0) :=
      Word.add_eq fun hbounded => by have := hfits hbounded axis haxis; omega
    simp only [hbefore, hbehind]
    change (do
      let begun ← Word.add (s.extentAt axis) (pads.getD axis 0)
      Word.add begun (pads.getD (axis + s.length) 0)) = _
    rw [hbegun]
    exact Word.add_eq fun hbounded => hfits hbounded axis haxis
  rw [hmap, Shape.map_zipIdx_eq]

theorem Pad.describes {d : Pad} (h : Registered d (x :: rest) outputs) :
    (Resolution.padded d.resolved).Describes x.shape outputs := by
  obtain ⟨given, pads, hpads, rfl, hshapes⟩ := h.exists_resolved_again
    (f := fun given : Pad => given.resolvePads x.rank)
    (s := fun given resolved => { given with resolved })
    (k := fun _ pads => padded pads x.shape >>= fun s => .ok [s]) (fun _ => rfl) (fun _ _ => rfl)
    fun d => show (d.outShape x.shape >>= fun s => .ok [s]) = _ from bind_assoc _ _ _
  have hlen : pads.length = 2 * x.shape.length := (given.meets_resolvePads x.rank).of_ok hpads
  rw [padded_eq_tabulate hlen ExactArithmetic.elim] at hshapes
  exact ⟨hlen, (Except.ok.inj hshapes).symm⟩

/-- The proportion in which an axis is cut, or nothing if the pieces are equal. -/
def Pieces.parts : Pieces → List Nat
  | equal _ => []
  | ratio parts => parts

/-- All pieces but the last are equal. -/
theorem Pieces.cuts_equal (n extent : Nat) : (equal (n + 1)).cuts extent =
    List.replicate n (extent / (n + 1)) ++ [extent - n * (extent / (n + 1))] := by
  have hequal : ((List.range n).map fun i =>
      if i + 1 = n + 1 then extent - i * (extent / (n + 1)) else extent / (n + 1)) =
      List.replicate n (extent / (n + 1)) := by
    refine List.eq_replicate_iff.mpr ⟨by simp, fun e he => ?_⟩
    obtain ⟨i, hi, rfl⟩ := List.mem_map.mp he
    have hlt := List.mem_range.mp hi
    exact if_neg (by omega)
  simp only [cuts, List.range_succ, List.map_append, hequal, List.map_singleton, if_pos]

namespace Split

/-- The remainder of equal pieces is left to the last one. -/
theorem cuts_of_extents_equal [Build] {count extent : Nat} {es : List Nat}
    (h : extents (.equal count) extent = .ok es) :
    es = (Pieces.equal count).cuts extent ∧ ((Pieces.equal count).cuts extent).sum = extent := by
  obtain ⟨_, hpos, h⟩ := bind_eq_ok_iff.mp h
  obtain ⟨piece, hpiece, h⟩ := bind_eq_ok_iff.mp h
  obtain rfl := Except.ok.inj h
  obtain rfl := (meets_quotient fun _ => trivial).of_ok hpiece
  obtain ⟨n, rfl⟩ := Nat.exists_eq_add_one_of_ne_zero (Nat.ne_of_gt (of_require hpos))
  rw [Pieces.cuts_equal]
  have hle : (n + 1) * (extent / (n + 1)) ≤ extent := Nat.mul_div_le extent (n + 1)
  rw [Nat.mul_comm (extent / (n + 1))]
  generalize extent / (n + 1) = piece at hle ⊢
  rw [Nat.succ_mul] at hle ⊢
  refine ⟨?_, ?_⟩
  · have hlast : piece + (extent - (n * piece + piece)) = extent - n * piece := by omega
    rw [hlast]
    rfl
  · rw [List.sum_append, List.sum_replicate, List.sum_singleton, smul_eq_mul]
    omega

/-- The pieces of an axis are those that are asked for, and together they are the axis. -/
theorem cuts_of_extents [Build] {pieces : Pieces} {extent : Nat} {es : List Nat}
    (hfits : Build.Bounded → extent < Word.limit ∧ pieces.parts.sum < Word.limit)
    (h : extents pieces extent = .ok es) :
    es = pieces.cuts extent ∧ (pieces.cuts extent).sum = extent := by
  cases pieces with
  | equal count => exact cuts_of_extents_equal h
  | ratio parts =>
    have hsum : Word.sum parts = .ok parts.sum := by
      rw [List.sum_eq_foldr]
      exact Word.sum_eq fun hbounded => List.sum_eq_foldr (l := parts) ▸ (hfits hbounded).2
    obtain ⟨sum, hfound, h⟩ := bind_eq_ok_iff.mp h
    obtain rfl : parts.sum = sum := Except.ok.inj (hsum.symm.trans hfound)
    obtain ⟨_, hdivides, h⟩ := bind_eq_ok_iff.mp h
    obtain ⟨unit, hunit, h⟩ := bind_eq_ok_iff.mp h
    obtain rfl := (meets_quotient fun _ => trivial).of_ok hunit
    have hdvd : parts.sum ∣ extent := Nat.dvd_of_mod_eq_zero (of_require hdivides).2
    have hwhole : parts.sum * (extent / parts.sum) = extent := Nat.mul_div_cancel' hdvd
    have hpieces : (parts.mapM fun part => Word.mul part (extent / parts.sum)) =
        .ok (parts.map fun part => part * (extent / parts.sum)) :=
      mapM_eq_ok fun part hpart => Word.mul_eq fun hbounded => by
        have hle := Nat.mul_le_mul_right (extent / parts.sum) (List.single_le_sum
          (fun _ _ => Nat.zero_le _) part hpart)
        exact Nat.lt_of_le_of_lt (hle.trans_eq hwhole) (hfits hbounded).1
    obtain rfl := Except.ok.inj (h.symm.trans hpieces)
    refine ⟨rfl, ?_⟩
    rw [Pieces.cuts, List.sum_map_mul_right, List.map_id', hwhole]

theorem describes {d : Split} (h : Registered d (x :: rest) outputs) :
    (Resolution.divided d.resolved d.pieces).Describes x.shape outputs := by
  obtain ⟨given, axis, haxis, rfl, hshapes⟩ := h.exists_resolved_again
    (f := fun given : Split => Axis.resolve given.axis x.rank)
    (s := fun given resolved => { given with resolved }) (fun _ => rfl) (fun _ _ => rfl)
    fun _ => rfl
  have hlt : axis < x.shape.length := Axis.lt_of_resolve haxis
  obtain ⟨extent, hextent, hshapes⟩ := bind_eq_ok_iff.mp hshapes
  obtain ⟨es, hes, hshapes⟩ := bind_eq_ok_iff.mp hshapes
  have hat : x.shape.extentAt axis = extent :=
    Option.some.inj ((Shape.getElem?_eq_extentAt hlt).symm.trans (present_eq_ok hextent))
  obtain ⟨rfl, hsum⟩ := cuts_of_extents ExactArithmetic.elim hes
  rw [← hat] at hsum hshapes
  exact ⟨⟨hlt, hsum⟩, (Except.ok.inj hshapes).symm⟩

end Split

theorem Extend.describes {d : Extend} (h : Registered d (x :: rest) outputs) :
    (Resolution.repeated d.resolved d.num).Describes x.shape outputs := by
  obtain ⟨extent, t, hextent, rfl⟩ := exists_output h
  have hlt : d.resolved < x.shape.length := (List.getElem?_eq_some_iff.mp hextent).1
  have hat : x.shape.extentAt d.resolved = extent :=
    Option.some.inj ((Shape.getElem?_eq_extentAt hlt).symm.trans hextent)
  refine ⟨hlt, ?_⟩
  rw [Resolution.shapes, hat]
  rfl

end DataflowCost
