import DataflowCost.Proofs.ExactForms
import DataflowCost.Proofs.Families.Window
import Mathlib.Algebra.Order.Floor.Div
import Mathlib.Data.List.Forall2

/-! Windows in closed form: how many positions one has on an axis, what a window over several axes
resolves to, and when a convolution has an output. -/
namespace DataflowCost

open Inference

namespace Inference

theorem quotient_eq {a b : Nat} (h : 0 < b) : quotient a b = .ok (a / b) :=
  if_neg (Nat.ne_of_gt h)

theorem remainder_eq_ok_iff {a b r : Nat} : remainder a b = .ok r ↔ 0 < b ∧ r = a % b := by
  constructor
  · intro h
    have hb : b ≠ 0 := by
      rintro rfl
      cases h
    have hmeets : Meets (remainder a b) True (· = a % b) := meets_remainder fun _ => trivial
    exact ⟨Nat.pos_of_ne_zero hb, hmeets.answer h⟩
  · rintro ⟨hb, rfl⟩
    exact if_neg (Nat.ne_of_gt hb)

theorem quotientUp_eq {a b : Nat} (h : 0 < b) : quotientUp a b = .ok (a ⌈/⌉ b) :=
  if_neg (Nat.ne_of_gt h)

end Inference

namespace Window

variable {input kernel stride dilation pad : Nat}

theorem positions_eq_ok_iff [Build] {both : Nat} (hboth : Word.mul 2 pad = .ok both)
    (h : 0 < stride) {p : Nat} : positions input kernel stride dilation pad = .ok p ↔
      0 < kernel ∧ span kernel dilation < Word.limit ∧ input + both < Word.limit ∧
        span kernel dilation ≤ input + both ∧
        p = (input + both - span kernel dilation) / stride + 1 := by
  rw [positions_eq hboth]
  simp only [require_bind_eq_ok_iff, quotient_eq h]
  refine and_congr_right fun _ => and_congr_right fun _ => and_congr_right fun _ =>
    and_congr_right fun _ => ?_
  exact ok_eq_ok_iff

/-- Positions are only counted once the padding of both ends has been added up. -/
theorem exists_both_of_positions [Build] {p : Nat}
    (h : positions input kernel stride dilation pad = .ok p) :
    ∃ both, Word.mul 2 pad = .ok both := by
  obtain ⟨_, _, h⟩ := bind_eq_ok_iff.mp h
  obtain ⟨_, _, h⟩ := bind_eq_ok_iff.mp h
  obtain ⟨both, hboth, _⟩ := bind_eq_ok_iff.mp h
  exact ⟨both, hboth⟩

/-- How far a window reaches that takes one position for every `stride` elements. -/
def reach (input kernel stride dilation : Nat) : Nat :=
  (input ⌈/⌉ stride - 1) * stride + span kernel dilation

/-- The padding that this takes, at both ends together. -/
def shortfall (input kernel stride dilation : Nat) : Nat :=
  reach input kernel stride dilation - input

theorem samePad_eq [Build] (h : 0 < stride)
    (hfits : Build.Bounded → reach input kernel stride dilation < Word.limit) :
    samePad input kernel stride dilation = .ok (shortfall input kernel stride dilation / 2) := by
  unfold shortfall
  unfold reach span at *
  rw [Nat.mul_comm (kernel - 1), ← Nat.add_assoc] at *
  refine bind_eq_ok_iff.mpr ⟨_, quotientUp_eq h, ?_⟩
  refine bind_eq_ok_iff.mpr ⟨_, Word.mul_eq fun hbounded => ?_, ?_⟩
  · exact Nat.lt_of_le_of_lt (by omega) (hfits hbounded)
  refine bind_eq_ok_iff.mpr ⟨_, Word.mul_eq fun hbounded => ?_, ?_⟩
  · exact Nat.lt_of_le_of_lt (by omega) (hfits hbounded)
  refine bind_eq_ok_iff.mpr ⟨_, Word.add_eq fun hbounded => ?_, ?_⟩
  · exact Nat.lt_of_le_of_lt (by omega) (hfits hbounded)
  exact bind_eq_ok_iff.mpr ⟨_, Word.add_eq hfits, rfl⟩

end Window

namespace Sliding

variable {n : Nat} {w w' : Sliding n} {spatial kernel : List Nat}

/-- The pads of a window on axes of these extents. -/
def padsFor [Build] (w : Sliding n) (spatial kernel : List Nat) : Inference (Vector Nat n) :=
  match w.padding with
  | .explicit pads => explicitPads n pads
  | .valid => .ok (.replicate n 0)
  | .same => eachAxis n fun i => do
    Window.samePad (← present spatial[i.val]?) (← present kernel[i.val]?)
      (w.strides.get i) (w.dilations.get i)

/-- Steps are positive on every axis. -/
structure Steps (w : Sliding n) : Prop where
  strides : ∀ i : Fin n, 0 < w.strides.get i
  dilations : ∀ i : Fin n, 0 < w.dilations.get i

theorem all_toList_iff {v : Vector Nat n} : v.toList.all (0 < ·) ↔ ∀ i : Fin n, 0 < v.get i := by
  rw [List.all_eq_true]
  constructor
  · intro h i
    exact of_decide_eq_true (h _ (Vector.mem_toList_iff.mpr (Vector.getElem_mem i.isLt)))
  · intro h a ha
    obtain ⟨i, hi, rfl⟩ := Vector.getElem_of_mem (Vector.mem_toList_iff.mp ha)
    exact decide_eq_true (h ⟨i, hi⟩)

theorem checkSteps_eq_ok_iff {u : Unit} : w.checkSteps = .ok u ↔ w.Steps := by
  unfold checkSteps
  rw [require_bind_eq_ok_iff, all_toList_iff]
  constructor
  · rintro ⟨hstrides, h⟩
    exact ⟨hstrides, all_toList_iff.mp (of_require h)⟩
  · rintro ⟨hstrides, hdilations⟩
    exact ⟨hstrides, if_pos (all_toList_iff.mpr hdilations)⟩

theorem resolve_eq_ok_iff [Build] : w.resolve spatial kernel = .ok w' ↔
    w.Steps ∧ ∃ pads, w.padsFor spatial kernel = .ok pads ∧ w' = { w with pads } := by
  have hpads : w.resolve spatial kernel =
      w.checkSteps >>= fun _ => w.padsFor spatial kernel >>= fun pads => .ok { w with pads } := by
    unfold resolve padsFor
    cases w.padding <;> rfl
  rw [hpads, bind_eq_ok_iff]
  constructor
  · rintro ⟨u, hsteps, h⟩
    obtain ⟨pads, hpads, h⟩ := bind_eq_ok_iff.mp h
    exact ⟨checkSteps_eq_ok_iff.mp hsteps, pads, hpads, (Except.ok.inj h).symm⟩
  · rintro ⟨hsteps, pads, hpads, rfl⟩
    exact ⟨(), checkSteps_eq_ok_iff.mpr hsteps, bind_eq_ok_iff.mpr ⟨pads, hpads, rfl⟩⟩

theorem mapM_finRange_eq_ok_iff {f : Fin n → Inference Nat} {extents : List Nat} :
    (List.finRange n).mapM f = .ok extents ↔
      ∃ v : Vector Nat n, extents = v.toList ∧ ∀ i : Fin n, f i = .ok (v.get i) := by
  rw [mapM_eq_ok_iff, List.forall₂_iff_get]
  constructor
  · rintro ⟨hlen, h⟩
    rw [List.length_finRange] at hlen
    refine ⟨⟨extents.toArray, hlen.symm⟩, rfl, ?_⟩
    intro i
    have hvalue : f i = .ok extents[i.val] := by simpa using h i.val (by simp) (by omega)
    exact hvalue
  · rintro ⟨v, rfl, h⟩
    refine ⟨by simp, ?_⟩
    intro i hi hv
    have hlt : i < n := by simpa using hi
    have hvalue : f ⟨i, hlt⟩ = .ok v[i] := h ⟨i, hlt⟩
    simpa using hvalue

theorem getElem?_toList (v : Vector Nat n) (i : Fin n) : v.toList[i.val]? = some (v.get i) := by
  rw [Vector.getElem?_toList, Vector.getElem?_eq_getElem i.isLt]
  rfl

theorem perAxis?_toList (v : Vector Nat n) : perAxis? n v.toList = some v := by
  rw [perAxis?, dif_pos v.length_toList]
  rfl

theorem eachAxis_eq_ok_iff {f : Fin n → Inference Nat} {v : Vector Nat n} :
    eachAxis n f = .ok v ↔ ∀ i : Fin n, f i = .ok (v.get i) := by
  unfold eachAxis
  rw [bind_eq_ok_iff]
  constructor
  · rintro ⟨_, hvalues, hv⟩
    obtain ⟨u, rfl, hu⟩ := mapM_finRange_eq_ok_iff.mp hvalues
    rw [perAxis?_toList] at hv
    obtain rfl := Except.ok.inj hv
    exact hu
  · intro h
    refine ⟨v.toList, mapM_finRange_eq_ok_iff.mpr ⟨v, rfl, h⟩, ?_⟩
    rw [perAxis?_toList]
    rfl

theorem explicitPads_toList (v : Vector Nat n) : explicitPads n v.toList = .ok v := by
  rw [explicitPads, perAxis?_toList]

theorem eq_pair (v : Vector Nat 2) : v = #v[v.get Window.rowAxis, v.get Window.columnAxis] := by
  ext i hi
  match i, hi with
  | 0, _ | 1, _ => rfl

section Vectors

variable (w : Sliding n) (spatial kernel : Vector Nat n)

/-- The extent that the window leaves of one axis. -/
def extentOn [Build] (i : Fin n) : Inference Nat :=
  match w.padding with
  | .same => quotientUp (spatial.get i) (w.strides.get i)
  | _ => Window.positions (spatial.get i) (kernel.get i) (w.strides.get i) (w.dilations.get i)
      (w.pads.get i)

theorem extentOn_of_ne_same [Build] {w : Sliding n} {spatial kernel : Vector Nat n}
    (h : w.padding ≠ .same) (i : Fin n) : w.extentOn spatial kernel i = Window.positions (spatial.get i)
      (kernel.get i) (w.strides.get i) (w.dilations.get i) (w.pads.get i) := by
  unfold extentOn
  cases hpadding : w.padding with
  | same => exact absurd hpadding h
  | explicit pads | valid => rfl

theorem outExtents_toList [Build] : w.outExtents spatial.toList kernel.toList =
    (List.finRange n).mapM (w.extentOn spatial kernel) := by
  unfold outExtents
  congr 1
  funext i
  rw [getElem?_toList, getElem?_toList]
  unfold extentOn
  cases w.padding <;> rfl

theorem padsFor_same [Build] (hpadding : w.padding = .same)
    (hstrides : ∀ i : Fin n, 0 < w.strides.get i)
    (hfits : Build.Bounded → ∀ i : Fin n, Window.reach (spatial.get i) (kernel.get i)
      (w.strides.get i) (w.dilations.get i) < Word.limit) {pads : Vector Nat n} :
    w.padsFor spatial.toList kernel.toList = .ok pads ↔
      ∀ i : Fin n, pads.get i = Window.shortfall (spatial.get i) (kernel.get i) (w.strides.get i)
        (w.dilations.get i) / 2 := by
  unfold padsFor
  rw [hpadding]
  simp only [eachAxis_eq_ok_iff]
  refine forall_congr' fun i => ?_
  rw [getElem?_toList, getElem?_toList]
  change Window.samePad (spatial.get i) (kernel.get i) (w.strides.get i) (w.dilations.get i) =
    .ok (pads.get i) ↔ _
  rw [Window.samePad_eq (hstrides i) fun hbounded => hfits hbounded i, Except.ok.injEq, eq_comm]

end Vectors

end Sliding

end DataflowCost
