import DataflowCost.Proofs.Infers
import DataflowCost.Proofs.Keys.Layout
import DataflowCost.Proofs.Resolution.Basic
import Mathlib.Algebra.Group.End
import Mathlib.Data.Fintype.EquivFin

/-! The order of axes as a permutation. To bring the axes into one order and then into another is to bring
them into the order that the product of the two permutations lists. -/
namespace DataflowCost

open Inference

namespace Transpose

variable {rank : Nat}

/-- The image of each position, from the first on. -/
def axisList (σ : Equiv.Perm (Fin rank)) : List Nat := List.ofFn fun i => (σ i).val

/-- A permutation is given by the images of the positions. The one that moves nothing need not be given. -/
inductive Gives : List Nat → Equiv.Perm (Fin rank) → Prop
  | omitted : Gives [] 1
  | listed (σ : Equiv.Perm (Fin rank)) : Gives (axisList σ) σ

/-- The shape whose axis `i` is axis `σ i`. -/
def reorder (σ : Equiv.Perm (Fin rank)) (s : Shape) : Shape := List.ofFn fun i => s.extentAt (σ i)

@[simp] theorem length_axisList (σ : Equiv.Perm (Fin rank)) : (axisList σ).length = rank :=
  List.length_ofFn

@[simp] theorem length_reorder (σ : Equiv.Perm (Fin rank)) (s : Shape) :
    (reorder σ s).length = rank :=
  List.length_ofFn

theorem extentAt_reorder (σ : Equiv.Perm (Fin rank)) (s : Shape) (i : Fin rank) :
    (reorder σ s).extentAt i = s.extentAt (σ i) := by
  have hi : i.val < (reorder σ s).length := by simp
  rw [Shape.extentAt, ← List.getElem_eq_getD (h := hi)]
  simp [reorder]

theorem reorder_reorder (σ τ : Equiv.Perm (Fin rank)) (s : Shape) :
    reorder τ (reorder σ s) = reorder (σ * τ) s := by
  -- The second order points into the outcome of the first, so the first permutation is applied last.
  refine congrArg List.ofFn (funext fun i => ?_)
  rw [extentAt_reorder, Equiv.Perm.mul_apply]

/-- A product lists for each position what the first factor lists where the second one points. -/
theorem axisList_mul (σ τ : Equiv.Perm (Fin rank)) :
    axisList (σ * τ) = (axisList τ).map fun i => (axisList σ).getD i 0 := by
  have hread (i : Fin rank) : (axisList σ).getD i 0 = (σ i).val := by
    rw [← List.getElem_eq_getD (h := by simp)]
    simp [axisList]
  change _ = (List.ofFn fun i => (τ i).val).map _
  rw [List.map_ofFn]
  refine congrArg List.ofFn (funext fun i => ?_)
  rw [Function.comp_apply, hread, Equiv.Perm.mul_apply]

/-- The positions in order are the list of the permutation that moves nothing. -/
theorem axisList_one : axisList (1 : Equiv.Perm (Fin rank)) = List.range rank := by
  apply List.ext_getElem
  · simp
  · intro i _ _
    simp [axisList]

theorem map_extentAt_axisList (σ : Equiv.Perm (Fin rank)) (s : Shape) :
    (axisList σ).map s.extentAt = reorder σ s :=
  List.map_ofFn

theorem reorder_one {s : Shape} (h : s.length = rank) : reorder (1 : Equiv.Perm (Fin rank)) s = s := by
  rw [← map_extentAt_axisList, axisList_one, ← h]
  simpa using s.map_extentAt_append []

theorem nodup_axisList (σ : Equiv.Perm (Fin rank)) : (axisList σ).Nodup :=
  List.nodup_ofFn.mpr (Fin.val_injective.comp σ.injective)

theorem lt_of_mem_axisList {σ : Equiv.Perm (Fin rank)} {axis : Nat} (h : axis ∈ axisList σ) :
    axis < rank := by
  obtain ⟨i, rfl⟩ := List.mem_ofFn.mp h
  exact (σ i).isLt

/-- All positions, in whatever order, list a permutation. -/
theorem exists_eq_axisList {axes : List Nat} (h : axes.Perm (List.range rank)) :
    ∃ σ : Equiv.Perm (Fin rank), axes = axisList σ := by
  have hlen : axes.length = rank := by simpa using h.length_eq
  have hlt : ∀ i : Fin rank, axes[i] < rank := fun i =>
    List.mem_range.mp (h.subset (List.getElem_mem _))
  have hinjective : Function.Injective fun i => (⟨axes[i], hlt i⟩ : Fin rank) := by
    intro i j hij
    have hnodup : axes.Nodup := h.nodup_iff.mpr List.nodup_range
    exact Fin.ext (hnodup.getElem_inj_iff.mp (Fin.val_eq_of_eq hij))
  -- Positions are finitely many, so a map of them that is injective is onto.
  refine ⟨.ofBijective _ (Finite.injective_iff_bijective.mp hinjective), ?_⟩
  apply List.ext_getElem
  · rw [length_axisList, hlen]
  · intro i _ _
    simp [axisList]

theorem eq_of_resolveAxes {permutation axes : List Nat} (hne : permutation ≠ [])
    (h : resolveAxes permutation rank = .ok axes) : axes = permutation := by
  rw [resolveAxes, if_neg (by simpa using hne)] at h
  obtain ⟨_, _, h⟩ := bind_eq_ok_iff.mp h
  obtain ⟨_, _, h⟩ := bind_eq_ok_iff.mp h
  exact (Except.ok.inj h).symm

theorem resolveAxes_axisList (σ : Equiv.Perm (Fin rank)) :
    resolveAxes (axisList σ) rank = .ok (axisList σ) := by
  by_cases hempty : axisList σ = []
  · -- There is only the one permutation of no positions.
    have hrank : rank = 0 := by rw [← length_axisList σ, hempty, List.length_nil]
    rw [hempty, hrank]
    rfl
  · rw [resolveAxes, if_neg (by simpa using hempty), require, if_pos (length_axisList σ), require,
      if_pos ⟨nodup_axisList σ, fun _ => lt_of_mem_axisList⟩]
    rfl

theorem resolveAxes_eq_ok_iff {permutation axes : List Nat} :
    resolveAxes permutation rank = .ok axes ↔
      ∃ σ : Equiv.Perm (Fin rank), Gives permutation σ ∧ axes = axisList σ := by
  constructor
  · intro h
    by_cases hempty : permutation = []
    · subst hempty
      exact ⟨1, .omitted, (Except.ok.inj h).symm.trans axisList_one.symm⟩
    · -- A list that is given is kept if it lists all positions.
      obtain ⟨σ, hσ⟩ := exists_eq_axisList (perm_of_resolveAxes h)
      obtain rfl := eq_of_resolveAxes hempty h
      exact ⟨σ, hσ ▸ .listed σ, hσ⟩
  · rintro ⟨σ, hgives, rfl⟩
    cases hgives with
    | omitted =>
      rw [axisList_one]
      rfl
    | listed => exact resolveAxes_axisList σ

theorem outShape_eq (σ : Equiv.Perm (Fin rank)) {s : Shape} (h : s.length = rank) :
    ((axisList σ).mapM fun axis => present s[axis]?) = .ok (reorder σ s) := by
  have hread : ∀ axis ∈ axisList σ, present s[axis]? = .ok (s.extentAt axis) := by
    intro axis haxis
    rw [Shape.getElem?_eq_extentAt (h ▸ lt_of_mem_axisList haxis)]
    rfl
  rw [mapM_eq_ok hread, map_extentAt_axisList]

end Transpose

namespace TensorType

/-- The type of a tensor whose axis `i` is axis `σ i`. -/
def reordered {rank : Nat} (x : TensorType) (σ : Equiv.Perm (Fin rank)) : TensorType :=
  ⟨Transpose.reorder σ x.shape, x.dtype⟩

theorem reordered_reordered {rank : Nat} (x : TensorType) (σ τ : Equiv.Perm (Fin rank)) :
    (x.reordered σ).reordered τ = x.reordered (σ * τ) := by
  rw [reordered, reordered, Transpose.reorder_reorder, reordered]

theorem reordered_one (x : TensorType) : x.reordered (1 : Equiv.Perm (Fin x.rank)) = x := by
  have h : Transpose.reorder (1 : Equiv.Perm (Fin x.rank)) x.shape = x.shape :=
    Transpose.reorder_one rfl
  rw [reordered, h]

end TensorType

namespace Graph

variable {g : Graph} {ids : List TensorId} {x : TensorType} {rank : Nat}

theorem infer_transpose_eq_ok_iff [Build] {d : Transpose} {inferred : Inferred}
    (hrank : x.shape.length = rank)
    (htypes : g.typesOf? ids = some [x]) :
    g.infer (.transpose d) ids = .ok inferred ↔ ∃ σ : Equiv.Perm (Fin rank),
      Transpose.Gives d.permutation σ ∧
      inferred = ⟨.transpose { d with resolved := Transpose.axisList σ }, [x.reordered σ]⟩ := by
  subst hrank
  have hwrap : Operator.Wraps Operator.transpose := ⟨fun _ _ => rfl, fun _ _ hole => hole⟩
  have hshapes (d' : Transpose) : Family.outShapes d' [x] = (do
      return [← Transpose.resolveAxes d'.permutation x.shape.length >>= fun axes =>
        axes.mapM fun axis => present x.shape[axis]?]) := rfl
  rw [infer_eq_of_resolved_again hwrap htypes rfl
    (f := fun given : Transpose => Transpose.resolveAxes given.permutation x.shape.length)
    (s := fun given resolved => { given with resolved }) rfl (fun _ => rfl) hshapes fun _ => rfl]
  rw [within_eq_ok_iff, bind_eq_ok_iff]
  constructor
  · rintro ⟨axes, haxes, h⟩
    obtain ⟨σ, hgives, rfl⟩ := Transpose.resolveAxes_eq_ok_iff.mp haxes
    rw [Transpose.outShape_eq σ rfl] at h
    exact ⟨σ, hgives, (Except.ok.inj h).symm⟩
  · rintro ⟨σ, hgives, rfl⟩
    refine ⟨_, Transpose.resolveAxes_eq_ok_iff.mpr ⟨σ, hgives, rfl⟩, ?_⟩
    rw [Transpose.outShape_eq σ rfl]
    rfl

/-- However a permutation is given, the input is reordered by it. -/
theorem exists_infer_transpose [Build] {d : Transpose} {σ : Equiv.Perm (Fin rank)}
    (hrank : x.shape.length = rank) (htypes : g.typesOf? ids = some [x])
    (hgives : Transpose.Gives d.permutation σ) :
    ∃ op, g.infer (.transpose d) ids = .ok ⟨op, [x.reordered σ]⟩ :=
  ⟨_, (infer_transpose_eq_ok_iff hrank htypes).mpr ⟨σ, hgives, rfl⟩⟩

/-- Transpositions act as the permutations that they are given, on shapes of every rank. A list is accepted
if it gives a permutation, and only then; one transposition after another is the one whose entry `i` is
entry `q i` of `p`; and the inverse restores the input. -/
theorem transpose_acts [Build] (htypes : g.typesOf? ids = some [x]) :
    (∀ {d : Transpose}, (∃ inferred, g.infer (.transpose d) ids = .ok inferred) ↔
      ∃ σ : Equiv.Perm (Fin x.rank), Transpose.Gives d.permutation σ) ∧
    (∀ {d : Transpose} {σ : Equiv.Perm (Fin x.rank)}, Transpose.Gives d.permutation σ →
      ∃ op, g.infer (.transpose d) ids = .ok ⟨op, [x.reordered σ]⟩) ∧
    ∀ {p : Equiv.Perm (Fin x.rank)} {g' : Graph} {ids' : List TensorId},
      g'.typesOf? ids' = some [x.reordered p] →
      (∀ {d both : Transpose} {q : Equiv.Perm (Fin x.rank)}, Transpose.Gives d.permutation q →
        both.permutation = ((Transpose.axisList q).map fun i => (Transpose.axisList p).getD i 0) →
        ∃ y, (∃ op, g'.infer (.transpose d) ids' = .ok ⟨op, [y]⟩) ∧
          ∃ op, g.infer (.transpose both) ids = .ok ⟨op, [y]⟩) ∧
      ∀ {d : Transpose}, Transpose.Gives d.permutation p⁻¹ →
        ∃ op, g'.infer (.transpose d) ids' = .ok ⟨op, [x]⟩ := by
  have hfirst {d : Transpose} {σ : Equiv.Perm (Fin x.rank)} (hgives : Transpose.Gives d.permutation σ) :
      ∃ op, g.infer (.transpose d) ids = .ok ⟨op, [x.reordered σ]⟩ :=
    exists_infer_transpose rfl htypes hgives
  refine ⟨?_, hfirst, ?_⟩
  · intro d
    constructor
    · rintro ⟨inferred, h⟩
      obtain ⟨σ, hgives, _⟩ := (infer_transpose_eq_ok_iff rfl htypes).mp h
      exact ⟨σ, hgives⟩
    · rintro ⟨σ, hgives⟩
      obtain ⟨op, h⟩ := hfirst hgives
      exact ⟨_, h⟩
  · intro p g' ids' htypes'
    -- What is reordered has as many axes as the input, so it is reordered by permutations of the same.
    have hsecond {d : Transpose} {q : Equiv.Perm (Fin x.rank)}
        (hgives : Transpose.Gives d.permutation q) :
        ∃ op, g'.infer (.transpose d) ids' = .ok ⟨op, [x.reordered (p * q)]⟩ := by
      have h := exists_infer_transpose (Transpose.length_reorder p x.shape) htypes' hgives
      rwa [TensorType.reordered_reordered] at h
    constructor
    · intro d both q hgives hboth
      rw [← Transpose.axisList_mul] at hboth
      exact ⟨x.reordered (p * q), hsecond hgives, hfirst (hboth ▸ .listed (p * q))⟩
    · intro d hgives
      have h := hsecond hgives
      rwa [mul_inv_cancel, TensorType.reordered_one] at h

section

open scoped WrappingArithmetic

/-- An image with its channels last, and the same image with its channels first. -/
def channelsLast : Graph :=
  (ofCalls [.tensor ⟨[8, 6, 3], .float32⟩, .tensor ⟨[3, 8, 6], .float32⟩]).1

/-- Three axes that move in a circle: the last becomes the first, and by the inverse the last again. Two
steps around the circle are one step back. -/
theorem transpose_acts_channelsLast :
    let first : Transpose := { permutation := [2, 0, 1] }
    let last : Transpose := { permutation := [1, 2, 0] }
    let kept : Transpose := {}
    channelsLast.typesOf? [⟨0⟩] = some [⟨[8, 6, 3], .float32⟩] ∧
      channelsLast.typesOf? [⟨1⟩] = some [⟨[3, 8, 6], .float32⟩] ∧
      (∃ op, channelsLast.infer (.transpose first) [⟨0⟩] = .ok ⟨op, [⟨[3, 8, 6], .float32⟩]⟩) ∧
      (∃ op, channelsLast.infer (.transpose last) [⟨1⟩] = .ok ⟨op, [⟨[8, 6, 3], .float32⟩]⟩) ∧
      (∃ op, channelsLast.infer (.transpose kept) [⟨0⟩] = .ok ⟨op, [⟨[8, 6, 3], .float32⟩]⟩) ∧
      ∃ y, (∃ op, channelsLast.infer (.transpose first) [⟨1⟩] = .ok ⟨op, [y]⟩) ∧
        ∃ op, channelsLast.infer (.transpose last) [⟨0⟩] = .ok ⟨op, [y]⟩ := by
  intro first last kept
  have htypes : channelsLast.typesOf? [⟨0⟩] = some [⟨[8, 6, 3], .float32⟩] := by rfl
  have htypes' : channelsLast.typesOf? [⟨1⟩] = some [⟨[3, 8, 6], .float32⟩] := by rfl
  let circle : Equiv.Perm (Fin 3) := (finRotate 3)⁻¹
  have hfirst : Transpose.Gives first.permutation circle := .listed circle
  have hlast : Transpose.Gives last.permutation circle⁻¹ := .listed circle⁻¹
  have hkept : Transpose.Gives kept.permutation (1 : Equiv.Perm (Fin 3)) := .omitted
  obtain ⟨_, hreorder, hthen⟩ := transpose_acts htypes
  obtain ⟨hagain, hback⟩ := hthen (p := circle) htypes'
  exact ⟨htypes, htypes', hreorder hfirst, hback hlast, hreorder hkept,
    hagain hfirst rfl⟩

end

end Graph

end DataflowCost
