import DataflowCost.Families.Gather
import DataflowCost.Families.Resize
import DataflowCost.Proofs.Families.Basic

/-! Families that select by values of an input. Values that a host knows are read in the number that
the shape of that input promises. -/
namespace DataflowCost

open Inference Family

variable {hole : Prop}

theorem meets_requireIndexType (indices : TensorType) :
    Meets (requireIndexType indices) hole fun _ => True :=
  (meets_require _ _).imp fun _ _ => trivial

namespace Gather

theorem meets_resolve [Build] (d : Gather) (data indices : TensorType) :
    Meets (d.resolve data indices) hole fun r =>
      Axis.resolve r.1.axis data.rank = .ok r.1.resolved := by
  refine (Axis.meets_resolve d.axis data.rank).self.bind ?_
  intro axis haxis
  refine (meets_requireIndexType indices).bind ?_
  intro _ _
  refine (meets_entry (Axis.lt_of_resolve haxis)).bind ?_
  intro extent _
  exact meets_ok haxis

theorem meets_checkIndices (axis : Nat) (extent : Int) (indices : List Int) :
    Meets (checkIndices axis extent indices) hole fun _ => True := by
  unfold checkIndices
  cases indices.find? fun index => index < 0 || extent ≤ index with
  | none => exact meets_ok trivial
  | some index => exact meets_invalid _

theorem meets_prepare [Build] (d : Gather) (data indices : TensorType) (rest : List TensorType) :
    (d.prepare (data :: indices :: rest)).Meets (data :: indices :: rest) hole
      fun d' => Axis.resolve d'.axis data.rank = .ok d'.resolved := by
  refine Preparation.meets_after (d.meets_resolve data indices) ?_
  rintro ⟨resolved, extent⟩ hresolved
  refine ⟨indices, rfl, ?_⟩
  intro guid values
  cases values with
  | none => exact meets_ok hresolved
  | some values => exact (meets_checkIndices _ extent values).bind fun _ _ => meets_ok hresolved

theorem meets_outShape (d : Gather) (data indices : Shape) :
    Meets (d.outShape data indices) hole fun _ => True := by
  refine (Axis.meets_resolve d.axis data.length).bind ?_
  intro axis haxis
  refine (Shape.meets_before (Nat.le_of_lt haxis)).bind ?_
  intro outer _
  refine (Shape.meets_from haxis).bind ?_
  intro inner _
  exact meets_ok trivial

end Gather

instance [Build] : LawfulFamily Gather where
  Resolved d inputs := ∀ data ∈ inputs.head?, Axis.resolve d.axis data.rank = .ok d.resolved
  prepare_meets d inputs h := by
    obtain ⟨data, indices, rest, rfl⟩ := Arity.exists_cons₂_of_accepts h (Nat.le_refl 2)
    refine (d.meets_prepare data indices rest).imp ?_
    intro d' hd'
    exact ⟨rfl, by simpa using hd'⟩
  outShapes_meets d inputs h hd := by
    obtain ⟨data, indices, rest, rfl⟩ := Arity.exists_cons₂_of_accepts h (Nat.le_refl 2)
    have hlt : d.resolved < data.shape.length := Axis.lt_of_resolve (hd data rfl)
    refine meets_single rfl (d.meets_outShape data.shape indices.shape) ?_
    intro out outputs _
    exact ⟨fun _ => exists_bind rfl (exists_bind rfl (exists_bind rfl
      (exists_bind (Shape.from?_of_le hlt)
        (exists_bind (Shape.before?_of_le (Nat.le_of_lt hlt)) ⟨_, rfl⟩)))), ⟨_, rfl⟩⟩
  outTypes_meets d inputs h := by
    obtain ⟨data, indices, rest, rfl⟩ := Arity.exists_cons₂_of_accepts h (Nat.le_refl 2)
    exact (meets_requireIndexType indices).bind fun _ _ => meets_ok rfl

theorem GatherElements.meets_outShape (d : GatherElements) (data indices : Shape) :
    Meets (d.outShape data indices) hole fun _ => True := by
  refine (Axis.meets_resolve d.axis data.length).bind ?_
  intro axis _
  refine (meets_require _ _).bind ?_
  intro _ _
  refine (meets_forM ?_).bind fun _ _ => meets_ok trivial
  intro p _
  exact (meets_require _ _).imp fun _ _ => trivial

theorem GatherElements.exists_discontinuity {α : Type} [Scalar α] (d : GatherElements) (s : Shape) :
    ∃ slowdown : α, d.discontinuity? s = some slowdown := by
  unfold discontinuity?
  by_cases h : d.resolved + 1 < s.length
  · rw [if_pos h, Shape.from?_of_le (Nat.le_of_lt h)]
    exact ⟨_, rfl⟩
  · rw [if_neg h]
    exact ⟨_, rfl⟩

instance [Build] : LawfulFamily GatherElements where
  prepare_meets d inputs h := by
    obtain ⟨data, rest, rfl⟩ := Arity.exists_cons_of_accepts h (Nat.le_succ 1)
    exact (Axis.meets_resolve d.axis data.rank).bind fun _ _ => meets_ok ⟨rfl, trivial⟩
  outShapes_meets d inputs h _ := by
    obtain ⟨data, indices, rest, rfl⟩ := Arity.exists_cons₂_of_accepts h (Nat.le_refl 2)
    refine meets_single rfl (d.meets_outShape data.shape indices.shape) fun _ _ _ => ⟨?_, ⟨_, rfl⟩⟩
    intro α _ cx
    obtain ⟨slowdown, hslowdown⟩ := d.exists_discontinuity (α := α) data.shape
    exact exists_bind rfl (exists_bind rfl (exists_bind rfl (exists_bind hslowdown ⟨_, rfl⟩)))
  outTypes_meets d inputs h := by
    obtain ⟨data, indices, rest, rfl⟩ := Arity.exists_cons₂_of_accepts h (Nat.le_refl 2)
    exact (meets_requireIndexType indices).bind fun _ _ => meets_ok rfl

namespace Resize

theorem meets_resolveAxes (axes : Option (List Int)) (rank count : Nat) :
    Meets (resolveAxes axes rank count) hole fun named =>
      named.length = count ∧ ∀ axis ∈ named, axis < rank := by
  cases axes with
  | none =>
    refine (meets_require _ _).bind ?_
    rintro _ rfl
    exact meets_ok ⟨List.length_range, fun axis haxis => List.mem_range.mp haxis⟩
  | some axes =>
    refine (meets_require _ _).bind ?_
    rintro _ rfl
    refine (meets_mapM (P := fun _ position => position < rank) ?_).imp ?_
    · intro axis _
      by_cases hneg : axis < 0
      · rw [if_pos hneg]
        exact meets_unsupported _
      · rw [if_neg hneg]
        by_cases hlt : axis < rank
        · rw [if_pos hlt]
          refine meets_ok ?_
          omega
        · rw [if_neg hlt]
          exact meets_invalid _
    · intro named hnamed
      refine ⟨hnamed.length_eq.symm, ?_⟩
      intro axis haxis
      obtain ⟨i, hi, rfl⟩ := List.getElem_of_mem haxis
      exact hnamed.get (hnamed.length_eq ▸ hi) hi

/-- A parameter that has one value for each axis to resize. -/
theorem meets_checkShapes {ρ : Type} (d : Resize ρ) (x parameter : TensorType)
    (rest : List TensorType) :
    Meets (d.checkShapes (x :: parameter :: rest)) hole fun r =>
      r.1 = x.shape ∧ r.2.length = parameter.size ∧ ∀ axis ∈ r.2, axis < x.shape.length := by
  obtain ⟨shape, dtype⟩ := parameter
  rcases shape with _ | ⟨count, _ | _⟩
  · exact meets_invalid _
  · have hcount : TensorType.size ⟨[count], dtype⟩ = count := Nat.mul_one count
    refine (meets_resolveAxes d.axes x.rank count).bind ?_
    rintro axes ⟨hlen, hlt⟩
    refine (meets_require _ _).bind ?_
    intro _ _
    cases (x :: (⟨[count], dtype⟩ : TensorType) :: rest)[2]? with
    | none => exact meets_ok ⟨rfl, hlen.trans hcount.symm, hlt⟩
    | some region =>
      refine (meets_require _ _).bind ?_
      intro _ _
      exact meets_ok ⟨rfl, hlen.trans hcount.symm, hlt⟩
  · exact meets_invalid _

variable {ρ : Type} [ScaleFactor ρ]

theorem meets_place {rank : Nat} {axes : List Nat} (haxes : ∀ axis ∈ axes, axis < rank)
    (factors : List ρ) : Meets (place rank axes factors) hole fun _ => True := by
  refine (meets_foldlM (I := fun out => out.length = rank) List.length_replicate ?_).imp
    fun _ _ => trivial
  rintro out hout ⟨axis, factor⟩ hmem
  refine (meets_overwrite (hout ▸ haxes axis (List.of_mem_zip hmem).1)).imp ?_
  rintro _ rfl
  rw [List.length_set, hout]

theorem meets_ratios {s : Shape} {axes : List Nat} (haxes : ∀ axis ∈ axes, axis < s.length)
    (sizes : List Int) :
    Meets (ratios (ρ := ρ) s axes sizes) hole fun own =>
      own.length = min axes.length sizes.length := by
  refine (meets_mapM (P := fun _ _ => True) ?_).imp ?_
  · rintro ⟨axis, size⟩ hmem
    refine (meets_entry (haxes axis (List.of_mem_zip hmem).1)).bind ?_
    intro extent _
    exact meets_ok trivial
  · intro own hown
    rw [← hown.length_eq, List.length_zip]

/-- Sizes fewer than axes are the only ones that leave an axis without its factor. -/
theorem meets_scalesFromSizes {policy : RatioPolicy} {s : Shape} {axes : List Nat}
    (haxes : ∀ axis ∈ axes, axis < s.length) {sizes : List Int}
    (hsizes : sizes.length < axes.length → hole) :
    Meets (scalesFromSizes (ρ := ρ) policy s axes sizes) hole fun _ => True := by
  refine (meets_ratios haxes sizes).bind ?_
  intro own hown
  refine (meets_mapM (P := fun _ _ => True) ?_).bind ?_
  · rintro ⟨axis, i⟩ hmem
    have hi : i < axes.length := (List.getElem?_eq_some_iff.mp
      (List.mk_mem_zipIdx_iff_getElem?.mp hmem)).1
    refine (meets_present ?_).bind ?_
    -- A factor is missing at an axis that has no size only.
    · intro hnone
      have hle := List.getElem?_eq_none_iff.mp hnone
      exact hsizes (by omega)
    · intro factor _
      exact meets_ok trivial
  · intro factors _
    exact meets_place haxes factors

theorem meets_resolveSizes {d : Resize ρ} {s : Shape} {axes : List Nat} {guid : Nat}
    {parameter : TensorType} (hlen : axes.length = parameter.size)
    (haxes : ∀ axis ∈ axes, axis < s.length) (sizes : Option (List Int)) :
    Meets (d.resolveSizes s axes guid sizes) (Misfit sizes parameter) fun _ => True := by
  cases sizes with
  | none => exact meets_invalid _
  | some sizes =>
    refine (meets_require _ _).bind ?_
    intro _ _
    refine (meets_mapM fun axis haxis => meets_entry (haxes axis haxis)).bind ?_
    intro extents _
    refine (meets_require _ _).bind ?_
    intro _ _
    refine (meets_scalesFromSizes haxes ?_).bind fun _ _ => meets_ok trivial
    intro hfew
    exact ⟨sizes, rfl, by omega⟩

theorem meets_resolveScales {d : Resize ρ} {s : Shape} {axes : List Nat} {guid : Nat}
    (haxes : ∀ axis ∈ axes, axis < s.length) (scales : Option (List ρ)) :
    Meets (d.resolveScales s axes guid scales) hole fun _ => True := by
  cases scales with
  | none => exact meets_invalid _
  | some scales =>
    refine (meets_require _ _).bind ?_
    intro _ _
    exact (meets_place haxes scales).bind fun _ _ => meets_ok trivial

theorem meets_prepare (d : Resize ρ) (x parameter : TensorType) (rest : List TensorType) :
    (d.prepare (x :: parameter :: rest)).Meets (x :: parameter :: rest) hole fun _ => True := by
  refine Preparation.meets_after (d.meets_checkShapes x parameter rest) ?_
  rintro ⟨s, axes⟩ ⟨rfl, hlen, hlt⟩
  cases d.target with
  | sizes =>
    exact ⟨parameter, rfl, fun _ values =>
      (meets_resolveSizes hlen hlt values).mono Or.inr fun _ => id⟩
  | scales => exact ⟨parameter, rfl, fun _ values => meets_resolveScales hlt values⟩

end Resize

instance [Build] : LawfulFamily (Resize Float32) where
  prepare_meets d inputs h := by
    obtain ⟨x, parameter, rest, rfl⟩ := Arity.exists_cons₂_of_accepts h (Nat.le_refl 2)
    exact (d.meets_prepare x parameter rest).imp fun _ _ => ⟨rfl, trivial⟩
  outShapes_meets d inputs h _ := by
    obtain ⟨x, parameter, rest, rfl⟩ := Arity.exists_cons₂_of_accepts h (Nat.le_refl 2)
    have hshape {hole : Prop} : Meets (d.outShape x.shape) hole fun _ => True :=
      (meets_require _ _).bind fun _ _ => meets_ok trivial
    exact meets_single rfl hshape fun _ _ _ => ⟨fun _ => ⟨_, rfl⟩, ⟨_, rfl⟩⟩
  outTypes_meets d inputs h := by
    obtain ⟨x, parameter, rest, rfl⟩ := Arity.exists_cons₂_of_accepts h (Nat.le_refl 2)
    refine (meets_require _ _).bind ?_
    intro _ _
    cases (x :: parameter :: rest)[2]? with
    | none => exact meets_ok rfl
    | some region => exact (meets_require _ _).bind fun _ _ => meets_ok rfl

end DataflowCost
