import DataflowCost.Families.Permute
import DataflowCost.Families.Reshape
import DataflowCost.Proofs.Families.Basic

/-! Families that regroup or permute axes. Resolution names positions of the shape at hand only, and
divides by products that it has checked. -/
namespace DataflowCost

open Inference Family

variable {hole : Prop}

namespace Reshape

theorem meets_patternGo (input : Shape) (target : List Int) (position : Nat) (open? : Option Nat) :
    Meets (pattern.go input target position open?) hole fun r =>
      r.1.length = target.length ∧
        ∀ p ∈ r.2, p ∈ open? ∨ position ≤ p ∧ p < position + target.length := by
  induction target generalizing position open? with
  | nil => exact meets_ok ⟨rfl, fun _ hp => .inl hp⟩
  | cons extent rest ih =>
    -- Whatever is put at this position, the rest goes on from the next one.
    have hrest {open' : Option Nat} (a : Nat)
        (h : ∀ p ∈ open', p ∈ open? ∨ p = position) :
        Meets (do
          let r ← pattern.go input rest (position + 1) open'
          return (a :: r.1, r.2)) hole fun r =>
            r.1.length = (extent :: rest).length ∧
              ∀ p ∈ r.2, p ∈ open? ∨ position ≤ p ∧ p < position + (extent :: rest).length := by
      refine (ih (position + 1) open').bind ?_
      rintro ⟨out, found⟩ ⟨hlen, hfound⟩
      refine meets_ok ⟨congrArg Nat.succ hlen, ?_⟩
      intro p hp
      rw [List.length_cons]
      rcases hfound p hp with hp | hp
      · rcases h p hp with hp | rfl
        · exact .inl hp
        · exact .inr (by omega)
      · exact .inr (by omega)
    unfold pattern.go
    by_cases hopen : extent = -1
    · rw [if_pos hopen]
      refine (meets_require _ _).bind ?_
      intro _ _
      exact hrest 1 fun p hp => .inr (Option.some.inj hp).symm
    · rw [if_neg hopen]
      by_cases hzero : extent = 0
      · rw [if_pos hzero]
        cases input[position]? with
        | none => exact meets_invalid _
        | some source => exact hrest source fun p hp => .inl hp
      · rw [if_neg hzero]
        by_cases hpos : 0 < extent
        · rw [if_pos hpos]
          exact hrest extent.toNat fun p hp => .inl hp
        · rw [if_neg hpos]
          exact meets_invalid _

theorem meets_pattern (input : Shape) (target : List Int) :
    Meets (pattern input target) hole fun r => ∀ p ∈ r.2, p < r.1.length := by
  refine (meets_patternGo input target 0 none).imp ?_
  rintro ⟨known, open?⟩ ⟨hlen, hopen⟩ p hp
  rcases hopen p hp with hp | hp
  · cases hp
  · omega

theorem meets_resolveTarget [Build] (hbound : Build.Bounded → hole) (target : List Int)
    (input : Shape) : Meets (resolveTarget target input) hole fun _ => True := by
  -- A target with and one without an open extent end in the same check.
  have hdone (size : Nat) (out : Shape) : Meets (do
      let found ← Word.product out
      require (found = size) (.targetSize target found size)
      return out) hole fun _ => True :=
    (Word.meets_product hbound out).bind fun _ _ =>
      (meets_require _ _).bind fun _ _ => meets_ok trivial
  refine (meets_pattern input target).bind ?_
  rintro ⟨known, open?⟩ hopen
  refine (Word.meets_product hbound input).bind ?_
  intro size _
  cases open? with
  | none => exact hdone size known
  | some position =>
    refine (Word.meets_product hbound known).bind ?_
    intro product _
    refine (meets_require _ _).bind ?_
    rintro _ ⟨hpos, _⟩
    refine (meets_quotient fun hz => absurd hz (Nat.ne_of_gt hpos)).bind ?_
    intro rest _
    refine (meets_overwrite (hopen position rfl)).bind ?_
    intro out _
    exact hdone size out

end Reshape

/-- Any regrouping that copies its input can be estimated. -/
theorem Metrics.exists_relayout {α : Type} [Scalar α] (copies : Bool) (rate : α) {x : TensorType}
    {rest outputs : List TensorType} (cx : CostContext) :
    ∃ m, Metrics.relayout copies rate ⟨x :: rest, outputs⟩ cx = some m := by
  cases copies with
  | true => exact ⟨_, rfl⟩
  | false => exact ⟨_, rfl⟩

instance [Build] : LawfulFamily Reshape where
  prepare_meets d inputs h := by
    obtain ⟨x, rest, rfl⟩ := Arity.exists_cons_of_accepts h (Nat.le_refl 1)
    exact (Reshape.meets_resolveTarget id d.target x.shape).bind fun _ _ => meets_ok ⟨rfl, trivial⟩
  outShapes_meets d inputs h _ := by
    obtain ⟨x, rest, rfl⟩ := Arity.exists_cons_of_accepts h (Nat.le_refl 1)
    exact meets_single rfl (Reshape.meets_resolveTarget .inr d.target x.shape)
      fun _ _ _ => ⟨Metrics.exists_relayout _ _, ⟨_, rfl⟩⟩

namespace Flatten

theorem meets_resolveAxis (axis : Int) (rank : Nat) :
    Meets (resolveAxis axis rank) hole fun position => position ≤ rank := by
  unfold resolveAxis
  by_cases h : 0 ≤ Axis.wrap axis rank ∧ Axis.wrap axis rank ≤ rank
  · rw [if_pos h]
    refine meets_ok ?_
    omega
  · rw [if_neg h]
    exact meets_invalid _

theorem meets_outShape [Build] (hbound : Build.Bounded → hole) (d : Flatten) (s : Shape) :
    Meets (d.outShape s) hole fun _ => True := by
  refine (meets_resolveAxis d.axis s.length).bind ?_
  intro axis haxis
  refine (Shape.meets_before haxis).bind ?_
  intro outer _
  refine (Shape.meets_from haxis).bind ?_
  intro inner _
  refine (Word.meets_product hbound outer).bind ?_
  intro _ _
  exact (Word.meets_product hbound inner).bind fun _ _ => meets_ok trivial

end Flatten

instance [Build] : LawfulFamily Flatten where
  prepare_meets d inputs h := by
    obtain ⟨x, rest, rfl⟩ := Arity.exists_cons_of_accepts h (Nat.le_refl 1)
    exact (Flatten.meets_resolveAxis d.axis x.rank).bind fun _ _ => meets_ok ⟨rfl, trivial⟩
  outShapes_meets d inputs h _ := by
    obtain ⟨x, rest, rfl⟩ := Arity.exists_cons_of_accepts h (Nat.le_refl 1)
    exact meets_single rfl (d.meets_outShape .inr x.shape)
      fun _ _ _ => ⟨Metrics.exists_relayout _ _, ⟨_, rfl⟩⟩

instance [Build] : LawfulFamily Identity where
  outShapes_meets _ _ h _ := meets_sameShape h (Nat.le_refl 1) rfl
    fun _ _ _ _ _ => ⟨fun _ => ⟨_, rfl⟩, ⟨_, rfl⟩⟩

theorem Squeeze.meets_resolveAxes (axes : List Int) (s : Shape) :
    Meets (resolveAxes axes s) hole fun _ => True := by
  unfold resolveAxes
  by_cases hall : axes.isEmpty = true
  · rw [if_pos hall]
    exact meets_ok trivial
  · rw [if_neg hall]
    refine (Axis.meets_resolveSet s.length axes).bind ?_
    intro resolved hresolved
    refine (meets_forM ?_).bind fun _ _ => meets_ok trivial
    intro axis haxis
    refine (meets_entry (hresolved axis haxis)).bind ?_
    intro extent _
    exact (meets_require _ _).imp fun _ _ => trivial

instance [Build] : LawfulFamily Squeeze where
  prepare_meets d inputs h := by
    obtain ⟨x, rest, rfl⟩ := Arity.exists_cons_of_accepts h (Nat.le_refl 1)
    exact (Squeeze.meets_resolveAxes d.axes x.shape).bind fun _ _ => meets_ok ⟨rfl, trivial⟩
  outShapes_meets d inputs h _ := by
    obtain ⟨x, rest, rfl⟩ := Arity.exists_cons_of_accepts h (Nat.le_refl 1)
    refine (Squeeze.meets_resolveAxes d.axes x.shape).bind ?_
    intro axes _
    exact meets_ok (describes_cons rfl
      fun _ _ _ => ⟨Metrics.exists_relayout _ _, ⟨_, rfl⟩⟩)

theorem Unsqueeze.meets_outShape (d : Unsqueeze) (s : Shape) :
    Meets (d.outShape s) hole fun _ => True :=
  (Axis.meets_resolveSet _ d.axes).bind fun _ _ => meets_ok trivial

instance [Build] : LawfulFamily Unsqueeze where
  prepare_meets d inputs h := by
    obtain ⟨x, rest, rfl⟩ := Arity.exists_cons_of_accepts h (Nat.le_refl 1)
    exact (Axis.meets_resolveSet _ d.axes).bind fun _ _ => meets_ok ⟨rfl, trivial⟩
  outShapes_meets d inputs h _ := by
    obtain ⟨x, rest, rfl⟩ := Arity.exists_cons_of_accepts h (Nat.le_refl 1)
    exact meets_single rfl (d.meets_outShape x.shape)
      fun _ _ _ => ⟨Metrics.exists_relayout _ _, ⟨_, rfl⟩⟩

instance [Build] : LawfulFamily Expand where
  outShapes_meets d inputs h _ := by
    obtain ⟨x, rest, rfl⟩ := Arity.exists_cons_of_accepts h (Nat.le_refl 1)
    exact meets_single rfl (Shape.meets_broadcast x.shape d.shape)
      fun _ _ _ => ⟨fun _ => ⟨_, rfl⟩, ⟨_, rfl⟩⟩

namespace Transpose

theorem meets_resolveAxes (permutation : List Nat) (rank : Nat) :
    Meets (resolveAxes permutation rank) hole fun axes => ∀ axis ∈ axes, axis < rank := by
  unfold resolveAxes
  by_cases hall : permutation.isEmpty = true
  · rw [if_pos hall]
    exact meets_ok fun axis haxis => List.mem_range.mp haxis
  · rw [if_neg hall]
    refine (meets_require _ _).bind ?_
    intro _ _
    refine (meets_require _ _).bind ?_
    rintro _ ⟨_, hlt⟩
    exact meets_ok hlt

theorem meets_outShape (d : Transpose) (s : Shape) : Meets (d.outShape s) hole fun _ => True := by
  refine (meets_resolveAxes d.permutation s.length).bind ?_
  intro axes haxes
  exact (meets_mapM fun axis haxis => meets_entry (haxes axis haxis)).imp fun _ _ => trivial

end Transpose

instance [Build] : LawfulFamily Transpose where
  prepare_meets d inputs h := by
    obtain ⟨x, rest, rfl⟩ := Arity.exists_cons_of_accepts h (Nat.le_refl 1)
    exact (Transpose.meets_resolveAxes d.permutation x.rank).bind
      fun _ _ => meets_ok ⟨rfl, trivial⟩
  outShapes_meets d inputs h _ := by
    obtain ⟨x, rest, rfl⟩ := Arity.exists_cons_of_accepts h (Nat.le_refl 1)
    exact meets_single rfl (d.meets_outShape x.shape)
      fun _ _ _ => ⟨fun _ => ⟨_, rfl⟩, ⟨_, rfl⟩⟩

theorem DepthToSpace.meets_outShape [Build] (hbound : Build.Bounded → hole) (d : DepthToSpace)
    (s : Shape) : Meets (d.outShape s) hole fun _ => True := by
  unfold outShape
  split
  next batch channels rows columns =>
    refine (meets_require _ _).bind ?_
    intro _ hblock
    -- The square of a block is zero only as a word.
    refine (Word.meets_mul_pos hbound hblock hblock).bind ?_
    intro area harea
    refine (meets_remainder harea).bind ?_
    intro _ _
    refine (meets_require _ _).bind ?_
    intro _ _
    refine (meets_quotient harea).bind ?_
    intro _ _
    refine (Word.meets_mul hbound rows d.block).bind ?_
    intro _ _
    exact (Word.meets_mul hbound columns d.block).bind fun _ _ => meets_ok trivial
  next => exact meets_invalid _

instance [Build] : LawfulFamily DepthToSpace where
  outShapes_meets d inputs h _ := by
    obtain ⟨x, rest, rfl⟩ := Arity.exists_cons_of_accepts h (Nat.le_refl 1)
    exact meets_single rfl (d.meets_outShape .inr x.shape)
      fun _ _ _ => ⟨fun _ => ⟨_, rfl⟩, ⟨_, rfl⟩⟩

end DataflowCost
