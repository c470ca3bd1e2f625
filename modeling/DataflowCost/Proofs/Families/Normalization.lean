import DataflowCost.Families.Normalization
import DataflowCost.Families.Reduce
import DataflowCost.Proofs.Families.Basic

/-! Families that work on rows. The axis at which rows begin is resolved against the input, and
stays an axis of it. -/
namespace DataflowCost

open Inference Family

variable {hole : Prop}

instance [Build] : LawfulFamily Softmax where
  Resolved d inputs := ∀ x ∈ inputs.head?, d.resolved < x.rank
  prepare_meets d inputs h := by
    obtain ⟨x, rest, rfl⟩ := Arity.exists_cons_of_accepts h (Nat.le_refl 1)
    refine (Axis.meets_resolve d.axis x.rank).bind ?_
    intro position hposition
    exact meets_ok ⟨rfl, by simpa using hposition⟩
  outShapes_meets d inputs h hd := by
    obtain ⟨x, rest, rfl⟩ := Arity.exists_cons_of_accepts h (Nat.le_refl 1)
    obtain ⟨extent, hextent⟩ := exists_entry (hd x rfl)
    refine meets_ok (describes_cons rfl ?_)
    intro out outputs _
    exact ⟨fun _ => exists_bind rfl (exists_bind hextent ⟨_, rfl⟩), ⟨_, rfl⟩⟩

theorem LayerNorm.meets_resolve {d : LayerNorm} {x : TensorType} {rest : List TensorType} :
    Meets (d.resolve (x :: rest)) hole fun d' => d'.resolved < x.rank := by
  refine (Axis.meets_resolve d.axis x.rank).bind ?_
  intro resolved hresolved
  refine (meets_forM ?_).bind ?_
  · intro parameter _
    exact (meets_require _ _).imp fun _ _ => trivial
  · intro _ _
    exact meets_ok hresolved

instance [Build] : LawfulFamily LayerNorm where
  Resolved d inputs := ∀ x ∈ inputs.head?, d.resolved < x.rank
  prepare_meets d inputs h := by
    obtain ⟨x, rest, rfl⟩ := Arity.exists_cons_of_accepts h (Nat.le_succ 1)
    refine d.meets_resolve.imp ?_
    intro d' hd'
    exact ⟨rfl, by simpa using hd'⟩
  outShapes_meets d inputs h hd := by
    obtain ⟨x, rest, rfl⟩ := Arity.exists_cons_of_accepts h (Nat.le_succ 1)
    have hle : d.resolved ≤ x.shape.length := Nat.le_of_lt (hd x rfl)
    refine meets_ok (describes_cons rfl ?_)
    intro out outputs _
    exact ⟨fun _ => exists_bind rfl (exists_bind (Shape.before?_of_le hle)
      (exists_bind (Shape.from?_of_le hle) ⟨_, rfl⟩)), ⟨_, rfl⟩⟩

instance [Build] : LawfulFamily RmsNorm where
  outShapes_meets d inputs h _ := by
    obtain ⟨x, weight, rest, rfl⟩ := Arity.exists_cons₂_of_accepts h (Nat.le_refl 2)
    refine (meets_require _ _).bind ?_
    intro _ _
    refine (meets_require _ _).bind ?_
    intro _ _
    exact meets_ok (describes_cons rfl fun _ _ _ => ⟨fun _ => ⟨_, rfl⟩, ⟨_, rfl⟩⟩)

theorem BatchNorm.meets_outShape (x : TensorType) (parameters : List TensorType) :
    Meets (BatchNorm.outShape x parameters) hole fun _ => 2 ≤ x.rank := by
  refine (meets_require _ _).bind ?_
  intro _ hrank
  refine (meets_entry hrank).bind ?_
  intro channels _
  refine (meets_forM ?_).bind ?_
  · intro p _
    exact (meets_require _ _).imp fun _ _ => trivial
  · intro _ _
    exact meets_ok hrank

instance [Build] : LawfulFamily BatchNorm where
  prepare_meets d _ _ := by
    change Meets (if d.training then unsupported .trainingBatchNorm else .ok d) _ _
    by_cases htraining : d.training
    · rw [if_pos htraining]
      exact meets_unsupported _
    · rw [if_neg htraining]
      exact meets_ok ⟨rfl, trivial⟩
  outShapes_meets d inputs h _ := by
    obtain ⟨x, rest, rfl⟩ := Arity.exists_cons_of_accepts h (show 1 ≤ 5 by decide)
    refine meets_single rfl (BatchNorm.meets_outShape x rest) ?_
    intro out outputs hrank
    obtain ⟨batch, channels, hbatch, hchannels⟩ := exists_outer hrank
    exact ⟨fun _ => exists_bind rfl (exists_bind hbatch (exists_bind hchannels ⟨_, rfl⟩)), ⟨_, rfl⟩⟩
  outTypes_meets d inputs h := by
    obtain ⟨x, rest, rfl⟩ := Arity.exists_cons_of_accepts h (show 1 ≤ 5 by decide)
    refine (meets_forM ?_).bind ?_
    · intro parameter _
      exact (meets_require _ _).imp fun _ _ => trivial
    · intro _ _
      exact meets_ok rfl

instance [Build] : LawfulFamily InstanceNorm where
  outShapes_meets d inputs h _ := by
    obtain ⟨x, rest, rfl⟩ := Arity.exists_cons_of_accepts h (show 1 ≤ 3 by decide)
    refine (meets_require _ _).bind ?_
    intro _ hrank
    obtain ⟨batch, channels, hbatch, hchannels⟩ := exists_outer hrank
    refine meets_ok (describes_cons rfl ?_)
    intro out outputs _
    exact ⟨fun _ => exists_bind rfl (exists_bind hbatch (exists_bind hchannels ⟨_, rfl⟩)), ⟨_, rfl⟩⟩

theorem LocalResponseNorm.meets_check (d : LocalResponseNorm) (x : TensorType) :
    Meets (d.check x) hole fun _ => 2 ≤ x.rank := by
  refine (meets_require _ _).bind ?_
  intro _ _
  refine (meets_require _ _).bind ?_
  intro _ hrank
  exact meets_ok hrank

instance [Build] : LawfulFamily LocalResponseNorm where
  Resolved _ inputs := ∀ x ∈ inputs.head?, 2 ≤ x.rank
  prepare_meets d inputs h := by
    obtain ⟨x, rest, rfl⟩ := Arity.exists_cons_of_accepts h (Nat.le_refl 1)
    refine (d.meets_check x).imp ?_
    intro d' hrank
    exact ⟨rfl, by simpa using hrank⟩
  outShapes_meets d inputs h hd := by
    obtain ⟨x, rest, rfl⟩ := Arity.exists_cons_of_accepts h (Nat.le_refl 1)
    have hrank : 2 ≤ x.shape.length := hd x rfl
    obtain ⟨batch, channels, hbatch, hchannels⟩ := exists_outer hrank
    refine meets_ok (describes_cons rfl ?_)
    intro out outputs _
    exact ⟨fun _ => exists_bind rfl (exists_bind hbatch (exists_bind hchannels
      (exists_bind (Shape.from?_of_le hrank) ⟨_, rfl⟩))), ⟨_, rfl⟩⟩

theorem Reduce.meets_resolve (d : Reduce) (rank : Nat) :
    Meets (d.resolve rank) hole fun _ => True := by
  refine (meets_require _ _).bind ?_
  intro _ _
  cases d.axes with
  | none => exact meets_ok trivial
  | some axes => exact (Axis.meets_resolveSet rank axes).bind fun _ _ => meets_ok trivial

instance [Build] : LawfulFamily Reduce where
  prepare_meets d inputs h := by
    obtain ⟨x, rest, rfl⟩ := Arity.exists_cons_of_accepts h (Nat.le_refl 1)
    exact (d.meets_resolve x.rank).imp fun _ _ => ⟨rfl, trivial⟩
  outShapes_meets d inputs h _ := by
    obtain ⟨x, rest, rfl⟩ := Arity.exists_cons_of_accepts h (Nat.le_refl 1)
    exact meets_ok (describes_cons rfl fun _ _ _ => ⟨fun _ => ⟨_, rfl⟩, ⟨_, rfl⟩⟩)

end DataflowCost
