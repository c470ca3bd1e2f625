import DataflowCost.Families.Elementwise
import DataflowCost.Families.Pointwise
import DataflowCost.Proofs.Families.Basic

/-! Element-by-element families read extents and sizes only, so any output of theirs can be
estimated. -/
namespace DataflowCost

open Inference Family

instance [Build] : LawfulFamily Unary where
  prepare_meets _ _ _ := (meets_require _ _).bind fun _ _ => meets_ok ⟨rfl, trivial⟩
  outShapes_meets _ _ h _ := meets_sameShape h (Nat.le_refl 1) rfl
    fun _ _ _ _ _ => ⟨fun _ => ⟨_, rfl⟩, ⟨_, rfl⟩⟩

theorem Clip.meets_check (d : Clip) {hole : Prop} : Meets d.check hole fun _ => True := by
  unfold check
  cases d.least with
  | none => exact meets_ok trivial
  | some least =>
    cases d.greatest with
    | none => exact meets_ok trivial
    | some greatest => exact (meets_require _ _).imp fun _ _ => trivial

instance [Build] : LawfulFamily Clip where
  outShapes_meets d _ h _ := d.meets_check.bind fun _ _ => meets_sameShape h (Nat.le_refl 1) rfl
    fun _ _ _ _ _ => ⟨fun _ => ⟨_, rfl⟩, ⟨_, rfl⟩⟩

instance [Build] : LawfulFamily Hardtanh where
  outShapes_meets _ _ h _ := (meets_require _ _).bind fun _ _ =>
    meets_sameShape h (Nat.le_refl 1) rfl fun _ _ _ _ _ => ⟨fun _ => ⟨_, rfl⟩, ⟨_, rfl⟩⟩

instance [Build] : LawfulFamily LeakyRelu where
  outShapes_meets _ _ h _ := meets_sameShape h (Nat.le_refl 1) rfl
    fun _ _ _ _ _ => ⟨fun _ => ⟨_, rfl⟩, ⟨_, rfl⟩⟩

instance [Build] : LawfulFamily Elu where
  outShapes_meets _ _ h _ := meets_sameShape h (Nat.le_refl 1) rfl
    fun _ _ _ _ _ => ⟨fun _ => ⟨_, rfl⟩, ⟨_, rfl⟩⟩

instance [Build] : LawfulFamily Log where
  outShapes_meets _ _ h _ := meets_sameShape h (Nat.le_refl 1) rfl
    fun _ _ _ _ _ => ⟨fun _ => ⟨_, rfl⟩, ⟨_, rfl⟩⟩

instance [Build] : LawfulFamily Fill where
  outShapes_meets _ _ h _ := meets_sameShape h (Nat.le_refl 1) rfl
    fun _ _ _ _ _ => ⟨fun _ => ⟨_, rfl⟩, ⟨_, rfl⟩⟩

instance [Build] : LawfulFamily L2Loss where
  outShapes_meets d inputs h _ := by
    obtain ⟨x, rest, rfl⟩ := Arity.exists_cons_of_accepts h (Nat.le_refl 1)
    exact meets_ok (describes_cons rfl fun _ _ _ => ⟨fun _ => ⟨_, rfl⟩, ⟨_, rfl⟩⟩)

instance [Build] : LawfulFamily Cast where
  outShapes_meets _ _ h _ := meets_sameShape h (Nat.le_refl 1) rfl
    fun _ _ _ _ _ => ⟨fun _ => ⟨_, rfl⟩, ⟨_, rfl⟩⟩
  outTypes_meets d inputs h := by
    obtain ⟨x, rest, rfl⟩ := Arity.exists_cons_of_accepts h (Nat.le_refl 1)
    exact (meets_require _ _).bind fun _ _ => meets_ok rfl

instance [Build] : LawfulFamily ShapeOf where
  outShapes_meets d inputs h _ := by
    obtain ⟨x, rest, rfl⟩ := Arity.exists_cons_of_accepts h (Nat.le_refl 1)
    exact meets_ok (describes_cons rfl fun _ _ _ => ⟨fun _ => ⟨_, rfl⟩, ⟨_, rfl⟩⟩)
  outTypes_meets _ _ _ := meets_ok rfl

instance [Build] : LawfulFamily PRelu where
  outShapes_meets d inputs h _ := by
    obtain ⟨x, slope, rest, rfl⟩ := Arity.exists_cons₂_of_accepts h (Nat.le_refl 2)
    refine (meets_require _ _).bind ?_
    intro _ _
    exact meets_ok (describes_cons rfl fun _ _ _ => ⟨fun _ => ⟨_, rfl⟩, ⟨_, rfl⟩⟩)

instance [Build] : LawfulFamily ActivationBackward where
  prepare_meets _ _ _ := (meets_require _ _).bind fun _ _ => meets_ok ⟨rfl, trivial⟩
  outShapes_meets d inputs h _ := by
    obtain ⟨output, gradient, rest, rfl⟩ := Arity.exists_cons₂_of_accepts h (Nat.le_succ 2)
    refine (meets_require _ _).bind ?_
    intro _ _
    exact meets_ok (describes_cons rfl fun _ _ _ => ⟨fun _ => ⟨_, rfl⟩, ⟨_, rfl⟩⟩)

theorem Dropout.meets_check (d : Dropout) {hole : Prop} : Meets d.check hole fun d' => d' = d := by
  unfold check
  by_cases htraining : d.training
  · rw [if_pos htraining]
    exact meets_unsupported _
  · rw [if_neg htraining]
    by_cases hratio : 0.0 ≤ d.ratio ∧ d.ratio < 1.0
    · rw [if_pos hratio]
      exact meets_ok rfl
    · rw [if_neg hratio]
      exact meets_invalid _

instance [Build] : LawfulFamily Dropout where
  prepare_meets d _ _ := d.meets_check.imp fun _ _ => ⟨rfl, trivial⟩
  outShapes_meets d inputs h _ := by
    obtain ⟨x, rest, rfl⟩ := Arity.exists_cons_of_accepts h (Nat.le_refl 1)
    exact meets_ok (describes_cons rfl fun _ _ _ => ⟨fun _ => ⟨_, rfl⟩, ⟨_, rfl⟩⟩)
  outTypes_meets d inputs h := by
    obtain ⟨x, rest, rfl⟩ := Arity.exists_cons_of_accepts h (Nat.le_refl 1)
    exact meets_ok rfl

theorem Elementwise.meets_check (d : Elementwise) {hole : Prop} :
    Meets d.check hole fun d' => d' = d := by
  unfold check
  by_cases hkind : (!d.kind.isElementwise) = true
  · rw [if_pos hkind]
    exact meets_invalid _
  · rw [if_neg hkind]
    by_cases hact : (d.act.isSome && !fusesActivation d.kind) = true
    · rw [if_pos hact]
      exact meets_unsupported _
    · rw [if_neg hact]
      exact meets_ok rfl

instance [Build] : LawfulFamily Elementwise where
  prepare_meets d _ _ := d.meets_check.imp fun _ _ => ⟨rfl, trivial⟩
  outShapes_meets d inputs h _ := by
    obtain ⟨a, b, rest, rfl⟩ := Arity.exists_cons₂_of_accepts h (Nat.le_refl 2)
    exact meets_single (r := a.shape.broadcast b.shape) rfl (Shape.meets_broadcast _ _)
      fun _ _ _ => ⟨fun _ => ⟨_, rfl⟩, ⟨_, rfl⟩⟩
  outTypes_meets d inputs h := by
    obtain ⟨a, b, rest, rfl⟩ := Arity.exists_cons₂_of_accepts h (Nat.le_refl 2)
    exact (meets_require _ _).bind fun _ _ => meets_ok rfl

instance [Build] : LawfulFamily MseLoss where
  outShapes_meets d inputs h _ := by
    obtain ⟨prediction, target, rest, rfl⟩ := Arity.exists_cons₂_of_accepts h (Nat.le_refl 2)
    refine (meets_require _ _).bind ?_
    intro _ _
    exact meets_ok (describes_cons rfl fun _ _ _ => ⟨fun _ => ⟨_, rfl⟩, ⟨_, rfl⟩⟩)

instance [Build] : LawfulFamily Select where
  outShapes_meets d inputs h _ := by
    obtain ⟨x, y, condition, rest, rfl⟩ := Arity.exists_cons₃_of_accepts h (Nat.le_refl 3)
    exact meets_single rfl (Shape.meets_broadcastAll _)
      fun _ _ _ => ⟨fun _ => ⟨_, rfl⟩, ⟨_, rfl⟩⟩
  outTypes_meets d inputs h := by
    obtain ⟨x, y, rest, rfl⟩ := Arity.exists_cons₂_of_accepts h (Nat.le_succ 2)
    exact (meets_require _ _).bind fun _ _ => meets_ok rfl

end DataflowCost
