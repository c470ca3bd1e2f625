import DataflowCost.Families.Collective
import DataflowCost.Proofs.Families.Basic

/-! Families that communicate. Only a gather has more than one output, and it has one for each rank.
-/
namespace DataflowCost

open Inference Family

instance [Build] : LawfulFamily AllReduce where
  outShapes_meets _ _ h _ := meets_sameShape h (Nat.le_refl 1) rfl
    fun _ _ _ _ _ => ⟨fun _ => ⟨_, rfl⟩, ⟨_, rfl⟩⟩

instance [Build] : LawfulFamily AllGather where
  outShapes_meets d inputs h _ := by
    obtain ⟨x, rest, rfl⟩ := Arity.exists_cons_of_accepts h (Nat.le_refl 1)
    refine (meets_require _ _).bind ?_
    intro _ _
    exact meets_ok ⟨List.length_replicate, fun _ _ => ⟨fun _ => ⟨_, rfl⟩, ⟨_, rfl⟩⟩⟩

instance [Build] : LawfulFamily Broadcast where
  outShapes_meets _ _ h _ := meets_sameShape h (Nat.le_refl 1) rfl
    fun _ _ _ _ _ => ⟨fun _ => ⟨_, rfl⟩, ⟨_, rfl⟩⟩

instance [Build] : LawfulFamily Send where
  outShapes_meets _ _ h _ := meets_sameShape h (Nat.le_refl 1) rfl
    fun _ _ _ _ _ => ⟨fun _ => ⟨_, rfl⟩, ⟨_, rfl⟩⟩

instance [Build] : LawfulFamily Recv where
  outShapes_meets _ _ _ _ :=
    meets_ok (describes_cons rfl fun _ _ _ => ⟨fun _ => ⟨_, rfl⟩, ⟨_, rfl⟩⟩)
  outTypes_meets _ _ _ := meets_ok rfl

end DataflowCost
