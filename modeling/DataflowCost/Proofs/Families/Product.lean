import DataflowCost.Families.Attention
import DataflowCost.Families.Determinant
import DataflowCost.Families.MatMul
import DataflowCost.Proofs.Families.Basic

/-! Families that multiply matrices. Their formulas read single extents, at axes that inference has
found there. -/
namespace DataflowCost

open Inference Family

variable {hole : Prop}

namespace MatMul

theorem meets_problem (d : MatMul) (a b : Shape) : Meets (d.problem a b) hole fun _ => True := by
  unfold problem
  cases matrix? a with
  | none => exact meets_invalid _
  | some ma =>
    cases matrix? b with
    | none => exact meets_invalid _
    | some mb =>
      refine (Shape.meets_broadcast _ _).bind ?_
      intro batch _
      refine (meets_require _ _).bind ?_
      intro _ _
      exact meets_ok trivial

/-- The output is the stack of products; a bias is checked against it and does not change it. -/
theorem meets_outShape (d : MatMul) (a b : Shape) (bias : Option Shape) :
    Meets (d.outShape a b bias) hole fun out =>
      ∃ p, d.problem a b = .ok p ∧ out = p.batch ++ [p.m, p.n] := by
  refine (d.meets_problem a b).self.bind ?_
  intro p hp
  cases bias with
  | none => exact meets_ok ⟨p, hp, rfl⟩
  | some bias =>
    refine (meets_require _ _).bind ?_
    intro _ _
    exact meets_ok ⟨p, hp, rfl⟩

end MatMul

instance [Build] : LawfulFamily MatMul where
  outShapes_meets d inputs h _ := by
    obtain ⟨a, b, rest, rfl⟩ := Arity.exists_cons₂_of_accepts h (Nat.le_refl 2)
    exact meets_single rfl (d.meets_outShape a.shape b.shape (rest[0]?.map TensorType.shape))
      fun _ _ _ => ⟨fun _ => ⟨_, rfl⟩, ⟨_, rfl⟩⟩
  outTypes_meets d inputs h := by
    obtain ⟨a, b, rest, rfl⟩ := Arity.exists_cons₂_of_accepts h (Nat.le_refl 2)
    exact (meets_require _ _).bind fun _ _ => meets_ok rfl

theorem Banded.meets_operand (name : String) (s : Shape) :
    Meets (operand? name s) hole fun o => s = [o.1, o.2.1, o.2.2] := by
  unfold operand?
  split
  · exact meets_ok rfl
  · exact meets_invalid _

theorem Gbmm.meets_outShape (d : Gbmm) (a b : Shape) :
    Meets (d.outShape a b) hole fun out => a.length = 3 ∧ out.length = 3 := by
  refine (meets_require _ _).bind ?_
  intro _ _
  refine (Banded.meets_operand "A" a).bind ?_
  rintro ⟨batch, rows, band⟩ rfl
  refine (Banded.meets_operand "B" b).bind ?_
  rintro ⟨batch', rows', n⟩ rfl
  refine (meets_require _ _).bind ?_
  intro _ _
  refine (meets_require _ _).bind ?_
  intro _ _
  exact meets_ok ⟨rfl, rfl⟩

instance [Build] : LawfulFamily Gbmm where
  outShapes_meets d inputs h _ := by
    obtain ⟨⟨sa, ta⟩, b, rest, rfl⟩ := Arity.exists_cons₂_of_accepts h (Nat.le_refl 2)
    refine meets_single rfl (d.meets_outShape sa b.shape) ?_
    rintro ⟨so, _⟩ outputs ⟨ha, ho⟩
    obtain ⟨batch, rows, band, rfl⟩ := List.length_eq_three.mp ha
    obtain ⟨batch', rows', columns, rfl⟩ := List.length_eq_three.mp ho
    exact ⟨fun _ => ⟨_, rfl⟩, ⟨_, rfl⟩⟩

theorem G2bmm.meets_outShape [Build] (hbound : Build.Bounded → hole) (d : G2bmm) (a b : Shape) :
    Meets (d.outShape a b) hole fun out =>
      ∃ batch rows inner band, a = [batch, rows, inner] ∧ out = [batch, rows, band] := by
  refine (meets_require _ _).bind ?_
  intro _ _
  refine (Banded.meets_operand "A" a).bind ?_
  rintro ⟨batch, rows, inner⟩ ha
  refine (Banded.meets_operand "B" b).bind ?_
  intro _ _
  refine (meets_require _ _).bind ?_
  intro _ _
  refine (Word.meets_mul hbound 2 d.width).bind ?_
  intro double _
  refine (Word.meets_add hbound double 1).bind ?_
  intro band _
  exact meets_ok ⟨batch, rows, inner, band, ha, rfl⟩

instance [Build] : LawfulFamily G2bmm where
  outShapes_meets d inputs h _ := by
    obtain ⟨⟨sa, ta⟩, b, rest, rfl⟩ := Arity.exists_cons₂_of_accepts h (Nat.le_refl 2)
    refine meets_single rfl (d.meets_outShape .inr sa b.shape) ?_
    rintro out outputs ⟨batch, rows, inner, _, rfl, _⟩
    exact ⟨fun _ => ⟨_, rfl⟩, ⟨_, rfl⟩⟩

theorem Det.meets_outShape (s : Shape) : Meets (Det.outShape s) hole fun _ => s ≠ [] := by
  unfold Det.outShape
  split
  next columns rows rest hs =>
    refine (meets_require _ _).bind ?_
    intro _ _
    refine meets_ok ?_
    rintro rfl
    cases hs
  next => exact meets_invalid _

instance [Build] : LawfulFamily Det where
  outShapes_meets d inputs h _ := by
    obtain ⟨x, rest, rfl⟩ := Arity.exists_cons_of_accepts h (Nat.le_refl 1)
    refine meets_single rfl (Det.meets_outShape x.shape) ?_
    intro out outputs hx
    exact ⟨fun _ => exists_bind rfl
      (exists_bind (List.getLast?_eq_some_getLast hx) ⟨_, rfl⟩), ⟨_, rfl⟩⟩

theorem AttentionKvCache.exists_problem {keys values query : TensorType}
    {rest outputs : List TensorType} (h : keys.rank = 4) :
    ∃ p, problem? ⟨keys :: values :: query :: rest, outputs⟩ = some p := by
  have hcached : ∃ cached, keys.shape[sequenceAxis]? = some cached :=
    exists_entry (by rw [show keys.shape.length = 4 from h]; decide)
  obtain ⟨cached, hcached⟩ := hcached
  exact exists_bind rfl (exists_bind rfl (exists_bind hcached ⟨_, rfl⟩))

instance [Build] : LawfulFamily AttentionKvCache where
  outShapes_meets d inputs h _ := by
    obtain ⟨keys, values, query, rest, rfl⟩ :=
      Arity.exists_cons₃_of_accepts h (show 3 ≤ 6 by decide)
    refine (meets_require _ _).bind ?_
    intro _ hrank
    refine (meets_require _ _).bind ?_
    intro _ _
    refine (meets_require _ _).bind ?_
    intro _ _
    refine meets_ok (describes_cons rfl ?_)
    intro out outputs _
    obtain ⟨p, hp⟩ := AttentionKvCache.exists_problem hrank
    exact ⟨fun _ => exists_bind hp ⟨_, rfl⟩, ⟨_, rfl⟩⟩

instance [Build] : LawfulFamily Rope where
  outShapes_meets d inputs h _ := by
    obtain ⟨positions, x, rest, rfl⟩ := Arity.exists_cons₂_of_accepts h (Nat.le_refl 2)
    refine (meets_require _ _).bind ?_
    intro _ _
    exact meets_ok (describes_cons rfl fun _ _ _ => ⟨fun _ => ⟨_, rfl⟩, ⟨_, rfl⟩⟩)
  outTypes_meets d inputs h := by
    obtain ⟨positions, x, rest, rfl⟩ := Arity.exists_cons₂_of_accepts h (Nat.le_refl 2)
    exact meets_ok rfl

end DataflowCost
