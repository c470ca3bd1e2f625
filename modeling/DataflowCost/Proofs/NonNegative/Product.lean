import DataflowCost.Proofs.Activation
import DataflowCost.Proofs.Keys.Product
import DataflowCost.Proofs.NonNegative.Basic

/-! Families that multiply matrices. A banded product takes the logarithm of its dilation without a
clamp, but of one more than the dilation; where it discounts for dilation it keeps a floor. -/
namespace DataflowCost

open Scalar Inference Family
open scoped ExactArithmetic

variable {α K : Type} [Scalar α] [Field K] [LinearOrder K] [IsStrictOrderedRing K] [Valued α K]

namespace MatMul

theorem nonneg_results (p : Problem) : IsNonneg (ofNat p.count * ofNat p.m * ofNat p.n : α) := by
  grind

theorem nonneg_operations (d : MatMul) (p : Problem) (biased : Bool) :
    IsNonneg (d.operations p biased : α) := by
  have hresults : IsNonneg (ofNat p.count * ofNat p.m * ofNat p.n : α) := nonneg_results p
  have hproducts : IsNonneg (2.0 * (ofNat p.count * ofNat p.m * ofNat p.n) * ofNat p.k : α) := by
    grind
  grind [operations]

theorem nonneg_computeTime (d : MatMul) (p : Problem) (biased : Bool) :
    IsNonneg (d.computeTime p biased : α) := by
  have hoperations : IsNonneg (d.operations p biased : α) := d.nonneg_operations p biased
  have hthroughput : IsNonneg (d.precision.throughput : α) := by
    unfold Precision.throughput
    cases d.precision <;> grind
  grind [computeTime]

theorem nonneg_parallelism [Signed α] (d : MatMul) (p : Problem) :
    IsNonneg (d.parallelism p : α) := by
  have hresults : IsNonneg (ofNat p.count * ofNat p.m * ofNat p.n : α) := nonneg_results p
  unfold parallelism
  cases d.transA <;> cases d.transB <;> grind

end MatMul

instance : NonNegative MatMul where
  nonneg {_ _ _ _ _ _ _ _ d _ _ _ _} h hm := by
    obtain ⟨a, b, rest, p, t, rfl, _, rfl⟩ := MatMul.exists_operands h
    obtain rfl := Option.some.inj hm
    refine ⟨d.nonneg_computeTime _ _, ?_, fun _ => d.nonneg_parallelism _⟩
    -- The bias is the third input, if there is one.
    cases rest with
    | nil => grind [Io.input?]
    | cons bias rest => grind [Io.input?]

namespace Banded

@[grind ←] theorem nonneg_dilationLog [Signed α] (dilation : Nat) :
    IsNonneg (dilationLog dilation : α) := by
  grind [dilationLog]

/-- The logarithm of more than one needs no clamp. -/
@[grind ←] theorem nonneg_binaryLog [Signed α] (dilation : Nat) :
    IsNonneg (binaryLog (ofNat dilation + 1.0 : α)) := by
  have hclamp : maximum (ofNat dilation + 1.0 : α) 1.0 = ofNat dilation + 1.0 := by
    apply Valued.value_injective
    rw [Valued.value_maximum, Valued.value_add, Valued.value_ofNat, Valued.value_literal]
    exact max_eq_left (le_add_of_nonneg_left (Nat.cast_nonneg dilation))
  have hlog : IsNonneg (log2 (ofNat dilation + 1.0 : α)) := .log2 _
  rw [Scalar.log2, hclamp] at hlog
  exact hlog

end Banded

instance : NonNegative Gbmm where
  nonneg h hm := by
    obtain ⟨batch, rows, band, b, r, c, t, u, rest, rfl, rfl⟩ := Gbmm.exists_extents h
    obtain rfl := Option.some.inj hm
    refine ⟨?_, ?_, fun _ => ?_⟩ <;> grind

instance : NonNegative G2bmm where
  nonneg h hm := by
    obtain ⟨batch, rows, inner, t, u, rest, rfl, rfl⟩ := G2bmm.exists_extents h
    obtain rfl := Option.some.inj hm
    refine ⟨?_, ?_, fun _ => ?_⟩ <;> grind

instance : NonNegative Det where
  nonneg {_ _ _ _ _ _ _ _ d _ _ _ _} _ hm := by
    obtain ⟨x, _, hm⟩ := Option.bind_eq_some_iff.mp hm
    obtain ⟨n, _, hm⟩ := Option.bind_eq_some_iff.mp hm
    obtain rfl := Option.some.inj hm
    refine ⟨?_, ?_, fun _ => ?_⟩
    · cases d.mode <;> grind
    · grind
    · grind

namespace AttentionKvCache

@[grind ←] theorem nonneg_scores (p : Problem) : IsNonneg (scores p : α) := by
  grind [scores]

@[grind ←] theorem nonneg_operations (p : Problem) : IsNonneg (operations p : α) := by
  have hproducts : IsNonneg (scores p * Scalar.ofNat p.headSize : α) := by grind
  have hupdate : IsNonneg (2.0 * Scalar.ofNat p.batch * Scalar.ofNat p.heads *
      Scalar.ofNat p.headSize : α) := by grind
  unfold operations
  grind

end AttentionKvCache

instance : NonNegative AttentionKvCache where
  nonneg _ hm := by
    obtain ⟨p, _, hm⟩ := Option.bind_eq_some_iff.mp hm
    obtain rfl := Option.some.inj hm
    refine ⟨?_, ?_, fun _ => ?_⟩ <;> grind

/-- Batches are rounded down, and so are pairs. -/
theorem Rope.nonneg_problem [Signed α] (s : Shape) :
    IsNonneg (problem s : α × α × α).1 ∧ IsNonneg (problem s : α × α × α).2.1 ∧
      IsNonneg (problem s : α × α × α).2.2 := by
  refine ⟨.floor ?_, .ofNat _, .floor ?_⟩ <;> grind

instance : NonNegative Rope where
  nonneg {α _ _ _ _ _ _ _ _ _ _ _ _} h hm := by
    obtain ⟨positions, x, rest, t, rfl, rfl⟩ := Rope.exists_embedded h
    obtain rfl := Option.some.inj hm
    obtain ⟨hbatch, hpositions, hpairs⟩ := Rope.nonneg_problem (α := α) x.shape
    refine ⟨?_, ?_, fun _ => ?_⟩ <;> grind

end DataflowCost
