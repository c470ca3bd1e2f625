import DataflowCost.Proofs.FusedActivation
import Mathlib.Data.Prod.Lex
import Mathlib.Order.OrderDual

/-! The choice between two graphs as a preference. Whatever the window, both directions of a comparison
are decided by one figure and at most one of them fuses. Without a window the choice is a
lexicographic order, so that a graph which has been given up never comes back. -/
namespace DataflowCost

open Scalar
open scoped ExactArithmetic

namespace Metrics

variable {α K : Type} [Scalar α] [Field K] [LinearOrder K] [IsStrictOrderedRing K] [Valued α K]
  {epsilon : α} {a b d : Metrics α}

theorem tied_iff {x y : α} : tied epsilon x y = true ↔
    |value x - value y| ≤ value epsilon * max |value x| |value y| := by
  rw [tied, Valued.le_iff]
  simp

include K in
/-- The window is relative to the larger figure of the two, whichever comes first. -/
theorem tied_comm (epsilon x y : α) : tied epsilon x y = tied epsilon y x := by
  rw [Bool.eq_iff_iff, tied_iff, tied_iff, abs_sub_comm, max_comm]

theorem tied_self (hepsilon : 0 ≤ value epsilon) (x : α) : tied epsilon x x = true := by
  rw [tied_iff, sub_self, abs_zero]
  positivity

theorem tied_iff_eq (hepsilon : value epsilon = 0) {x y : α} :
    tied epsilon x y = true ↔ value x = value y := by
  rw [tied_iff, hepsilon, zero_mul, abs_nonpos_iff, sub_eq_zero]

include K in
/-- Both directions get past the same ties, so that one figure decides them. -/
theorem decide_snd_comm (epsilon : α) (a b : Metrics α) :
    (decide epsilon a b).2 = (decide epsilon b a).2 := by
  unfold decide
  rw [tied_comm epsilon b.computeTime, tied_comm epsilon b.memoryCost,
    tied_comm epsilon b.parallelism]
  split
  · rfl
  · split
    · rfl
    · split <;> rfl

include K in
theorem decide_fst_asymm (h : (decide epsilon a b).1 = true) : (decide epsilon b a).1 = false := by
  have hnot {x y : α} (hlt : lt x y = true) : lt y x = false := by
    apply Bool.eq_false_iff.mpr
    intro hgt
    exact lt_asymm ((Valued.lt_iff _ _).mp hlt) ((Valued.lt_iff _ _).mp hgt)
  unfold decide at h ⊢
  rw [tied_comm epsilon b.computeTime, tied_comm epsilon b.memoryCost,
    tied_comm epsilon b.parallelism]
  -- The stage that decides one direction decides the other, with its comparison turned round.
  split at h
  next htime => rw [if_pos htime]; exact hnot h
  next htime =>
    rw [if_neg htime]
    split at h
    next hmemory => rw [if_pos hmemory]; exact hnot h
    next hmemory =>
      rw [if_neg hmemory]
      split at h
      next hparallelism => rw [if_pos hparallelism]; exact hnot h
      next => cases h

theorem decide_self (hepsilon : 0 ≤ value epsilon) (a : Metrics α) :
    decide epsilon a a = (false, .tie) := by
  unfold decide
  rw [tied_self hepsilon, tied_self hepsilon, tied_self hepsilon]
  rfl

/-- Where figures stand among others. The lower rank is preferred: less time, then less memory, then
more parallelism. -/
def rank (m : Metrics α) : K ×ₗ K ×ₗ Kᵒᵈ :=
  toLex (value m.computeTime, toLex (value m.memoryCost, OrderDual.toDual (value m.parallelism)))

theorem rank_lt_iff : a.rank < b.rank ↔
    value a.computeTime < value b.computeTime ∨
      value a.computeTime = value b.computeTime ∧ (value a.memoryCost < value b.memoryCost ∨
        value a.memoryCost = value b.memoryCost ∧ value b.parallelism < value a.parallelism) := by
  unfold rank
  rw [Prod.Lex.toLex_lt_toLex, Prod.Lex.toLex_lt_toLex, OrderDual.toDual_lt_toDual]

theorem decide_fst_iff (hepsilon : value epsilon = 0) :
    (decide epsilon a b).1 = true ↔ b.rank < a.rank := by
  -- A figure that does not tie is different, and the order looks no further either.
  have huntied {x y : α} : (!tied epsilon x y) = true ↔ value x ≠ value y := by
    rw [Bool.not_eq_true', ← Bool.not_eq_true, tied_iff_eq hepsilon]
  rw [rank_lt_iff]
  unfold decide
  simp only [huntied]
  split
  next htime => simp [Ne.symm htime, Valued.lt_iff b.computeTime]
  next htime =>
    split
    next hmemory => simp [not_ne_iff.mp htime, Ne.symm hmemory, Valued.lt_iff b.memoryCost]
    next hmemory =>
      split
      next => simp [not_ne_iff.mp htime, not_ne_iff.mp hmemory, Valued.lt_iff a.parallelism]
      next hparallelism =>
        simp [not_ne_iff.mp htime, not_ne_iff.mp hmemory, not_ne_iff.mp hparallelism]

end Metrics

namespace Config

section Figures

variable {α : Type} [Scalar α] {c : Config α} {g g' : Graph}

/-- The second graph is chosen for the first. -/
def Prefers (c : Config α) (g g' : Graph) : Prop := c.shouldFuse g g' = .ok true

theorem prefers_iff : c.Prefers g g' ↔ ∃ plain fused : Metrics α,
    c.graphMetrics g = .ok plain ∧ c.graphMetrics g' = .ok fused ∧
      (Metrics.decide c.fuseEpsilon plain fused).1 = true := by
  constructor
  · intro h
    obtain ⟨decision, hdecision, hfuse⟩ := bind_eq_ok_iff.mp h
    obtain ⟨plain, hplain, hrest⟩ := bind_eq_ok_iff.mp hdecision
    obtain ⟨fused, hfused, hchosen⟩ := bind_eq_ok_iff.mp hrest
    obtain rfl := Except.ok.inj hchosen
    exact ⟨plain, fused, hplain, hfused, Except.ok.inj hfuse⟩
  · rintro ⟨plain, fused, hplain, hfused, hfuse⟩
    unfold Prefers shouldFuse
    rw [fusionDecision_eq hplain hfused, hfuse]
    rfl

end Figures

variable {α K : Type} [Scalar α] [Field K] [LinearOrder K] [IsStrictOrderedRing K] [Valued α K]
  {c : Config α} {g g' g'' : Graph}

theorem prefers_iff_rank (hepsilon : value c.fuseEpsilon = 0) :
    c.Prefers g g' ↔ ∃ plain fused : Metrics α,
      c.graphMetrics g = .ok plain ∧ c.graphMetrics g' = .ok fused ∧ fused.rank < plain.rank := by
  simp only [prefers_iff, Metrics.decide_fst_iff hepsilon]

theorem Prefers.trans (hepsilon : value c.fuseEpsilon = 0) (h : c.Prefers g g')
    (h' : c.Prefers g' g'') : c.Prefers g g'' := by
  obtain ⟨plain, between, hplain, hbetween, hlt⟩ := (prefers_iff_rank hepsilon).mp h
  obtain ⟨again, fused, hagain, hfused, hlt'⟩ := (prefers_iff_rank hepsilon).mp h'
  obtain rfl := Except.ok.inj (hbetween.symm.trans hagain)
  exact (prefers_iff_rank hepsilon).mpr ⟨plain, fused, hplain, hfused, hlt'.trans hlt⟩

theorem Prefers.ne (hepsilon : value c.fuseEpsilon = 0) (h : c.Prefers g g') : g ≠ g' := by
  rintro rfl
  obtain ⟨plain, fused, hplain, hfused, hlt⟩ := (prefers_iff_rank hepsilon).mp h
  obtain rfl := Except.ok.inj (hplain.symm.trans hfused)
  exact lt_irrefl _ hlt

/-- Of graphs that each replace the one before, every later one is preferred to every earlier one. -/
theorem pairwise_prefers (hepsilon : value c.fuseEpsilon = 0) {graphs : List Graph}
    (h : graphs.IsChain c.Prefers) : graphs.Pairwise c.Prefers := by
  have : Trans c.Prefers c.Prefers c.Prefers := ⟨Prefers.trans hepsilon⟩
  exact List.isChain_iff_pairwise.mp h

/-- The choice between two graphs is a preference. One figure decides both directions of a comparison,
which fuses one way at most and never between equals. Without a window it is the order of time, then of
memory, then of parallelism, and graphs that are replaced by preferred ones do not come back. -/
theorem prefers_soundly (c : Config α) (hepsilon : 0 ≤ value c.fuseEpsilon) :
    (∀ a b : Metrics α,
      (Metrics.decide c.fuseEpsilon a b).2 = (Metrics.decide c.fuseEpsilon b a).2 ∧
      ¬((Metrics.decide c.fuseEpsilon a b).1 = true ∧
        (Metrics.decide c.fuseEpsilon b a).1 = true)) ∧
    (∀ a : Metrics α, Metrics.decide c.fuseEpsilon a a = (false, .tie)) ∧
    (value c.fuseEpsilon = 0 →
      (∀ a b : Metrics α,
        (Metrics.decide c.fuseEpsilon a b).1 = true ↔
          value b.computeTime < value a.computeTime ∨
          value b.computeTime = value a.computeTime ∧ (value b.memoryCost < value a.memoryCost ∨
            value b.memoryCost = value a.memoryCost ∧
              value a.parallelism < value b.parallelism)) ∧
      (∀ a b d : Metrics α, (Metrics.decide c.fuseEpsilon a b).1 = true →
        (Metrics.decide c.fuseEpsilon b d).1 = true →
        (Metrics.decide c.fuseEpsilon a d).1 = true) ∧
      ∀ graphs : List Graph, graphs.IsChain c.Prefers →
        graphs.Pairwise c.Prefers ∧ graphs.Nodup) := by
  refine ⟨fun a b => ⟨Metrics.decide_snd_comm _ a b, ?_⟩, Metrics.decide_self hepsilon,
    fun hzero => ⟨fun a b => ?_, fun a b d => ?_, fun graphs hchain => ?_⟩⟩
  · rintro ⟨hfuse, hback⟩
    rw [Metrics.decide_fst_asymm hfuse] at hback
    cases hback
  · rw [Metrics.decide_fst_iff hzero, Metrics.rank_lt_iff]
  · simp only [Metrics.decide_fst_iff hzero]
    intro hb hd
    exact hd.trans hb
  · have hpairwise := pairwise_prefers hzero hchain
    exact ⟨hpairwise, hpairwise.imp fun h => h.ne hzero⟩

end Config

namespace Graph

/-- A row that is rectified again and again. -/
def rectified (count : Nat) : Graph :=
  (ofCalls (.tensor ⟨[3], .float32⟩ ::
    (List.range count).map fun i => .op (.unary ⟨.relu⟩) [⟨i⟩])).1

end Graph

namespace Config

/-- The standard settings without a window. -/
noncomputable def windowless : Config ℝ := { (.standard : Config ℝ) with fuseEpsilon := 0 }

open DataflowCost.Graph in
/-- Every rectifier that is left out makes a graph faster. -/
theorem isChain_rectified :
    [rectified 2, rectified 1, rectified 0].IsChain windowless.Prefers := by
  obtain ⟨m, hm, hone, htwo⟩ : ∃ m : Metrics ℝ,
      (Operator.unary ⟨.relu⟩).metrics ⟨[⟨[3], .float32⟩], [⟨[3], .float32⟩]⟩
        windowless.context = some m ∧
      windowless.graphMetrics (rectified 1) = .ok (.total .min [m]) ∧
      windowless.graphMetrics (rectified 2) = .ok (.total .min [m, m]) := ⟨_, rfl, rfl, rfl⟩
  have hzero : windowless.graphMetrics (rectified 0) = .ok (.total .min []) := rfl
  have hpos : 0 < value m.computeTime := by
    have hkind : Activation.relu.kind? = some .relu := rfl
    have hge := Unary.computeTime_ge hkind hm
    exact lt_of_lt_of_le (by norm_num [TensorType.size, Shape.size]) hge
  -- Time decides, and each rectifier adds its own.
  have hprefers {more fewer : List (Metrics ℝ)} {g g' : Graph}
      (hg : windowless.graphMetrics g = .ok (.total .min more))
      (hg' : windowless.graphMetrics g' = .ok (.total .min fewer))
      (hlt : value (Metrics.total .min fewer).computeTime <
        value (Metrics.total .min more).computeTime) : windowless.Prefers g g' :=
    (prefers_iff_rank rfl).mpr ⟨_, _, hg, hg', Metrics.rank_lt_iff.mpr (.inl hlt)⟩
  have hfirst : windowless.Prefers (rectified 2) (rectified 1) := by
    apply hprefers htwo hone
    simp [Metrics.value_total_computeTime, hpos]
  have hsecond : windowless.Prefers (rectified 1) (rectified 0) := by
    apply hprefers hone hzero
    simp [Metrics.value_total_computeTime, hpos]
  simp [hfirst, hsecond]

open DataflowCost.Graph in
theorem prefers_soundly_rectified : 0 ≤ value windowless.fuseEpsilon ∧
    value windowless.fuseEpsilon = 0 ∧
    [rectified 2, rectified 1, rectified 0].IsChain windowless.Prefers ∧
    [rectified 2, rectified 1, rectified 0].Pairwise windowless.Prefers ∧
    [rectified 2, rectified 1, rectified 0].Nodup := by
  have hzero : value windowless.fuseEpsilon = 0 := rfl
  exact ⟨hzero.ge, hzero, isChain_rectified,
    ((windowless.prefers_soundly hzero.ge).2.2 hzero).2.2 _ isChain_rectified⟩

end Config

end DataflowCost
