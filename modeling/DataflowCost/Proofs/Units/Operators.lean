import DataflowCost.Proofs.Totals
import DataflowCost.Proofs.Units.Layers
import DataflowCost.Proofs.Units.Layout
import DataflowCost.Proofs.Units.Pointwise

/-! One unit for all memory figures. Where tensors have elements of one width, operators, graphs and
decisions between graphs say the same in elements and in bytes. -/
namespace DataflowCost

open Scalar Family
open scoped ExactArithmetic

namespace Operator

variable {op : Operator} {inputs outputs : List TensorType} {s : Nat}

/-- The tensors of which so many bytes are charged for an element. -/
def HasWidth (s : Nat) : Operator → Io → Prop
  | select _, io => Select.Uniform s io
  | _, io => io.HasWidth s

theorem Registered.rescales (h : op.Registered inputs outputs)
    (hwidth : op.HasWidth s ⟨inputs, outputs⟩) {α K : Type} [Scalar α] [Field K] [LinearOrder K]
    [IsStrictOrderedRing K] [Valued α K] (w : Nat) :
    Option.Rel (Metrics.Rescaled s)
      (op.metrics ⟨inputs, outputs⟩ ⟨w, .elements⟩ : Option (Metrics α))
      (op.metrics ⟨inputs, outputs⟩ ⟨w, .bytes⟩) := by
  have hfamily := h.family
  cases op with
  | select d => exact Select.rescaled hwidth
  | _ => exact Rescales.rescales hfamily hwidth

theorem exists_recv_of_least (h : op.arity.least = 0) : ∃ d, op = .recv d := by
  cases op with
  | recv d => exact ⟨d, rfl⟩
  | _ => exact absurd h (Nat.succ_ne_zero _)

/-- What reads nothing receives something. -/
theorem Registered.exists_tensor (h : op.Registered inputs outputs) :
    (∃ t, t ∈ inputs) ∨ ∃ t, t ∈ outputs := by
  rcases Nat.eq_zero_or_pos op.arity.least with hleast | hleast
  · obtain ⟨d, rfl⟩ := exists_recv_of_least hleast
    obtain ⟨out, rfl, _⟩ := exists_output h.outShapes_eq
    exact .inr ⟨out, List.mem_cons_self⟩
  · obtain ⟨x, rest, rfl⟩ := Arity.exists_cons_of_accepts h.accepts hleast
    exact .inl ⟨x, List.mem_cons_self⟩

theorem Registered.width_pos (h : op.Registered inputs outputs)
    (hwidth : op.HasWidth s ⟨inputs, outputs⟩) : 0 < s := by
  cases op with
  | select d => exact hwidth.1 ▸ Nat.succ_pos 3
  | _ =>
    rcases h.exists_tensor with ⟨t, ht⟩ | ⟨t, ht⟩
    · exact hwidth.inputs t ht ▸ t.dtype.bytes_pos
    · exact hwidth.outputs t ht ▸ t.dtype.bytes_pos

end Operator

theorem map_eq_of_forall₂ {β γ δ : Type} {R : β → γ → Prop} {f : γ → δ} {f' : β → δ}
    (hf : ∀ b c, R b c → f' b = f c) {bs : List β} {cs : List γ} (h : List.Forall₂ R bs cs) :
    bs.map f' = cs.map f := by
  rw [← List.forall₂_eq_eq_eq, List.forall₂_map_left_iff, List.forall₂_map_right_iff]
  exact h.imp fun b c => hf b c

section Valued

variable {α K : Type} [Scalar α] [Field K] [LinearOrder K] [IsStrictOrderedRing K] [Valued α K]
  {s : Nat}

namespace Scalar.Scales

variable {a b a' b' : α}

theorem lt_eq (ha : Scales s a a') (hb : Scales s b b') (hs : 0 < s) : lt a' b' = lt a b := by
  have hpos : (0 : K) < s := Nat.cast_pos.mpr hs
  rw [Bool.eq_iff_iff, Valued.lt_iff, Valued.lt_iff, ha, hb, mul_lt_mul_iff_right₀ hpos]

/-- A window is relative to the figures, so it grows with them. -/
theorem tied_eq (ha : Scales s a a') (hb : Scales s b b') (hs : 0 < s) (epsilon : α) :
    Metrics.tied epsilon a' b' = Metrics.tied epsilon a b := by
  have hpos : (0 : K) < s := Nat.cast_pos.mpr hs
  have hfigure (x : K) : |s * x| = s * |x| := by rw [abs_mul, abs_of_pos hpos]
  unfold Metrics.tied
  rw [Bool.eq_iff_iff, Valued.le_iff, Valued.le_iff]
  simp only [Valued.value_abs, Valued.value_sub, Valued.value_mul, Valued.value_maximum]
  rw [ha, hb, ← mul_sub, hfigure, hfigure, hfigure, ← mul_max_of_nonneg _ _ hpos.le,
    mul_left_comm, mul_le_mul_iff_right₀ hpos]

end Scalar.Scales

namespace Metrics

variable {m m' n n' : Metrics α}

theorem decide_eq_of_rescaled (h : m.Rescaled s m') (h' : n.Rescaled s n') (hs : 0 < s)
    (epsilon : α) : decide epsilon m' n' = decide epsilon m n := by
  unfold decide
  rw [h.computeTime_eq, h'.computeTime_eq, h.parallelism_eq, h'.parallelism_eq,
    h.memoryCost.tied_eq h'.memoryCost hs, h'.memoryCost.lt_eq h.memoryCost hs]

theorem rescaled_total (r : Reducer) {rows rows' : List (Metrics α)}
    (h : List.Forall₂ (Rescaled s) rows rows') : (total r rows).Rescaled s (total r rows') where
  computeTime_eq := by
    apply Valued.value_injective
    rw [value_total_computeTime, value_total_computeTime]
    have hrows := map_eq_of_forall₂ (fun _ _ hm => congrArg value hm.computeTime_eq.symm) h
    exact (congrArg List.sum hrows).symm
  memoryCost := by
    rw [Scales, value_total_memoryCost, value_total_memoryCost, ← List.sum_map_mul_left]
    have hrows := map_eq_of_forall₂ (fun _ _ hm => hm.memoryCost.symm) h
    exact (congrArg List.sum hrows).symm
  parallelism_eq := by
    apply foldParallelism_congr
    exact (map_eq_of_forall₂ (fun _ _ hm => hm.parallelism_eq.symm) h).symm

end Metrics

/-- The same configuration with memory in another unit. -/
def Config.inUnit (c : Config α) (unit : MemoryUnit) : Config α := { c with memoryUnit := unit }

namespace Graph

variable {g g' : Graph}

/-- All operators have tensors of one width. -/
def HasWidth (s : Nat) (g : Graph) : Prop := ∀ o v, g.view o = .ok v → v.op.HasWidth s v.io

theorem Reachable.exists_rescaled (hg : g.Reachable) (c : Config α) {o : OpId}
    (ho : o ∈ g.opIds) : ∃ v m m', g.view o = .ok v ∧ (c.inUnit .elements).opMetrics g o = .ok m ∧
      (c.inUnit .bytes).opMetrics g o = .ok m' ∧
      ∀ s : Nat, v.op.HasWidth s v.io → m.Rescaled s m' := by
  obtain ⟨v, m, hv, hrow, hm⟩ := hg.exists_row (c.inUnit .elements) ho
  obtain ⟨v', m', hv', hrow', hm'⟩ := hg.exists_row (c.inUnit .bytes) ho
  obtain rfl := Except.ok.inj (hv.symm.trans hv')
  refine ⟨v, m, m', hv, hrow, hrow', fun s hwidth => ?_⟩
  have hrel : Option.Rel (Metrics.Rescaled s) (some m) (some m') := by
    rw [← hm, ← hm']
    exact (hg.registered_view hv).rescales hwidth _
  exact Option.rel_some_some.mp hrel

theorem Reachable.exists_rescaled_total (hg : g.Reachable) (c : Config α) (hwidth : g.HasWidth s) :
    ∃ total total', (c.inUnit .elements).graphMetrics g = .ok total ∧
      (c.inUnit .bytes).graphMetrics g = .ok total' ∧ total.Rescaled s total' := by
  obtain ⟨rows, hrows, htotal⟩ := (c.inUnit .elements).exists_total hg
  obtain ⟨rows', hrows', htotal'⟩ := (c.inUnit .bytes).exists_total hg
  -- The unit decides nothing about the order, so rows in one unit stand beside rows in the other.
  refine ⟨_, _, htotal, htotal', Metrics.rescaled_total _ (forall₂_of_mapM ?_ hrows hrows')⟩
  intro o ho m m' hm hm'
  obtain ⟨v, n, n', hv, hn, hn', hrescaled⟩ := hg.exists_rescaled c ho
  obtain rfl := Except.ok.inj (hm.symm.trans hn)
  obtain rfl := Except.ok.inj (hm'.symm.trans hn')
  exact hrescaled s (hwidth o v hv)

/-- Only graphs without operators are of no width, and those are of any. -/
theorem HasWidth.exists_pos (hg : g.Reachable) (hg' : g'.Reachable) (h : g.HasWidth s)
    (h' : g'.HasWidth s) : ∃ s', 0 < s' ∧ g.HasWidth s' ∧ g'.HasWidth s' := by
  rcases Nat.eq_zero_or_pos s with rfl | hs
  · refine ⟨1, Nat.one_pos, fun o v hv => ?_, fun o v hv => ?_⟩
    · exact absurd ((hg.registered_view hv).width_pos (h o v hv)) (Nat.lt_irrefl 0)
    · exact absurd ((hg'.registered_view hv).width_pos (h' o v hv)) (Nat.lt_irrefl 0)
  · exact ⟨s, hs, h, h'⟩

/-- In bytes an operator takes as many times its memory in elements as its elements are wide. Where
the width is common to the operators of a graph this holds of its totals, and where it is common to
two graphs they are decided between alike. -/
theorem Reachable.costs_rescale (hg : g.Reachable) (c : Config α) :
    (∀ o ∈ g.opIds, ∃ v m m', g.view o = .ok v ∧ (c.inUnit .elements).opMetrics g o = .ok m ∧
      (c.inUnit .bytes).opMetrics g o = .ok m' ∧
      ∀ s : Nat, v.op.HasWidth s v.io → value m'.memoryCost = s * value m.memoryCost) ∧
    ∀ s : Nat, g.HasWidth s →
      (∃ total total', (c.inUnit .elements).graphMetrics g = .ok total ∧
        (c.inUnit .bytes).graphMetrics g = .ok total' ∧
        value total'.memoryCost = s * value total.memoryCost ∧
        total'.computeTime = total.computeTime ∧ total'.parallelism = total.parallelism) ∧
      ∀ g' : Graph, g'.Reachable → g'.HasWidth s → ∃ decision decision',
        (c.inUnit .elements).fusionDecision g g' = .ok decision ∧
        (c.inUnit .bytes).fusionDecision g g' = .ok decision' ∧
        decision'.fuse = decision.fuse ∧ decision'.criterion = decision.criterion := by
  refine ⟨fun o ho => ?_, fun s hwidth => ⟨?_, fun g' hg' hwidth' => ?_⟩⟩
  · obtain ⟨v, m, m', hv, hm, hm', hrescaled⟩ := hg.exists_rescaled c ho
    exact ⟨v, m, m', hv, hm, hm', fun s hwidth => (hrescaled s hwidth).memoryCost⟩
  · obtain ⟨total, total', htotal, htotal', hrescaled⟩ := hg.exists_rescaled_total c hwidth
    exact ⟨total, total', htotal, htotal', hrescaled.memoryCost, hrescaled.computeTime_eq,
      hrescaled.parallelism_eq⟩
  · -- Figures are compared by their ratio, which a positive factor leaves as it is.
    obtain ⟨s', hs, hwidth, hwidth'⟩ := hwidth.exists_pos hg hg' hwidth'
    obtain ⟨plain, plain', hplain, hplain', hrescaled⟩ := hg.exists_rescaled_total c hwidth
    obtain ⟨fused, fused', hfused, hfused', hrescaled'⟩ := hg'.exists_rescaled_total c hwidth'
    have hsame : Metrics.decide c.fuseEpsilon plain' fused' =
        Metrics.decide c.fuseEpsilon plain fused :=
      Metrics.decide_eq_of_rescaled hrescaled hrescaled' hs c.fuseEpsilon
    exact ⟨_, _, Config.fusionDecision_eq hplain hfused, Config.fusionDecision_eq hplain' hfused',
      congrArg Prod.fst hsame, congrArg Prod.snd hsame⟩

/-- A selection between two rows by a condition, and the rectifier of what has been selected. -/
def masked : Graph :=
  (ofCalls [
    .tensor ⟨[3], .float32⟩,
    .tensor ⟨[3], .float32⟩,
    .tensor ⟨[3], .bool⟩,
    .op (.select {}) [⟨0⟩, ⟨1⟩, ⟨2⟩],
    .op (.unary ⟨.relu⟩) [⟨3⟩]]).1

/-- The selection alone. -/
def selected : Graph :=
  (ofCalls [
    .tensor ⟨[3], .float32⟩,
    .tensor ⟨[3], .float32⟩,
    .tensor ⟨[3], .bool⟩,
    .op (.select {}) [⟨0⟩, ⟨1⟩, ⟨2⟩]]).1

theorem hasWidth_masked : masked.HasWidth 4 := by
  rintro ⟨_ | _ | i⟩ v hv
  · obtain rfl := Except.ok.inj hv
    exact ⟨rfl, rfl, rfl⟩
  · obtain rfl := Except.ok.inj hv
    exact ⟨by decide, by decide⟩
  · cases hv

theorem hasWidth_selected : selected.HasWidth 4 := by
  rintro ⟨_ | i⟩ v hv
  · obtain rfl := Except.ok.inj hv
    exact ⟨rfl, rfl, rfl⟩
  · cases hv

theorem costs_rescale_masked :
    masked.Reachable ∧ selected.Reachable ∧ masked.HasWidth 4 ∧ selected.HasWidth 4 ∧
      (∃ total total' : Metrics ℝ,
        (Config.standard.inUnit .elements).graphMetrics masked = .ok total ∧
        (Config.standard.inUnit .bytes).graphMetrics masked = .ok total' ∧
        total'.memoryCost = 4 * total.memoryCost) ∧
      ∃ decision decision' : FusionDecision ℝ,
        (Config.standard.inUnit .elements).fusionDecision masked selected = .ok decision ∧
        (Config.standard.inUnit .bytes).fusionDecision masked selected = .ok decision' ∧
        decision'.fuse = decision.fuse ∧ decision'.criterion = decision.criterion := by
  have hg : masked.Reachable := reachable_ofCalls _
  have hg' : selected.Reachable := reachable_ofCalls _
  obtain ⟨⟨total, total', htotal, htotal', hmemory, _⟩, hdecide⟩ :=
    (hg.costs_rescale (Config.standard (α := ℝ))).2 4 hasWidth_masked
  exact ⟨hg, hg', hasWidth_masked, hasWidth_selected, ⟨total, total', htotal, htotal', hmemory⟩,
    hdecide selected hg' hasWidth_selected⟩

end Graph

end Valued

end DataflowCost
