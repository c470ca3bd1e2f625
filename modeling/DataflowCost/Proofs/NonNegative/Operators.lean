import DataflowCost.Proofs.Accounts
import DataflowCost.Proofs.NonNegative.Layout
import DataflowCost.Proofs.NonNegative.Normalization
import DataflowCost.Proofs.NonNegative.Pointwise
import DataflowCost.Proofs.NonNegative.Product
import DataflowCost.Proofs.NonNegative.Transfer
import DataflowCost.Proofs.NonNegative.Window

/-! Signs of what graphs are charged. Neither time nor memory is below zero for any operator, so an
added one lowers no total. Parallelism is below zero for some transpositions and nothing else. -/
namespace DataflowCost

open Scalar Family
open scoped ExactArithmetic

namespace Operator

variable {op : Operator} {inputs outputs : List TensorType}

/-- Transpositions that charge more for disorder than there is parallelism. -/
def Overdrawn : Operator → Prop
  | transpose d => d.Overdrawn
  | _ => False

theorem Overdrawn.exists_transpose (h : op.Overdrawn) : ∃ d, op = .transpose d ∧ d.Overdrawn := by
  cases op with
  | transpose d => exact ⟨d, rfl, h⟩
  | _ => exact h.elim

variable {α K : Type} [Scalar α] [Field K] [LinearOrder K] [IsStrictOrderedRing K] [Valued α K]
  [Signed α] {cx : CostContext} {m : Metrics α}

theorem Registered.isNonneg (h : op.Registered inputs outputs)
    (hm : op.metrics ⟨inputs, outputs⟩ cx = some m) : m.IsNonneg op.Overdrawn := by
  have hfamily := h.family
  cases op with
  | transpose d => exact Transpose.isNonneg hm
  | _ => exact NonNegative.nonneg hfamily hm

/-- An overdrawn transposition has no parallelism to speak of, unless there is nothing to move. -/
theorem Registered.value_parallelism_nonneg_iff (h : op.Registered inputs outputs)
    (hm : op.metrics ⟨inputs, outputs⟩ cx = some m) : 0 ≤ value m.parallelism ↔
      ¬(op.Overdrawn ∧ ∃ x, inputs[0]? = some x ∧ 0 < value (sqrt x.elements : α)) := by
  by_cases hover : op.Overdrawn
  · obtain ⟨d, rfl, hfew⟩ := hover.exists_transpose
    obtain ⟨x, hx, hm⟩ := Option.bind_eq_some_iff.mp hm
    have hx : inputs[0]? = some x := hx
    obtain rfl := Option.some.inj hm
    have hiff := Transpose.value_parallelism_nonneg_iff d.resolved (x.elements : α)
    simpa [hover, hx, show 17 + Transpose.adjacent d.resolved < d.resolved.length from hfew]
      using hiff
  · have hnonneg : 0 ≤ value m.parallelism := (h.isNonneg hm).parallelism hover
    exact iff_of_true hnonneg fun hboth => hover hboth.1

end Operator

namespace Graph

variable {α K : Type} [Scalar α] [Field K] [LinearOrder K] [IsStrictOrderedRing K] [Valued α K]
  [Signed α] {g : Graph}

theorem Reachable.exists_nonneg (hg : g.Reachable) (c : Config α) {o : OpId} (ho : o ∈ g.opIds) :
    ∃ m, c.opMetrics g o = .ok m ∧ ∃ overdrawn, m.IsNonneg overdrawn := by
  obtain ⟨v, m, hv, hrow, hm⟩ := hg.exists_row c ho
  exact ⟨m, hrow, _, (hg.registered_view hv).isNonneg hm⟩

/-- The parallelism of an operator is below zero exactly for overdrawn transpositions of something.
Without any of them that of the graph is not, and under the least figure a single one decides. -/
theorem Reachable.parallelism_nonneg_iff (hg : g.Reachable) (c : Config α) :
    (∀ o ∈ g.opIds, ∃ v m, g.view o = .ok v ∧ c.opMetrics g o = .ok m ∧
      (0 ≤ value m.parallelism ↔ ¬(v.op.Overdrawn ∧
        ∃ x, v.inputTypes[0]? = some x ∧ 0 < value (sqrt x.elements : α)))) ∧
    ∃ total, c.graphMetrics g = .ok total ∧
      ((∀ o v, g.view o = .ok v → ¬v.op.Overdrawn) → 0 ≤ value total.parallelism) ∧
      (c.parallelism = .min → (0 ≤ value total.parallelism ↔
        ∀ o m, c.opMetrics g o = .ok m → 0 ≤ value m.parallelism)) := by
  obtain ⟨rows, hrows, htotal⟩ := c.exists_total hg
  have hfolds := Metrics.folds_foldParallelism c.parallelism rows
  -- Rows are the estimates of the operators, so a bound on either is one on the other.
  have hall : (∀ x ∈ rows.map fun m => value m.parallelism, 0 ≤ x) ↔
      ∀ o m, c.opMetrics g o = .ok m → 0 ≤ value m.parallelism := by
    simp only [List.forall_mem_map, Config.mem_rows_iff hrows, forall_exists_index]
    exact forall_comm
  refine ⟨fun o ho => ?_, _, htotal, fun hfew => ?_, fun hleast => ?_⟩
  · obtain ⟨v, m, hv, hrow, hm⟩ := hg.exists_row c ho
    exact ⟨v, m, hv, hrow, (hg.registered_view hv).value_parallelism_nonneg_iff hm⟩
  · apply hfolds.nonneg
    rw [hall]
    intro o m hm
    obtain ⟨v, hv, hm⟩ := Config.opMetrics_eq_ok_iff.mp hm
    have hnonneg := (hg.registered_view hv).isNonneg (OpView.orFault_eq_ok_iff.mp hm)
    exact hnonneg.parallelism (hfew o v hv)
  · rw [hleast] at hfolds
    rw [← hall, ← hfolds.nonneg_iff, hleast]
    rfl

/-- Eighteen axes of which no neighbours stay together. -/
def scatteredAxes : List Nat := [0, 2, 4, 6, 8, 10, 12, 14, 16, 1, 3, 5, 7, 9, 11, 13, 15, 17]

def scattered : Graph :=
  (ofCalls [
    .tensor ⟨List.replicate 18 1, .float32⟩,
    .op (.transpose { permutation := scatteredAxes }) [⟨0⟩]]).1

theorem overdrawn_scatteredAxes : 17 + Transpose.adjacent scatteredAxes < scatteredAxes.length := by
  decide

theorem exists_view_scattered : ∃ v, scattered.view ⟨0⟩ = .ok v ∧
    v.op = .transpose ⟨scatteredAxes, scatteredAxes⟩ ∧
    v.inputTypes = [⟨List.replicate 18 1, .float32⟩] :=
  ⟨_, rfl, rfl, rfl⟩

theorem parallelism_nonneg_scattered :
    scattered.Reachable ∧ ∃ m : Metrics ℝ,
      Config.standard.opMetrics scattered ⟨0⟩ = .ok m ∧ ¬0 ≤ m.parallelism := by
  have hg : scattered.Reachable := reachable_ofCalls _
  have hmem : (⟨0⟩ : OpId) ∈ scattered.opIds := by decide
  obtain ⟨v, m, hv, hm, hiff⟩ := (hg.parallelism_nonneg_iff (Config.standard (α := ℝ))).1 ⟨0⟩ hmem
  obtain ⟨w, hw, hop, hinputs⟩ := exists_view_scattered
  obtain rfl := Except.ok.inj (hv.symm.trans hw)
  have hover : v.op.Overdrawn := by
    rw [hop]
    exact overdrawn_scatteredAxes
  have hroot : (0 : ℝ) < √(1 : Nat) := by norm_num
  have hinput : v.inputTypes[0]? = some ⟨List.replicate 18 1, .float32⟩ := by
    rw [hinputs]
    rfl
  exact ⟨hg, m, hm, fun hnonneg => hiff.mp hnonneg ⟨hover, _, hinput, hroot⟩⟩

/-- It has less than no parallelism, and so has its graph whatever the way of folding. -/
theorem scattered_parallelism_neg :
    scattered.Reachable ∧ ∀ c : Config ℝ, ∃ m total : Metrics ℝ,
      c.opMetrics scattered ⟨0⟩ = .ok m ∧ c.graphMetrics scattered = .ok total ∧
      m.parallelism < 0 ∧ total.parallelism < 0 := by
  have hg : scattered.Reachable := reachable_ofCalls _
  refine ⟨hg, fun c => ?_⟩
  obtain ⟨v, m, hv, hrow, hm⟩ := hg.exists_row c (o := ⟨0⟩) (by decide)
  obtain ⟨w, hw, hop, hinputs⟩ := exists_view_scattered
  obtain rfl := Except.ok.inj (hv.symm.trans hw)
  have hneg : m.parallelism < 0 := by
    rw [hop, hinputs] at hm
    obtain rfl := Option.some.inj hm
    have hroot : 0 < √((1 : Nat) : ℝ) := by norm_num
    have hiff := Transpose.value_parallelism_nonneg_iff scatteredAxes ((1 : Nat) : ℝ)
    exact not_le.mp fun hnonneg => hiff.mp hnonneg ⟨overdrawn_scatteredAxes, hroot⟩
  have hrows : scattered.opIds.mapM (c.opMetrics scattered) = .ok [m] :=
    mapM_eq_ok_iff.mpr (.cons hrow .nil)
  exact ⟨m, .total c.parallelism [m], hrow, Config.graphMetrics_eq_of_mapM hg hrows, hneg, hneg⟩

/-- Operators take neither less than no time nor less than no memory, so that one more of them
lowers neither total, wherever it is evaluated. The least parallelism does not rise and the
greatest does not fall. -/
theorem Reachable.costs_nonneg (hg : g.Reachable) (c : Config α) :
    (∀ o ∈ g.opIds, ∃ m, c.opMetrics g o = .ok m ∧
      0 ≤ value m.computeTime ∧ 0 ≤ value m.memoryCost) ∧
    ∀ (op : Operator) (inputs : List TensorId) (e : Extended OpId), g.Adds op inputs e →
      ∃ before after, c.graphMetrics g = .ok before ∧ c.graphMetrics e.graph = .ok after ∧
        value before.computeTime ≤ value after.computeTime ∧
        value before.memoryCost ≤ value after.memoryCost ∧
        (g.nodes ≠ [] →
          (c.parallelism = .min → value after.parallelism ≤ value before.parallelism) ∧
          (c.parallelism = .max → value before.parallelism ≤ value after.parallelism)) := by
  refine ⟨fun o ho => ?_, fun op inputs e h => ?_⟩
  · obtain ⟨m, hm, _, hnonneg⟩ := hg.exists_nonneg c ho
    exact ⟨m, hm, hnonneg.computeTime, hnonneg.memoryCost⟩
  · obtain ⟨before, m, after, hbefore, hm, hafter, htime, hmemory, hparallelism⟩ :=
      c.exists_totals_of_adds hg h
    obtain ⟨n, hn, _, hnonneg⟩ := (h.reachable hg).exists_nonneg c h.id_mem_opIds
    obtain rfl := Except.ok.inj (hm.symm.trans hn)
    refine ⟨before, after, hbefore, hafter, ?_, ?_,
      fun hnodes => ⟨fun hleast => ?_, fun hmost => ?_⟩⟩
    · rw [htime]
      exact le_add_of_nonneg_right hnonneg.computeTime
    · rw [hmemory]
      exact le_add_of_nonneg_right hnonneg.memoryCost
    · rw [hparallelism hnodes, hleast]
      exact min_le_left _ _
    · rw [hparallelism hnodes, hmost]
      exact le_max_left _ _

/-- A rectifier whose input nothing has produced yet. -/
def awaiting : Graph :=
  (ofCalls [
    .tensor ⟨[4], .float32⟩,
    .tensor ⟨[4], .float32⟩,
    .op (.unary ⟨.relu⟩) [⟨1⟩]]).1

/-- What produces it comes later and is evaluated first. -/
theorem costs_nonneg_awaiting :
    awaiting.Reachable ∧ lateProducer.topologicalOrder = .ok [⟨1⟩, ⟨0⟩] ∧
      awaiting.addOpInto 5 (.elementwise ⟨.add, .none⟩) [⟨0⟩, ⟨0⟩] [⟨1⟩] =
        .ok ⟨lateProducer, 6, ⟨1⟩⟩ ∧
      ∃ before after : Metrics ℝ, Config.standard.graphMetrics awaiting = .ok before ∧
        Config.standard.graphMetrics lateProducer = .ok after ∧
        before.computeTime ≤ after.computeTime ∧ before.memoryCost ≤ after.memoryCost ∧
        after.parallelism ≤ before.parallelism := by
  have hg : awaiting.Reachable := reachable_ofCalls _
  have horder : lateProducer.topologicalOrder = .ok [⟨1⟩, ⟨0⟩] := by cbv
  have hadd : awaiting.addOpInto 5 (.elementwise ⟨.add, .none⟩) [⟨0⟩, ⟨0⟩] [⟨1⟩] =
      .ok ⟨lateProducer, 6, ⟨1⟩⟩ := by cbv
  have hnodes : awaiting.nodes ≠ [] := List.cons_ne_nil _ _
  obtain ⟨before, after, hbefore, hafter, htime, hmemory, hparallelism⟩ :=
    (hg.costs_nonneg (Config.standard (α := ℝ))).2 _ _ _ ⟨5, .inr ⟨[⟨1⟩], hadd⟩⟩
  exact ⟨hg, horder, hadd, before, after, hbefore, hafter, htime, hmemory,
    (hparallelism hnodes).1 rfl⟩

end Graph

end DataflowCost
