import DataflowCost.Proofs.Appended
import DataflowCost.Proofs.Decision

/-! Totals as functions of what is estimated, whatever the order of evaluation. Sums, least and
greatest figures do not depend on an order, so the totals of a graph are those of its operators
taken as they were registered, and renumbering a graph changes none of them. -/
namespace DataflowCost

open Scalar

namespace Reducer

section Field

variable {K : Type} [Field K] [LinearOrder K] {r : Reducer} {values values' : List K} {v v' : K}

/-- The least of some figures, the greatest of them, or their sum. -/
def Folds (r : Reducer) (values : List K) (v : K) : Prop :=
  if values = [] then v = 0
  else match r with
    | .min => IsLeast {x | x ∈ values} v
    | .max => IsGreatest {x | x ∈ values} v
    | .sum => v = values.sum

/-- One more figure in a field. -/
def join : Reducer → K → K → K
  | min, a, b => Min.min a b
  | max, a, b => Max.max a b
  | sum, a, b => a + b

theorem Folds.eq_of_perm (h : r.Folds values v) (h' : r.Folds values' v')
    (hperm : values.Perm values') : v = v' := by
  unfold Folds at h h'
  have hnil : values = [] ↔ values' = [] := by
    rw [← List.length_eq_zero_iff, ← List.length_eq_zero_iff, hperm.length_eq]
  -- A least or greatest figure depends on which figures there are, and on nothing else.
  have hset : {x | x ∈ values} = {x | x ∈ values'} := Set.ext fun x => hperm.mem_iff
  by_cases hempty : values = []
  · rw [if_pos hempty] at h
    rw [if_pos (hnil.mp hempty)] at h'
    rw [h, h']
  · rw [if_neg hempty] at h
    rw [if_neg (hempty ∘ hnil.mpr)] at h'
    cases r with
    | min =>
      rw [hset] at h
      exact h.unique h'
    | max =>
      rw [hset] at h
      exact h.unique h'
    | sum => rw [h, h', hperm.sum_eq]

theorem Folds.nonneg [IsStrictOrderedRing K] (h : r.Folds values v)
    (hvalues : ∀ x ∈ values, 0 ≤ x) : 0 ≤ v := by
  unfold Folds at h
  split at h
  · exact h.ge
  · cases r with
    | min => exact hvalues v h.1
    | max => exact hvalues v h.1
    | sum => exact h ▸ List.sum_nonneg hvalues

/-- The least of some figures speaks for all of them. -/
theorem Folds.nonneg_iff [IsStrictOrderedRing K] (h : min.Folds values v) :
    0 ≤ v ↔ ∀ x ∈ values, 0 ≤ x := by
  refine ⟨fun hv x hx => ?_, h.nonneg⟩
  rw [Folds, if_neg (List.ne_nil_of_mem hx)] at h
  exact hv.trans (h.2 hx)

theorem folds_singleton (r : Reducer) (v : K) : r.Folds [v] v := by
  unfold Folds
  rw [if_neg (List.cons_ne_nil v [])]
  cases r with
  | min | max => simp
  | sum => rw [List.sum_singleton]

theorem Folds.concat (h : r.Folds values v) (hvalues : values ≠ []) (x : K) :
    r.Folds (values ++ [x]) (r.join v x) := by
  have hset : {y | y ∈ values ++ [x]} = insert x {y | y ∈ values} := by
    ext y
    simp [or_comm]
  unfold Folds at h ⊢
  rw [if_neg hvalues] at h
  rw [if_neg (List.append_ne_nil_of_left_ne_nil hvalues [x])]
  cases r with
  | min =>
    rw [hset, join, min_comm]
    exact h.insert x
  | max =>
    rw [hset, join, max_comm]
    exact h.insert x
  | sum => rw [join, h, List.sum_append, List.sum_singleton]

end Field

theorem value_combine {α K : Type} [Scalar α] [Field K] [LinearOrder K] [IsStrictOrderedRing K]
    [Valued α K] (r : Reducer) (a b : α) : value (r.combine a b) = r.join (value a) (value b) := by
  cases r with
  | min => exact Valued.value_minimum a b
  | max => exact Valued.value_maximum a b
  | sum => exact Valued.value_add a b

end Reducer

variable {α : Type} [Scalar α]

namespace Metrics

variable {K : Type} [Field K] [LinearOrder K] [IsStrictOrderedRing K] [Valued α K]

theorem folds_foldParallelism (r : Reducer) (rows : List (Metrics α)) :
    r.Folds (rows.map fun m => value m.parallelism) (value (foldParallelism r rows)) := by
  induction rows using List.reverseRecOn with
  | nil =>
    have hzero : value (0.0 : α) = 0 := by norm_num
    exact (if_pos rfl).mpr hzero
  | append_singleton rows m ih =>
    rw [List.map_append, List.map_singleton]
    -- The first figure is taken as it is, every other one is combined with those before it.
    by_cases hrows : rows = []
    · subst hrows
      exact r.folds_singleton _
    · rw [foldParallelism_concat r hrows, Reducer.value_combine]
      exact ih.concat (by simpa using hrows) _

include K in
theorem total_eq_of_perm (r : Reducer) {rows rows' : List (Metrics α)} (h : rows.Perm rows') :
    total r rows = total r rows' := by
  have htime : (total r rows).computeTime = (total r rows').computeTime := by
    apply Valued.value_injective
    rw [value_total_computeTime, value_total_computeTime]
    exact (h.map _).sum_eq
  have hmemory : (total r rows).memoryCost = (total r rows').memoryCost := by
    apply Valued.value_injective
    rw [value_total_memoryCost, value_total_memoryCost]
    exact (h.map _).sum_eq
  have hparallelism : (total r rows).parallelism = (total r rows').parallelism := by
    apply Valued.value_injective
    exact (folds_foldParallelism r rows).eq_of_perm (folds_foldParallelism r rows') (h.map _)
  exact (mk.injEq ..).mpr ⟨htime, hmemory, hparallelism⟩

end Metrics

namespace Graph

variable {g : Graph} {op : Operator} {inputs : List TensorId} {e : Extended OpId}

theorem Reachable.exists_schedule [Build] (hg : g.Reachable) :
    ∃ order, g.topologicalOrder = .ok order ∧ g.Schedule order := by
  obtain ⟨order, horder⟩ := hg.exists_order
  obtain ⟨found, hgreedy, _⟩ := exists_greedy hg.linked.toArena
  have heq := Graph.topologicalOrder_eq hg.linked.toArena hgreedy
  rw [horder] at heq
  rcases ite_eq_iff.mp heq.symm with ⟨hlen, hok⟩ | ⟨_, herror⟩
  · obtain rfl := Except.ok.inj hok
    exact ⟨found, horder, (hgreedy.least hlen).1⟩
  · cases herror

theorem Adds.extends [Build] (h : g.Adds op inputs e) (hg : g.Reachable) : g.Extends e.graph := by
  obtain ⟨guid, hadd | ⟨outputs, hadd⟩⟩ := h
  · exact hg.extends_addOp hadd
  · obtain ⟨inferred, hadmits, _, rfl⟩ := addOpInto_eq_ok_iff.mp hadd
    exact hg.linked.extends_register hadmits.writable

theorem mem_opIds_of_view {o : OpId} {v : OpView} (hv : g.view o = .ok v) : o ∈ g.opIds := by
  obtain ⟨n, hn⟩ := exists_node_of_view hv
  exact mem_opIds.mpr (List.getElem?_eq_some_iff.mp hn).1

theorem Reachable.exists_row [Build] (hg : g.Reachable) (c : Config α) {o : OpId} (ho : o ∈ g.opIds) :
    ∃ v m, g.view o = .ok v ∧ c.opMetrics g o = .ok m ∧
      v.op.metrics ⟨v.inputTypes, v.outputs.map Tensor.type⟩ c.context = some m := by
  obtain ⟨n, hn⟩ := exists_node?_of_lt (mem_opIds.mp ho)
  obtain ⟨v, hv, _⟩ := hg.exists_registered_view hn
  obtain ⟨m, hm⟩ := hg.exists_metrics (α := α) hv c.context
  exact ⟨v, m, hv, Config.opMetrics_eq_ok_iff.mpr ⟨v, hv, OpView.orFault_eq_ok_iff.mpr hm⟩, hm⟩

theorem Adds.opIds_eq [Build] (h : g.Adds op inputs e) : e.graph.opIds = g.opIds ++ [e.id] := by
  obtain ⟨guid, hadd | ⟨outputs, hadd⟩⟩ := h
  · exact opIds_of_addOp hadd
  · obtain ⟨inferred, _, _, rfl⟩ := addOpInto_eq_ok_iff.mp hadd
    simp [register, opIds, List.range_succ]

theorem Adds.id_mem_opIds [Build] (h : g.Adds op inputs e) : e.id ∈ e.graph.opIds := by
  rw [h.opIds_eq]
  exact List.mem_append_right _ (List.mem_singleton_self _)

end Graph

namespace Config

variable {c : Config α} {g g' : Graph} {rows : List (Metrics α)}

theorem mem_opIds_of_opMetrics {o : OpId} {m : Metrics α} (hm : c.opMetrics g o = .ok m) :
    o ∈ g.opIds := by
  obtain ⟨v, hv, _⟩ := opMetrics_eq_ok_iff.mp hm
  exact Graph.mem_opIds_of_view hv

/-- What stands in the rows of a graph is what is estimated for its operators. -/
theorem mem_rows_iff (hrows : g.opIds.mapM (c.opMetrics g) = .ok rows) {m : Metrics α} :
    m ∈ rows ↔ ∃ o, c.opMetrics g o = .ok m := by
  rw [mem_iff_of_mapM hrows]
  exact ⟨fun ⟨o, _, hm⟩ => ⟨o, hm⟩, fun ⟨o, hm⟩ => ⟨o, mem_opIds_of_opMetrics hm, hm⟩⟩

section Valued

variable {K : Type} [Field K] [LinearOrder K] [IsStrictOrderedRing K] [Valued α K]

include K

/-- Every operator has its estimates, and the totals are those of the estimates. -/
theorem exists_total [Build] (c : Config α) (hg : g.Reachable) : ∃ rows,
    g.opIds.mapM (c.opMetrics g) = .ok rows ∧
      c.graphMetrics g = .ok (.total c.parallelism rows) := by
  obtain ⟨order, horder, hschedule⟩ := hg.exists_schedule
  obtain ⟨evaluated, hevaluated⟩ := exists_rowsOf (c := c) hg
  -- Evaluation visits every operator once, so its rows are the registered ones in another order.
  have hrows := mapM_eq_ok_iff.mpr ((rowsOf_eq_ok_iff horder).mp hevaluated)
  obtain ⟨rows, hregistered, hperm⟩ := exists_mapM_of_perm hschedule.perm.symm hrows
  refine ⟨rows, hregistered, ?_⟩
  rw [graphMetrics_eq_of_rowsOf hevaluated, Metrics.total_eq_of_perm _ hperm]

theorem graphMetrics_eq_of_mapM [Build] (hg : g.Reachable)
    (hrows : g.opIds.mapM (c.opMetrics g) = .ok rows) :
    c.graphMetrics g = .ok (.total c.parallelism rows) := by
  obtain ⟨found, hfound, htotal⟩ := c.exists_total hg
  obtain rfl := Except.ok.inj (hrows.symm.trans hfound)
  exact htotal

end Valued

/-- An added operator adds its row to those that were there, wherever it is evaluated. -/
theorem mapM_opMetrics_of_adds [Build] (hg : g.Reachable) {op : Operator} {inputs : List TensorId}
    {e : Extended OpId} (h : g.Adds op inputs e)
    (hrows : g.opIds.mapM (c.opMetrics g) = .ok rows) {m : Metrics α}
    (hm : c.opMetrics e.graph e.id = .ok m) :
    e.graph.opIds.mapM (c.opMetrics e.graph) = .ok (rows ++ [m]) := by
  have hold : List.Forall₂ (fun o m => c.opMetrics e.graph o = .ok m) g.opIds rows := by
    apply (mapM_eq_ok_iff.mp hrows).imp
    intro o n hn
    exact opMetrics_kept (h.extends hg) hg.linked (h.reachable hg).linked hn
  rw [h.opIds_eq]
  exact mapM_eq_ok_iff.mpr (List.rel_append hold (.cons hm .nil))

/-- Its time and memory are added to the totals, and its parallelism joins that of the others. -/
theorem exists_totals_of_adds [Build] {K : Type} [Field K] [LinearOrder K] [IsStrictOrderedRing K]
    [Valued α K] (c : Config α) (hg : g.Reachable) {op : Operator} {inputs : List TensorId}
    {e : Extended OpId} (h : g.Adds op inputs e) :
    ∃ before m after, c.graphMetrics g = .ok before ∧ c.opMetrics e.graph e.id = .ok m ∧
      c.graphMetrics e.graph = .ok after ∧
      value after.computeTime = value before.computeTime + value m.computeTime ∧
      value after.memoryCost = value before.memoryCost + value m.memoryCost ∧
      (g.nodes ≠ [] → value after.parallelism =
        c.parallelism.join (value before.parallelism) (value m.parallelism)) := by
  obtain ⟨rows, hrows, hbefore⟩ := c.exists_total hg
  obtain ⟨_, m, _, hm, _⟩ := (h.reachable hg).exists_row c h.id_mem_opIds
  have hafter := graphMetrics_eq_of_mapM (h.reachable hg) (mapM_opMetrics_of_adds hg h hrows hm)
  refine ⟨_, m, _, hbefore, hm, hafter, ?_, ?_, fun hnodes => ?_⟩
  · simp [Metrics.value_total_computeTime]
  · simp [Metrics.value_total_memoryCost]
  · have hsome : rows ≠ [] := by
      rintro rfl
      have hlen := (mapM_eq_ok_iff.mp hrows).length_eq
      rw [Graph.length_opIds] at hlen
      exact hnodes (List.length_eq_zero_iff.mp hlen)
    exact (congrArg value (Metrics.foldParallelism_concat c.parallelism hsome m)).trans
      (c.parallelism.value_combine _ _)

end Config

end DataflowCost
