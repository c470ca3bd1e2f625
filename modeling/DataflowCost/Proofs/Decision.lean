import DataflowCost.Estimate.Fusion
import DataflowCost.Proofs.Valued

/-! Totals and decisions in exact arithmetic. Times and memory figures of a graph are sums over its
rows, and a graph that is beaten in no figure is never given up. -/
namespace DataflowCost

open Scalar

namespace Metrics

variable {α K : Type} [Scalar α] [Field K] [LinearOrder K] [IsStrictOrderedRing K] [Valued α K]

/-- A figure that is added up over rows, from zero on. -/
theorem value_foldl_add (f : Metrics α → α) (rows : List (Metrics α)) :
    value (rows.foldl (fun acc m => acc + f m) 0.0) = (rows.map fun m => value (f m)).sum := by
  have hfrom (a : α) : value (rows.foldl (fun acc m => acc + f m) a) =
      value a + (rows.map fun m => value (f m)).sum := by
    induction rows generalizing a with
    | nil => simp
    | cons m rows ih =>
      calc value (rows.foldl (fun acc m => acc + f m) (a + f m))
          = value (a + f m) + (rows.map fun m => value (f m)).sum := ih (a + f m)
        _ = value a + ((m :: rows).map fun m => value (f m)).sum := by
          rw [Valued.value_add, List.map_cons, List.sum_cons, add_assoc]
  have hzero : value (0.0 : α) = 0 := by norm_num
  rw [hfrom, hzero, zero_add]

theorem value_total_computeTime (r : Reducer) (rows : List (Metrics α)) :
    value (total r rows).computeTime = (rows.map fun m => value m.computeTime).sum :=
  value_foldl_add Metrics.computeTime rows

theorem value_total_memoryCost (r : Reducer) (rows : List (Metrics α)) :
    value (total r rows).memoryCost = (rows.map fun m => value m.memoryCost).sum :=
  value_foldl_add Metrics.memoryCost rows

/-- The last operator is folded in last, unless it is the only one. -/
theorem foldParallelism_concat (r : Reducer) {rows : List (Metrics α)} (h : rows ≠ [])
    (m : Metrics α) :
    foldParallelism r (rows ++ [m]) = r.combine (foldParallelism r rows) m.parallelism := by
  cases rows with
  | nil => exact absurd rfl h
  | cons first rest => exact List.foldl_append

theorem foldParallelism_congr (r : Reducer) {rows rows' : List (Metrics α)}
    (h : rows.map Metrics.parallelism = rows'.map Metrics.parallelism) :
    foldParallelism r rows = foldParallelism r rows' := by
  have hfold (a : α) (rows : List (Metrics α)) :
      rows.foldl (fun acc m => r.combine acc m.parallelism) a =
        (rows.map Metrics.parallelism).foldl r.combine a := List.foldl_map.symm
  cases rows with
  | nil =>
    have hnil : rows' = [] := List.map_eq_nil_iff.mp h.symm
    rw [hnil]
  | cons m rows =>
    obtain ⟨m', rest, rfl, hm, hrest⟩ := List.map_eq_cons_iff.mp h.symm
    calc foldParallelism r (m :: rows)
        = (rows.map Metrics.parallelism).foldl r.combine m.parallelism := hfold _ _
      _ = (rest.map Metrics.parallelism).foldl r.combine m'.parallelism := by rw [hm, hrest]
      _ = foldParallelism r (m' :: rest) := (hfold _ _).symm

/-- One more operator does not raise the least parallelism. -/
theorem value_foldParallelism_min_concat_le {rows : List (Metrics α)} (h : rows ≠ [])
    (m : Metrics α) :
    value (foldParallelism .min (rows ++ [m])) ≤ value (foldParallelism .min rows) := by
  have hmin : value (foldParallelism .min (rows ++ [m])) =
      min (value (foldParallelism .min rows)) (value m.parallelism) := by
    rw [foldParallelism_concat .min h]
    exact Valued.value_minimum _ _
  rw [hmin]
  exact min_le_left _ _

/-- Without a window nothing ties but equal figures. -/
theorem tied_eq_false {epsilon a b : α} (hepsilon : value epsilon = 0) (h : value b < value a) :
    tied epsilon a b = false := by
  apply Bool.eq_false_iff.mpr
  intro htied
  have hle : |value a - value b| ≤ 0 := by
    have hwindow := (Valued.le_iff _ _).mp htied
    simpa [hepsilon] using hwindow
  have hpos : 0 < |value a - value b| := abs_pos.mpr (sub_pos.mpr h).ne'
  exact absurd hle (not_le.mpr hpos)

/-- A faster graph is chosen for its time if there is no window. -/
theorem decide_of_computeTime_lt {epsilon : α} {plain fused : Metrics α}
    (hepsilon : value epsilon = 0) (h : value fused.computeTime < value plain.computeTime) :
    decide epsilon plain fused = (true, .computeTime) := by
  have htied : tied epsilon plain.computeTime fused.computeTime = false := tied_eq_false hepsilon h
  have hlt : lt fused.computeTime plain.computeTime = true := (Valued.lt_iff _ _).mpr h
  unfold decide
  rw [htied, hlt]
  rfl

/-- Whichever figure decides, a graph that is not beaten in it stays. -/
theorem decide_fst_eq_false (epsilon : α) {plain fused : Metrics α}
    (htime : value plain.computeTime ≤ value fused.computeTime)
    (hmemory : value plain.memoryCost ≤ value fused.memoryCost)
    (hparallelism : value fused.parallelism ≤ value plain.parallelism) :
    (decide epsilon plain fused).1 = false := by
  have hnot {a b : α} (h : value b ≤ value a) : lt a b = false := by
    apply Bool.eq_false_iff.mpr
    intro hlt
    exact absurd ((Valued.lt_iff _ _).mp hlt) (not_lt.mpr h)
  -- A tie passes the decision on, from time to memory and from memory to parallelism.
  unfold decide
  split
  · exact hnot htime
  · split
    · exact hnot hmemory
    · split
      · exact hnot hparallelism
      · rfl

end Metrics

namespace Config

variable {α : Type} [Scalar α] {c : Config α}

theorem fusionDecision_eq {plain fused : Graph} {before after : Metrics α}
    (hplain : c.graphMetrics plain = .ok before) (hfused : c.graphMetrics fused = .ok after) :
    c.fusionDecision plain fused =
      .ok ⟨(Metrics.decide c.fuseEpsilon before after).1,
        (Metrics.decide c.fuseEpsilon before after).2, before, after⟩ := by
  unfold fusionDecision
  rw [hplain, hfused]
  rfl

end Config

end DataflowCost
