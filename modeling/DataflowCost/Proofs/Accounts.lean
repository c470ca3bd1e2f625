import DataflowCost.Estimate.Profile
import DataflowCost.Proofs.Totals

/-! What a graph is charged for. Every registered operator stands in one row of a profile and counts
once in the totals, and the same operators under other numbers come to the same totals. -/
namespace DataflowCost

open Scalar
open scoped ExactArithmetic

namespace Graph

/-- A graph with the operators of another one under other numbers. -/
structure Renumbering (g g' : Graph) where
  ops : OpId ≃ OpId
  tensors : TensorId ≃ TensorId
  length_eq : g'.nodes.length = g.nodes.length
  node_kept : ∀ {o : OpId} {n : Node}, g.node? o = some n → ∃ n', g'.node? (ops o) = some n' ∧
    n'.op = n.op ∧ n'.inputs = n.inputs.map tensors ∧ n'.outputs = n.outputs.map tensors
  type_kept : ∀ {t : TensorId} {x : Tensor}, g.tensor? t = some x →
    ∃ x', g'.tensor? (tensors t) = some x' ∧ x'.type = x.type

theorem id_of_view {g : Graph} {o : OpId} {v : OpView} (h : g.view o = .ok v) : v.id = o := by
  obtain ⟨n, _, h⟩ := bind_eq_ok_iff.mp h
  split at h
  next => rw [← Except.ok.inj h]
  next => cases h

namespace Renumbering

variable {g g' : Graph} (ρ : g.Renumbering g')

theorem perm_opIds : (g.opIds.map ρ.ops).Perm g'.opIds := by
  -- Renumbered operators are all different and all there, and no other fits in.
  refine List.Subperm.perm_of_length_le ?_ ?_
  · have hnodup : (g.opIds.map ρ.ops).Nodup := nodup_opIds.map ρ.ops.injective
    apply hnodup.subperm
    intro o' ho'
    obtain ⟨o, ho, rfl⟩ := List.mem_map.mp ho'
    obtain ⟨n, hn⟩ := exists_node?_of_lt (mem_opIds.mp ho)
    obtain ⟨n', hn', _⟩ := ρ.node_kept hn
    exact mem_opIds.mpr (List.getElem?_eq_some_iff.mp hn').1
  · rw [List.length_map, length_opIds, length_opIds, ρ.length_eq]

theorem typesOf?_map {ids : List TensorId} {types : List TensorType}
    (h : g.typesOf? ids = some types) : g'.typesOf? (ids.map ρ.tensors) = some types := by
  induction ids generalizing types with
  | nil => exact h
  | cons t ids ih =>
    obtain ⟨x, rest, hx, hrest, rfl⟩ := exists_of_typesOf?_cons h
    obtain ⟨x', hx', htype⟩ := ρ.type_kept hx
    rw [← htype]
    exact typesOf?_cons hx' (ih hrest)

/-- Estimates are read off a definition and the types of its tensors, so numbers are not among what
they depend on. -/
theorem opMetrics_eq (hg : g.Linked) (hg' : g'.Linked) {α : Type} [Scalar α] {c : Config α}
    {o : OpId} {m : Metrics α} (hm : c.opMetrics g o = .ok m) :
    c.opMetrics g' (ρ.ops o) = .ok m := by
  obtain ⟨v, hv, hm⟩ := Config.opMetrics_eq_ok_iff.mp hm
  obtain ⟨n, hn⟩ := exists_node_of_view hv
  obtain ⟨n', hn', hop, hins, houts⟩ := ρ.node_kept hn
  obtain ⟨reads, writes, hreads, hwrites, hview⟩ := hg.exists_view hn
  obtain ⟨reads', writes', hreads', hwrites', hview'⟩ := hg'.exists_view hn'
  obtain rfl := Except.ok.inj (hv.symm.trans hview)
  -- What the two views show of the tensors are the types that the renumbering keeps.
  have hread := ρ.typesOf?_map (typesOf?_of_mapM hreads)
  have hwritten := ρ.typesOf?_map (typesOf?_of_mapM hwrites)
  rw [← hins, typesOf?_of_mapM hreads'] at hread
  rw [← houts, typesOf?_of_mapM hwrites'] at hwritten
  apply Config.opMetrics_eq_ok_iff.mpr
  refine ⟨_, hview', ?_⟩
  rw [OpView.metrics, OpView.op, OpView.io, OpView.inputTypes, hop, Option.some.inj hread,
    Option.some.inj hwritten]
  exact hm

end Renumbering

end Graph

namespace Config

variable {α : Type} [Scalar α] {c : Config α} {g g' : Graph}

/-- The row of an operator names it and has its estimates. -/
theorem exists_profileRow [Build] (hg : g.Reachable) {o : OpId} {v : OpView} (hv : g.view o = .ok v) :
    ∃ row : ProfileRow α, c.profileRow v = .ok row ∧ row.op = o ∧
      c.opMetrics g o = .ok row.metrics := by
  obtain ⟨m, hm⟩ := hg.exists_metrics (α := α) hv c.context
  obtain ⟨workload, hworkload⟩ := (hg.registered_view hv).estimable.workload
  have hmetrics : v.metrics c.context = .ok m := OpView.orFault_eq_ok_iff.mpr hm
  have hkey : v.perfKey = .ok (.ofVectors workload v.op.attributes) := by
    apply OpView.orFault_eq_ok_iff.mpr
    exact Option.bind_eq_some_iff.mpr ⟨workload, hworkload, rfl⟩
  refine ⟨⟨v.id, v.node.guid, v.kind, v.text, .ofVectors workload v.op.attributes, m⟩, ?_,
    Graph.id_of_view hv, opMetrics_eq_ok_iff.mpr ⟨v, hv, hmetrics⟩⟩
  rw [profileRow, hmetrics, hkey]
  rfl

theorem exists_profileRows [Build] (hg : g.Reachable) {order : List OpId} {views : List OpView}
    (hviews : List.Forall₂ (fun o v => g.view o = .ok v) order views) :
    ∃ rows : List (ProfileRow α), views.mapM c.profileRow = .ok rows ∧
      rows.map ProfileRow.op = order ∧ ∀ row ∈ rows, c.opMetrics g row.op = .ok row.metrics := by
  induction hviews with
  | nil => exact ⟨[], rfl, rfl, nofun⟩
  | @cons o v order views hv _ ih =>
    obtain ⟨row, hrow, rfl, hm⟩ := exists_profileRow (c := c) hg hv
    obtain ⟨rows, hrows, hops, hall⟩ := ih
    refine ⟨row :: rows, ?_, ?_, List.forall_mem_cons.mpr ⟨hm, hall⟩⟩
    · rw [List.mapM_cons, hrow, hrows]
      rfl
    · rw [List.map_cons, hops]

/-- A profile has a row for each operator in the order of evaluation, and the totals below. -/
theorem exists_profile [Build] (hg : g.Reachable) {order : List OpId}
    (horder : g.topologicalOrder = .ok order) {total : Metrics α}
    (htotal : c.graphMetrics g = .ok total) :
    ∃ rows, c.profileOf g = .ok ⟨c, rows, total⟩ ∧ rows.map ProfileRow.op = order ∧
      ∀ row ∈ rows, c.opMetrics g row.op = .ok row.metrics := by
  obtain ⟨views, hviews, _⟩ := bind_eq_ok_iff.mp htotal
  obtain ⟨found, hfound, hmapM⟩ := bind_eq_ok_iff.mp hviews
  obtain rfl := Except.ok.inj (horder.symm.trans hfound)
  obtain ⟨rows, hrows, hops, hall⟩ := exists_profileRows (c := c) hg (mapM_eq_ok_iff.mp hmapM)
  refine ⟨rows, ?_, hops, hall⟩
  -- Rows and totals are made from one order of evaluation.
  rw [profileOf, hviews, htotal]
  exact bind_eq_ok_iff.mpr ⟨views, rfl, bind_eq_ok_iff.mpr ⟨rows, hrows, rfl⟩⟩

section Valued

variable {K : Type} [Field K] [LinearOrder K] [IsStrictOrderedRing K] [Valued α K]

include K

theorem graphMetrics_eq_of_renumbering [Build] (hg : g.Reachable) (hg' : g'.Reachable)
    (ρ : g.Renumbering g') : c.graphMetrics g' = c.graphMetrics g := by
  obtain ⟨rows, hrows, htotal⟩ := c.exists_total hg
  have hmoved : (g.opIds.map ρ.ops).mapM (c.opMetrics g') = .ok rows := by
    apply mapM_eq_ok_iff.mpr
    rw [List.forall₂_map_left_iff]
    apply (mapM_eq_ok_iff.mp hrows).imp
    intro o m hm
    exact ρ.opMetrics_eq hg.linked hg'.linked hm
  obtain ⟨rows', hrows', hperm⟩ := exists_mapM_of_perm ρ.perm_opIds.symm hmoved
  rw [graphMetrics_eq_of_mapM hg' hrows', htotal, Metrics.total_eq_of_perm _ hperm]

end Valued

end Config

namespace Graph

variable {α K : Type} [Scalar α] [Field K] [LinearOrder K] [IsStrictOrderedRing K] [Valued α K]
  {g : Graph}

/-- Totals and profiles are there, count each operator once, and do not depend on how operators are
numbered. -/
theorem Reachable.counted_once [Build] (hg : g.Reachable) (c : Config α) :
    ∃ order rows total, g.topologicalOrder = .ok order ∧ g.Schedule order ∧
      g.opIds.mapM (c.opMetrics g) = .ok rows ∧ c.graphMetrics g = .ok total ∧
      value total.computeTime = (rows.map fun m => value m.computeTime).sum ∧
      value total.memoryCost = (rows.map fun m => value m.memoryCost).sum ∧
      c.parallelism.Folds (rows.map fun m => value m.parallelism) (value total.parallelism) ∧
      (∃ profile, c.profileOf g = .ok profile ∧ profile.rows.map ProfileRow.op = order ∧
        (∀ row ∈ profile.rows, c.opMetrics g row.op = .ok row.metrics) ∧ profile.total = total) ∧
      ∀ g' : Graph, g'.Reachable → g.Renumbering g' → c.graphMetrics g' = .ok total := by
  obtain ⟨order, horder, hschedule⟩ := hg.exists_schedule
  obtain ⟨rows, hrows, htotal⟩ := c.exists_total hg
  obtain ⟨profile, hprofile, hops, hmetrics⟩ := Config.exists_profile hg horder htotal
  refine ⟨order, rows, _, horder, hschedule, hrows, htotal, Metrics.value_total_computeTime _ _,
    Metrics.value_total_memoryCost _ _, Metrics.folds_foldParallelism _ _,
    ⟨_, hprofile, hops, hmetrics, rfl⟩, ?_⟩
  intro g' hg' ρ
  rw [Config.graphMetrics_eq_of_renumbering hg hg' ρ, htotal]

/-- A rectifier and a hyperbolic tangent of one tensor, and the same in the other order. -/
def rectifierFirst : Graph :=
  (ofCalls [
    .tensor ⟨[4], .float32⟩,
    .op (.unary ⟨.relu⟩) [⟨0⟩],
    .op (.unary ⟨.tanh⟩) [⟨0⟩]]).1

def rectifierLast : Graph :=
  (ofCalls [
    .tensor ⟨[4], .float32⟩,
    .op (.unary ⟨.tanh⟩) [⟨0⟩],
    .op (.unary ⟨.relu⟩) [⟨0⟩]]).1

def exchanged : rectifierFirst.Renumbering rectifierLast where
  ops := .swap ⟨0⟩ ⟨1⟩
  tensors := .swap ⟨1⟩ ⟨2⟩
  length_eq := rfl
  node_kept {o n} hn := by
    rcases o with ⟨_ | _ | i⟩
    · obtain rfl := Option.some.inj hn
      exact ⟨_, rfl, rfl, rfl, rfl⟩
    · obtain rfl := Option.some.inj hn
      exact ⟨_, rfl, rfl, rfl, rfl⟩
    · cases hn
  type_kept {t x} hx := by
    rcases t with ⟨_ | _ | _ | i⟩
    · obtain rfl := Option.some.inj hx
      exact ⟨_, rfl, rfl⟩
    · obtain rfl := Option.some.inj hx
      exact ⟨_, rfl, rfl⟩
    · obtain rfl := Option.some.inj hx
      exact ⟨_, rfl, rfl⟩
    · cases hx

theorem counted_once_rectifierFirst :
    rectifierFirst.Reachable ∧ rectifierLast.Reachable ∧
      ∃ rows total,
        rectifierFirst.opIds.mapM (Config.standard.opMetrics rectifierFirst) = .ok rows ∧
        Config.standard.graphMetrics rectifierFirst = .ok total ∧
        Config.standard.graphMetrics rectifierLast = .ok total ∧
        (total.computeTime : ℝ) = (rows.map Metrics.computeTime).sum := by
  have hg : rectifierFirst.Reachable := reachable_ofCalls _
  have hg' : rectifierLast.Reachable := reachable_ofCalls _
  obtain ⟨_, rows, total, _, _, hrows, htotal, htime, _, _, _, hrenumbered⟩ :=
    hg.counted_once (Config.standard (α := ℝ))
  exact ⟨hg, hg', rows, total, hrows, htotal, hrenumbered _ hg' exchanged, htime⟩

end Graph

end DataflowCost
