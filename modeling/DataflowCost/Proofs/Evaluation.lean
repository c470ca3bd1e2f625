import DataflowCost.Estimate.Fusion
import DataflowCost.Estimate.Profile
import DataflowCost.Proofs.Acyclicity

/-! Estimates go through the order of evaluation, and only there can a cycle be reported. -/
namespace DataflowCost

open scoped ExactArithmetic

variable {α β : Type}

/-- A call that answers, or fails for another reason than a cycle. -/
def NoCycle (r : Except Failure α) : Prop := ∀ remaining, r ≠ .error (.error (.cycle remaining))

theorem noCycle_ok (a : α) : NoCycle (.ok a) := nofun

theorem NoCycle.bind {x : Except Failure α} {f : α → Except Failure β} (hx : NoCycle x)
    (hf : ∀ a, NoCycle (f a)) : NoCycle (x >>= f) := by
  intro remaining h
  rcases bind_eq_error_iff.mp h with h | ⟨a, _, h⟩
  · exact hx remaining h
  · exact hf a remaining h

theorem noCycle_mapM {f : α → Except Failure β} (hf : ∀ a, NoCycle (f a)) (xs : List α) :
    NoCycle (xs.mapM f) := by
  intro remaining h
  obtain ⟨x, _, hx⟩ := exists_error_of_mapM h
  exact hf x remaining hx

theorem noCycle_orFault (x : Option α) : NoCycle (OpView.orFault x) := by
  cases x with
  | none => exact nofun
  | some a => exact noCycle_ok a

theorem noCycle_view (g : Graph) (id : OpId) : NoCycle (g.view id) := by
  unfold Graph.view
  -- An id or a tensor that is not there is another failure.
  refine NoCycle.bind ?_ ?_
  · unfold Graph.node
    cases g.node? id with
    | none => exact nofun
    | some n => exact noCycle_ok n
  · intro n
    cases n.inputs.mapM g.tensor? with
    | none => exact nofun
    | some inputs =>
      cases n.outputs.mapM g.tensor? with
      | none => exact nofun
      | some outputs => exact noCycle_ok _

namespace Config

variable [Scalar α] (c : Config α) {g g' : Graph}

theorem noCycle_evaluationOrder (hg : NoCycle g.topologicalOrder) : NoCycle (evaluationOrder g) :=
  hg.bind fun order => noCycle_mapM (noCycle_view g) order

theorem noCycle_graphMetrics (hg : NoCycle g.topologicalOrder) : NoCycle (c.graphMetrics g) := by
  refine (noCycle_evaluationOrder hg).bind ?_
  intro views
  refine NoCycle.bind (noCycle_mapM (fun v => noCycle_orFault _) views) ?_
  intro rows
  exact noCycle_ok _

theorem noCycle_profileRow (v : OpView) : NoCycle (c.profileRow v) := by
  refine NoCycle.bind (noCycle_orFault _) ?_
  intro metrics
  refine NoCycle.bind (noCycle_orFault _) ?_
  intro key
  exact noCycle_ok _

theorem noCycle_profileOf (hg : NoCycle g.topologicalOrder) : NoCycle (c.profileOf g) := by
  refine (noCycle_evaluationOrder hg).bind ?_
  intro views
  refine NoCycle.bind (noCycle_mapM c.noCycle_profileRow views) ?_
  intro rows
  refine (c.noCycle_graphMetrics hg).bind ?_
  intro total
  exact noCycle_ok _

theorem noCycle_fusionDecision (hg : NoCycle g.topologicalOrder)
    (hg' : NoCycle g'.topologicalOrder) : NoCycle (c.fusionDecision g g') := by
  refine (c.noCycle_graphMetrics hg).bind ?_
  intro before
  refine (c.noCycle_graphMetrics hg').bind ?_
  intro after
  exact noCycle_ok _

end Config

namespace Graph

theorem Reachable.exists_order [Build] {g : Graph} (hg : g.Reachable) :
    ∃ order, g.topologicalOrder = .ok order := by
  rcases hg.linked.topologicalOrder_cases with ⟨_, horder⟩ | ⟨hcyclic, _⟩
  · exact horder
  · exact absurd hg.acyclic hcyclic

theorem Reachable.noCycle_topologicalOrder [Build] {g : Graph} (hg : g.Reachable) :
    NoCycle g.topologicalOrder := by
  obtain ⟨order, horder⟩ := hg.exists_order
  rw [horder]
  exact noCycle_ok order

/-- Reachable graphs can be ordered, and no estimate of them reports a cycle. -/
theorem Reachable.never_cyclic [Build] {g : Graph} (hg : g.Reachable) :
    (∀ a, ¬ Relation.TransGen g.Feeds a a) ∧
    (∃ order, g.topologicalOrder = .ok order) ∧
    ∀ {α : Type} [Scalar α] (c : Config α),
      NoCycle (c.graphMetrics g) ∧ NoCycle (c.profileOf g) ∧
      ∀ g' : Graph, g'.Reachable →
        NoCycle (c.fusionDecision g g') ∧ NoCycle (c.fusionDecision g' g) := by
  have horder := hg.noCycle_topologicalOrder
  refine ⟨hg.acyclic, hg.exists_order, ?_⟩
  intro α _ c
  refine ⟨c.noCycle_graphMetrics horder, c.noCycle_profileOf horder, ?_⟩
  intro g' hg'
  have horder' := hg'.noCycle_topologicalOrder
  exact ⟨c.noCycle_fusionDecision horder horder', c.noCycle_fusionDecision horder' horder⟩

theorem never_cyclic_lateProducer :
    lateProducer.Reachable ∧ lateProducer.Feeds ⟨1⟩ ⟨0⟩ ∧
      ¬ Relation.TransGen lateProducer.Feeds ⟨0⟩ ⟨1⟩ ∧
      ∀ c : Config Float, NoCycle (c.fusionDecision lateProducer lateProducer) := by
  have hg : lateProducer.Reachable := reachable_ofCalls _
  have hfeeds : lateProducer.Feeds ⟨1⟩ ⟨0⟩ :=
    ⟨⟨1⟩, ⟨_, by cbv, by simp⟩, ⟨_, by cbv, by simp⟩⟩
  obtain ⟨hfree, _, hestimates⟩ := hg.never_cyclic
  refine ⟨hg, hfeeds, ?_, ?_⟩
  · intro hback
    exact hfree ⟨0⟩ (hback.tail hfeeds)
  · intro c
    exact ((hestimates c).2.2 lateProducer hg).1

end Graph

end DataflowCost
