import DataflowCost.Graph.View

/-! Estimates of whole graphs. Times and memory figures of the operators add up in the order of evaluation;
parallelism is folded as configured. -/
namespace DataflowCost

namespace Config

variable {α : Type} [Scalar α]

def context (c : Config α) : CostContext := .ofConfig c

def opMetrics (c : Config α) (g : Graph) (id : OpId) : Except Failure (Metrics α) := do
  (← g.view id).metrics c.context

end Config

def Reducer.combine {α : Type} [Scalar α] : Reducer → α → α → α
  | min, a, b => Scalar.minimum a b
  | max, a, b => Scalar.maximum a b
  | sum, a, b => a + b

namespace Metrics

variable {α : Type} [Scalar α]

/-- The figures of a graph without operators. -/
def none : Metrics α := ⟨0.0, 0.0, 0.0⟩

/-- Parallelism folded from the first operator on, zero without one. -/
def foldParallelism (r : Reducer) : List (Metrics α) → α
  | [] => 0.0
  | m :: rest => rest.foldl (fun acc n => r.combine acc n.parallelism) m.parallelism

def total (r : Reducer) (rows : List (Metrics α)) : Metrics α where
  computeTime := rows.foldl (fun acc m => acc + m.computeTime) 0.0
  memoryCost := rows.foldl (fun acc m => acc + m.memoryCost) 0.0
  parallelism := foldParallelism r rows

end Metrics

namespace Config

variable {α : Type} [Scalar α]

/-- The operators of a graph in the order of evaluation. -/
def evaluationOrder (g : Graph) : Except Failure (List OpView) := do
  (← g.topologicalOrder).mapM g.view

def rowMetrics (c : Config α) (views : List OpView) : Except Failure (List (Metrics α)) :=
  views.mapM fun v => v.metrics c.context

def graphMetrics (c : Config α) (g : Graph) : Except Failure (Metrics α) := do
  return .total c.parallelism (← c.rowMetrics (← evaluationOrder g))

end Config

end DataflowCost
