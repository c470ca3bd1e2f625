import DataflowCost.Estimate.Totals

/-! The choice between a plain graph and a fused one that stands for it. Figures within a relative window
of each other tie; the first figure that does not tie decides, time before memory before
parallelism. -/
namespace DataflowCost

inductive Criterion where
  | computeTime | memoryCost | parallelism | tie
deriving DecidableEq, Repr

def Criterion.name : Criterion → String
  | computeTime => "ComputeTime"
  | memoryCost => "MemoryCost"
  | parallelism => "Parallelism"
  | tie => "Tie"

namespace Metrics

variable {α : Type} [Scalar α]

open Scalar

def tied (epsilon a b : α) : Bool := le (abs (a - b)) (epsilon * maximum (abs a) (abs b))

/-- Whether to fuse, and the figure that says so. -/
def decide (epsilon : α) (plain fused : Metrics α) : Bool × Criterion :=
  if !tied epsilon plain.computeTime fused.computeTime then
    (lt fused.computeTime plain.computeTime, .computeTime)
  else if !tied epsilon plain.memoryCost fused.memoryCost then
    (lt fused.memoryCost plain.memoryCost, .memoryCost)
  else if !tied epsilon plain.parallelism fused.parallelism then
    (lt plain.parallelism fused.parallelism, .parallelism)
  else (false, .tie)

end Metrics

structure FusionDecision (α : Type) where
  fuse : Bool
  criterion : Criterion
  plain : Metrics α
  fused : Metrics α

namespace Config

variable {α : Type} [Scalar α]

def fusionDecision (c : Config α) (plain fused : Graph) :
    Except Failure (FusionDecision α) := do
  let before ← c.graphMetrics plain
  let after ← c.graphMetrics fused
  let (fuse, criterion) := Metrics.decide c.fuseEpsilon before after
  return ⟨fuse, criterion, before, after⟩

def shouldFuse (c : Config α) (plain fused : Graph) : Except Failure Bool := do
  return (← c.fusionDecision plain fused).fuse

end Config

end DataflowCost
