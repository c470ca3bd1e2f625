import DataflowCost.Operator.Family

/-! Primitives of decoder attention: one step over cached keys and values, and rotary position embedding. -/
namespace DataflowCost

open Scalar Inference Family

/-- Inputs are the key cache, the value cache, and a query that gives the output its shape. -/
structure AttentionKvCache where
deriving DecidableEq, Repr

namespace AttentionKvCache

/-- The axis along which the caches grow. -/
def sequenceAxis : Nat := 2

structure Problem where
  batch : Nat
  heads : Nat
  cached : Nat
  headSize : Nat
deriving DecidableEq, Repr

/-- Sixteen heads of size sixty-four are assumed where the query does not tell. -/
def problem? (io : Io) : Option Problem := do
  let query := (← io.input? 2).shape
  let cached ← (← io.input? 0).shape[sequenceAxis]?
  return match query with
    | batch :: heads :: _ :: size :: _ => ⟨batch, heads, cached, size⟩
    | batch :: heads :: _ => ⟨batch, heads, cached, 64⟩
    | [batch] => ⟨batch, 16, cached, 64⟩
    | [] => ⟨1, 16, cached, 64⟩

def scores {α : Type} [Scalar α] (p : Problem) : α :=
  Scalar.ofNat p.batch * Scalar.ofNat p.heads * Scalar.ofNat p.cached *
    (Scalar.ofNat p.cached + 1.0)

def operations {α : Type} [Scalar α] (p : Problem) : α :=
  let products := scores p * Scalar.ofNat p.headSize
  let update :=
    2.0 * Scalar.ofNat p.batch * Scalar.ofNat p.heads * Scalar.ofNat p.headSize
  products + scores p * 3.0 + products + update

instance : Family AttentionKvCache where
  kind _ := .attentionKvCache
  arity _ := .exact 6 1
  outShapes _ inputs := do
    let keys ← operand inputs 0
    let values ← operand inputs 1
    let query ← operand inputs 2
    require (keys.rank = 4) (.cacheRank keys.shape)
    require (keys.shape = values.shape) (.cachesDiffer keys.shape values.shape)
    require (1 ≤ query.rank) (.rankZero "q")
    return [query.shape]
  metrics {α} _ _ io cx := do
    let p ← problem? io
    let scores : α := scores p
    return {
      computeTime := operations p / 1e9
      memoryCost := io.inTraffic cx + io.outTraffic cx + cx.scaled scores io.dtype
      parallelism := Scalar.ofNat p.batch * Scalar.ofNat p.heads * 0.9 }
  workload _ io := do
    return [Kind.tag .attentionKvCache, word sequenceAxis, word io.inputs.length] ++
      words (← io.output? 0).shape
  attributes _ := [Kind.tag .attentionKvCache, word sequenceAxis]

end AttentionKvCache

/-- Rotates pairs of the last axis of the second input by angles that grow with the position. -/
structure Rope where
deriving DecidableEq, Repr

namespace Rope

/-- Batches, positions, and rotated pairs. -/
def problem {α : Type} [Scalar α] (s : Shape) : α × α × α :=
  let (last, positions) := match s.reverse with
    | [] => (1, 1)
    | [last] => (max last 1, 1)
    | last :: positions :: _ => (max last 1, max positions 1)
  (floor (volume s / (Scalar.ofNat positions * Scalar.ofNat last)), Scalar.ofNat positions,
    floor (Scalar.ofNat last / 2.0))

instance : Family Rope where
  kind _ := .rope
  arity _ := .exact 2 1
  outShapes _ inputs := do
    let x ← operand inputs 1
    require (1 ≤ x.rank) (.rankZero "embedded input")
    return [x.shape]
  outTypes _ inputs := do return [(← operand inputs 1).dtype]
  metrics {α} _ _ io cx := do
    let (batch, positions, pairs) : α × α × α := problem (← io.input? 1).shape
    let out ← io.output? 0
    let angles := positions * pairs * 0.5
    let turns := positions * pairs * 2.0 * 5.0
    let rotation := batch * positions * pairs * 4.0
    return {
      computeTime := (angles + turns + rotation) / 2e9
      memoryCost :=
        io.inTraffic cx + io.outTraffic cx + cx.scaled (positions * pairs * 2.0) out.dtype
      parallelism := capped (batch * positions * minimum pairs 16.0) 2048.0 }
  workload _ io := outputKey .rope io
  attributes _ := [Kind.tag .rope]

end Rope

end DataflowCost
