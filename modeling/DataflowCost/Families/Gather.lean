import DataflowCost.Operator.Family
import DataflowCost.Tensor.Axis

/-! Operators that read a tensor at positions given by an index tensor. Indices that are known when the
operator is built are checked against the extent they select from. -/
namespace DataflowCost

open Scalar Inference Family

def requireIndexType (indices : TensorType) : Inference Unit :=
  require (indices.dtype = .int32 ∨ indices.dtype = .int64) (.indexType indices.dtype)

/-- Replaces one axis of the data by the axes of the indices. -/
structure Gather where
  axis : Int
  resolved : Nat := 0
deriving DecidableEq, Repr

namespace Gather

def checkIndices (axis : Nat) (extent : Int) (indices : List Int) : Inference Unit :=
  match indices.find? fun index => index < 0 || extent ≤ index with
  | some index => invalid (.indexOutOfRange index axis extent)
  | none => .ok ()

/-- The resolved definition and the extent that indices select from. -/
def resolve [Build] (d : Gather) (data indices : TensorType) : Inference (Gather × Int) := do
  let axis ← Axis.resolve d.axis data.rank
  requireIndexType indices
  return ({ d with resolved := axis }, Word.toSigned (← present data.shape[axis]?))

def prepare [Build] (d : Gather) (inputs : List TensorType) : Preparation Float32 Gather :=
  .after (do d.resolve (← operand inputs 0) (← operand inputs 1)) fun (resolved, extent) =>
    .awaitInts 1 fun _ indices => do
      match indices with
      | some indices => checkIndices resolved.resolved extent indices
      | none => .ok ()
      return resolved

def outShape (d : Gather) (data indices : Shape) : Inference Shape := do
  let axis ← Axis.resolve d.axis data.length
  let outer ← present (data.before? axis)
  let inner ← present (data.from? (axis + 1))
  return outer ++ indices ++ inner

instance : Family Gather where
  kind _ := .gather
  arity _ := .exact 2 1
  prepare := prepare
  outShapes d inputs := do
    return [← d.outShape (← operand inputs 0).shape (← operand inputs 1).shape]
  outTypes _ inputs := do
    requireIndexType (← operand inputs 1)
    return [(← operand inputs 0).dtype]
  metrics {α} _ d io cx := do
    let data := (← io.input? 0).shape
    let indices ← io.input? 1
    let out ← io.output? 0
    let inner : α := volume (← data.from? (d.resolved + 1))
    let outer : α := volume (← data.before? d.resolved)
    let discontinuity := if 0 < d.resolved then 1.0 + log2 outer * 0.1 else 1.0
    let penalty : α := if 0 < d.resolved then 1.2 else 1.0
    return {
      computeTime := out.elements / maximum inner 1.0 * 2.0 * discontinuity / 8e8
      memoryCost :=
        cx.traffic indices + io.outTraffic cx * penalty + io.outTraffic cx
      parallelism :=
        capped (outer * sqrt indices.elements * minimum inner 32.0 * 0.8) 1024.0 }
  workload d io := do
    return Kind.tag .gather ::
      words ((← io.input? 0).shape ++ (← io.input? 1).shape) ++ [word d.resolved]
  attributes d := [Kind.tag .gather, word d.resolved]
  describe d := "axis=" ++ toString d.resolved ++ ","

end Gather

/-- Takes one element for each index, at the index along one axis and in place on the others. -/
structure GatherElements where
  axis : Int
  resolved : Nat := 0
deriving DecidableEq, Repr

namespace GatherElements

def outShape (d : GatherElements) (data indices : Shape) : Inference Shape := do
  let axis ← Axis.resolve d.axis data.length
  require (data.length = indices.length) (.indexRank indices data)
  ((data.zip indices).zipIdx).forM fun ((extent, count), position) =>
    require (position = axis ∨ extent = count) (.indexExtent indices data position)
  return indices

/-- The slowdown by the axes behind the one gathered along, if there are any. -/
def discontinuity? {α : Type} [Scalar α] (d : GatherElements) (s : Shape) : Option α :=
  if d.resolved + 1 < s.length then do
    return 1.0 + log2 (volume (← s.from? (d.resolved + 1))) * 0.2
  else some 1.0

instance : Family GatherElements where
  kind _ := .gatherElements
  arity _ := .exact 2 1
  prepare d inputs := .done do
    return { d with resolved := ← Axis.resolve d.axis (← operand inputs 0).rank }
  outShapes d inputs := do
    return [← d.outShape (← operand inputs 0).shape (← operand inputs 1).shape]
  outTypes _ inputs := do
    requireIndexType (← operand inputs 1)
    return [(← operand inputs 0).dtype]
  metrics {α} _ d io cx := do
    let data ← io.input? 0
    let indices ← io.input? 1
    let out ← io.output? 0
    let discontinuity : α ← d.discontinuity? data.shape
    let efficiency : α :=
      if d.resolved + 1 = data.rank then 0.9 else if d.resolved = 0 then 0.6 else 0.75
    return {
      computeTime := indices.elements * 3.0 * discontinuity / 5e8
      memoryCost :=
        cx.traffic indices + cx.traffic data * 0.1 * 2.0 + io.outTraffic cx
      parallelism := capped (out.elements * efficiency) 1024.0 }
  workload d io := do
    return Kind.tag .gatherElements ::
      words ((← io.input? 0).shape ++ (← io.input? 1).shape) ++ [word d.resolved]
  attributes d := [Kind.tag .gatherElements, word d.resolved]
  describe d := "axis=" ++ toString d.resolved ++ ","

end GatherElements

end DataflowCost
