import DataflowCost.Operator.Family
import DataflowCost.Tensor.Axis
import DataflowCost.Tensor.Broadcast

/-! Operators that regroup axes without moving elements past each other, and expansion by broadcasting. A
regrouping that keeps the memory layout is free; any other is charged as one streaming copy. -/
namespace DataflowCost

open Scalar Inference Family

/-- The estimates of a regrouping that copies at a given rate, or not at all. -/
def Metrics.relayout {α : Type} [Scalar α] (copies : Bool) (rate : α) (io : Io)
    (cx : CostContext) : Option (Metrics α) :=
  if copies then do
    let x ← io.input? 0
    return {
      computeTime := x.elements / rate
      memoryCost := io.inTraffic cx + io.outTraffic cx
      parallelism := capped (x.elements / 128.0) 512.0 }
  else some ⟨negligibleTime, 0.0, 1.0⟩

/-- A target extent is a positive number, zero for the input's extent at that position, or minus one,
at most once, for whatever the element count leaves. -/
structure Reshape where
  target : List Int
  resolved : Shape := []
deriving DecidableEq, Repr

namespace Reshape

/-- The pattern with its zeros replaced and a one in place of the extent left open, and the position
of that one. -/
def pattern (input : Shape) (target : List Int) : Inference (Shape × Option Nat) :=
  go target 0 none
where
  go : List Int → Nat → Option Nat → Inference (Shape × Option Nat)
    | [], _, open? => .ok ([], open?)
    | extent :: rest, position, open? => do
      if extent = -1 then
        require open?.isNone .twoInferredExtents
        let (out, found) ← go rest (position + 1) (some position)
        return (1 :: out, found)
      else if extent = 0 then
        match input[position]? with
        | some source =>
          let (out, found) ← go rest (position + 1) open?
          return (source :: out, found)
        | none => invalid (.zeroWithoutSource position)
      else if 0 < extent then
        let (out, found) ← go rest (position + 1) open?
        return (extent.toNat :: out, found)
      else invalid (.targetExtent extent)

/-- The extents that a target asks for, once their product is that of the input's. -/
def resolveTarget [Build] (target : List Int) (input : Shape) : Inference Shape := do
  let (known, open?) ← pattern input target
  let size ← Word.product input
  let out ← match open? with
    | some position => do
      let product ← Word.product known
      require (0 < product ∧ size % product = 0) (.cannotInfer size target)
      overwrite known position (← quotient size product)
    | none => .ok known
  let found ← Word.product out
  require (found = size) (.targetSize target found size)
  return out

/-- Only the last axis may differ between input and output of a free reshape. -/
def copies (input output : Shape) : Bool :=
  input.length != output.length || input.dropLast != output.dropLast

instance : Family Reshape where
  kind _ := .reshape
  arity _ := .exact 1 1
  prepare d inputs := .done do
    return { d with resolved := ← resolveTarget d.target (← operand inputs 0).shape }
  outShapes d inputs := do return [← resolveTarget d.target (← operand inputs 0).shape]
  metrics _ io cx := do
    Metrics.relayout (copies (← io.input? 0).shape (← io.output? 0).shape) 8e9 io cx
  workload _ io := do return (← inputKey .reshape io) ++ words (← io.output? 0).shape
  attributes d := Kind.tag .reshape :: words d.resolved
  describe d := Text.named "dims" (d.resolved.map toString)

end Reshape

/-- Two axes remain: the product before one axis and the product from it on. -/
structure Flatten where
  axis : Int := 1
  resolved : Nat := 1
deriving DecidableEq, Repr

namespace Flatten

/-- The axis may stand behind the last one. -/
def resolveAxis (axis : Int) (rank : Nat) : Inference Nat :=
  let position := Axis.wrap axis rank
  if 0 ≤ position ∧ position ≤ rank then .ok position.toNat
  else invalid (.axisOutOfRange axis rank)

def outShape [Build] (d : Flatten) (s : Shape) : Inference Shape := do
  let axis ← resolveAxis d.axis s.length
  let outer ← present (s.before? axis)
  let inner ← present (s.from? axis)
  return [← Word.product outer, ← Word.product inner]

instance : Family Flatten where
  kind _ := .flatten
  arity _ := .exact 1 1
  prepare d inputs := .done do
    return { d with resolved := ← resolveAxis d.axis (← operand inputs 0).rank }
  outShapes d inputs := do return [← d.outShape (← operand inputs 0).shape]
  metrics d io cx := Metrics.relayout (1 < d.resolved) 8e9 io cx
  workload d io := do
    return [Kind.tag .flatten, word d.resolved] ++ words (← io.input? 0).shape
  attributes d := [Kind.tag .flatten, word d.resolved]
  describe d := "axis=" ++ toString d.resolved ++ ","

end Flatten

structure Identity where
deriving DecidableEq, Repr

instance : Family Identity where
  kind _ := .identity
  arity _ := .exact 1 1
  outShapes _ inputs := sameShape inputs
  metrics _ io cx := do
    let x ← io.input? 0
    return {
      computeTime := x.elements / 10e9
      memoryCost := io.inTraffic cx + io.outTraffic cx
      parallelism := capped (x.elements / 64.0) 1024.0 }
  workload _ io := inputKey .identity io
  attributes _ := [Kind.tag .identity]

/-- Whether unit axes are added or removed strictly between the first and the last axis. -/
def touchesInner (axes : List Nat) (rank : Nat) : Bool :=
  axes.any fun axis => 0 < axis && axis + 1 < rank

/-- Removes the listed unit axes, or all of them when none is listed. -/
structure Squeeze where
  axes : List Int := []
  resolved : List Nat := []
  rank : Nat := 0
deriving DecidableEq, Repr

namespace Squeeze

def resolveAxes (axes : List Int) (s : Shape) : Inference (List Nat) :=
  if axes.isEmpty then
    .ok ((s.zipIdx.filter fun (extent, _) => extent = 1).map (·.2))
  else do
    let resolved ← Axis.resolveSet s.length axes
    resolved.forM fun axis => do
      let extent ← present s[axis]?
      require (extent = 1) (.squeezeExtent axis extent)
    return resolved

/-- The extents at positions that are not listed. -/
def without (axes : List Nat) (s : Shape) : Shape :=
  (s.zipIdx.filter fun (_, axis) => !axes.contains axis).map (·.1)

instance : Family Squeeze where
  kind _ := .squeeze
  arity _ := .exact 1 1
  prepare d inputs := .done do
    let x ← operand inputs 0
    return { d with resolved := ← resolveAxes d.axes x.shape, rank := x.rank }
  outShapes d inputs := do
    let s := (← operand inputs 0).shape
    return [without (← resolveAxes d.axes s) s]
  metrics d io cx := Metrics.relayout (touchesInner d.resolved d.rank) 10e9 io cx
  workload d io := do return (← inputKey .squeeze io) ++ words d.resolved
  attributes d := Kind.tag .squeeze :: words d.resolved
  describe d := Text.named "axes" (d.resolved.map toString)

end Squeeze

/-- Inserts unit axes at the listed positions of the output. -/
structure Unsqueeze where
  axes : List Int
  resolved : List Nat := []
  outRank : Nat := 0
deriving DecidableEq, Repr

namespace Unsqueeze

/-- Lays the extents of a shape out over consecutive positions, with a one at each listed position
and wherever the extents have run out. -/
def interleave (axes : List Nat) : List Nat → Shape → Shape
  | [], _ => []
  | position :: rest, s =>
    if axes.contains position then 1 :: interleave axes rest s
    else match s with
      | [] => 1 :: interleave axes rest []
      | extent :: s => extent :: interleave axes rest s

def outShape (d : Unsqueeze) (s : Shape) : Inference Shape := do
  let rank := s.length + d.axes.length
  return interleave (← Axis.resolveSet rank d.axes) (List.range rank) s

instance : Family Unsqueeze where
  kind _ := .unsqueeze
  arity _ := .exact 1 1
  prepare d inputs := .done do
    let outRank := (← operand inputs 0).rank + d.axes.length
    return { d with resolved := ← Axis.resolveSet outRank d.axes, outRank }
  outShapes d inputs := do return [← d.outShape (← operand inputs 0).shape]
  metrics d io cx := Metrics.relayout (touchesInner d.resolved d.outRank) 10e9 io cx
  workload d io := do return (← inputKey .unsqueeze io) ++ words d.resolved
  attributes d := Kind.tag .unsqueeze :: words d.resolved
  describe d := Text.named "axes" (d.resolved.map toString)

end Unsqueeze

/-- Broadcasts the input with a given shape. -/
structure Expand where
  shape : Shape
deriving DecidableEq, Repr

instance : Family Expand where
  kind _ := .expand
  arity _ := .exact 1 1
  outShapes d inputs := do return [← (← operand inputs 0).shape.broadcast d.shape]
  metrics _ io cx := do
    let x ← io.input? 0
    let out ← io.output? 0
    return {
      computeTime := (out.elements * 1.2 + x.elements * 0.2) / 1e9
      memoryCost := io.inTraffic cx + io.outTraffic cx
      parallelism := capped (out.elements * 0.95) 1024.0 }
  workload d io := do return (← inputKey .expand io) ++ words d.shape
  attributes d := Kind.tag .expand :: words d.shape
  describe d := Text.named "shape" (d.shape.map toString)

end DataflowCost
