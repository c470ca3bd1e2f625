import DataflowCost.Operator.Family
import DataflowCost.Tensor.Axis
import DataflowCost.Tensor.Broadcast

/-! Softmax and the normalization layers. Each works on rows; a row of length zero counts as one element
when rows are counted. -/
namespace DataflowCost

open Scalar Inference Family

/-- The lanes that one row keeps busy, from one to sixteen. -/
def rowLanes {α : Type} [Scalar α] (length : α) : α :=
  minimum (maximum (log2 length * 4.0) 1.0) 16.0

structure Softmax where
  axis : Int := -1
  resolved : Nat := 0
deriving DecidableEq, Repr

namespace Softmax

/-- The number of axes inside the normalized one. -/
def inner (d : Softmax) (rank : Nat) : Nat := rank - (1 + d.resolved)

instance : Family Softmax where
  kind _ := .softmax
  arity _ := .exact 1 1
  prepare d inputs := .done do
    return { d with resolved := ← Axis.resolve d.axis (← operand inputs 0).rank }
  outShapes _ inputs := sameShape inputs
  metrics {α} _ d io cx := do
    let x ← io.input? 0
    let row : α := ofNat (max (← x.shape[d.resolved]?) 1)
    let rows := x.elements / row
    let strided : α := ofNat (d.inner x.rank)
    let cache : α := if lt 0.0 strided then 1.2 + 0.1 * strided else 1.0
    let access : α := if lt 0.0 strided then 1.3 + 0.1 * strided else 1.0
    return {
      computeTime := x.elements * 8.0 * cache / 1e9
      memoryCost :=
        (io.inTraffic cx + io.outTraffic cx) * access + cx.scaled (rows * 2.0) io.dtype
      parallelism := capped (rows * rowLanes row) 1024.0 }
  workload d io := do
    return [Kind.tag .softmax, word d.resolved] ++ words (← io.output? 0).shape
  attributes d := [Kind.tag .softmax, word d.resolved]
  describe d := "axis=" ++ toString d.resolved ++ ","

end Softmax

/-- Normalizes all axes from one on, with a scale and perhaps a bias. -/
structure LayerNorm where
  axis : Int := -1
  eps : Float32 := 1e-5
  stashType : Int := 1
  resolved : Nat := 0

namespace LayerNorm

def resolve (d : LayerNorm) (inputs : List TensorType) : Inference LayerNorm := do
  let x ← operand inputs 0
  let resolved ← Axis.resolve d.axis x.rank
  (inputs.drop 1).forM fun parameter =>
    require (x.shape.broadcastsInto parameter.shape) (.parameterShape parameter.shape x.shape)
  return { d with resolved }

instance : Family LayerNorm where
  kind _ := .layerNorm
  arity _ := .between 2 3 1
  prepare d inputs := .done (d.resolve inputs)
  outShapes _ inputs := sameShape inputs
  metrics {α} _ d io cx := do
    let x ← io.input? 0
    let outer : α := volume (← x.shape.before? d.resolved)
    let normalized : α := volume (← x.shape.from? d.resolved)
    let elements := outer * normalized
    let bias : α := if 2 < io.inputs.length then 1.0 else 0.0
    let mean := elements + outer
    let variance := 3.0 * elements + outer
    let normalize := 3.0 * elements
    let scaleShift := (1.0 + bias) * elements
    return {
      computeTime := (mean + variance + normalize + scaleShift) / 1.5e9
      memoryCost := io.inTraffic cx + io.outTraffic cx + cx.scaled (2.0 * outer) io.dtype
      parallelism := capped (outer * rowLanes normalized) 1024.0 }
  workload _ io := inputKey .layerNorm io
  attributes d := [Kind.tag .layerNorm, word d.resolved, d.stashType]
  describe d :=
    "axis=" ++ toString d.resolved ++ ",eps=" ++ NumberFormat.plain.float32 d.eps ++
      ",stash_type=" ++ toString d.stashType ++ ","

end LayerNorm

/-- Divides rows of the last axis by their root mean square. -/
structure RmsNorm where
deriving DecidableEq, Repr

namespace RmsNorm

def rowLength (s : Shape) : Nat := max (s.getLast?.getD 1) 1

instance : Family RmsNorm where
  kind _ := .rmsNorm
  arity _ := .exact 2 1
  outShapes _ inputs := do
    let x ← operand inputs 0
    require (1 ≤ x.rank) (.rankZero "input")
    let weight ← operand inputs 1
    require (x.shape.broadcastsInto weight.shape) (.weightShape weight.shape x.shape)
    return [x.shape]
  metrics {α} _ _ io cx := do
    let x ← io.input? 0
    let size : α := x.elements
    let row : α := Scalar.ofNat (rowLength x.shape)
    let rows := size / row
    return {
      computeTime := (4.0 * size + 2.0 * rows) / 1.5e9
      memoryCost :=
        io.inTraffic cx + io.outTraffic cx + cx.scaled (size + rows) io.dtype
      parallelism := capped (rows * rowLanes row) 1024.0 }
  workload _ io := outputKey .rmsNorm io
  attributes _ := [Kind.tag .rmsNorm]

end RmsNorm

/-- Normalizes each channel by given statistics. -/
structure BatchNorm where
  momentum : Float32 := 0.9
  eps : Float32 := 1e-5
  training : Bool := false

namespace BatchNorm

def outShape (x : TensorType) (parameters : List TensorType) : Inference Shape := do
  require (2 ≤ x.rank) (.rankBelowTwo x.shape)
  let channels ← present x.shape[1]?
  (["mean", "var", "scale", "bias"].zip parameters).forM fun (name, parameter) =>
    require (parameter.shape = [channels]) (.channelParameter name channels parameter.shape)
  return x.shape

instance : Family BatchNorm where
  kind _ := .batchNorm
  arity _ := .exact 5 1
  prepare d _ := .done (if d.training then unsupported .trainingBatchNorm else .ok d)
  outShapes _ inputs := do return [← outShape (← operand inputs 0) (inputs.drop 1)]
  outTypes _ inputs := do
    let x ← operand inputs 0
    (inputs.drop 1).forM fun parameter =>
      require (parameter.dtype = .float32) (.parameterType parameter.dtype)
    return [x.dtype]
  metrics {α} _ _ io cx := do
    let x ← io.input? 0
    let batch ← x.shape[0]?
    let channels ← x.shape[1]?
    let lanes : α :=
      if 1 < batch then ofNat channels * ofNat (min batch 8) else ofNat channels
    return {
      computeTime := x.elements * 5.0 / 1e9
      memoryCost := io.inTraffic cx + io.outTraffic cx
      parallelism := capped lanes 1024.0 }
  workload _ io := inputKey .batchNorm io
  attributes _ := [Kind.tag .batchNorm]
  describe d :=
    "momentum=" ++ NumberFormat.plain.float32 d.momentum ++ ",eps=" ++
      NumberFormat.plain.float32 d.eps ++ ",training=" ++ toString d.training ++ ","

end BatchNorm

/-- Normalizes each channel of each item by its own statistics. -/
structure InstanceNorm where
  eps : Float32 := 1e-5

namespace InstanceNorm

instance : Family InstanceNorm where
  kind _ := .instanceNorm
  arity _ := .exact 3 1
  outShapes _ inputs := do
    let x ← operand inputs 0
    require (2 ≤ x.rank) (.rankBelowTwo x.shape)
    return [x.shape]
  metrics {α} _ _ io cx := do
    let x ← io.input? 0
    let instances : α := ofNat ((← x.shape[0]?) * (← x.shape[1]?))
    return {
      computeTime := (9.0 * x.elements + 2.0 * instances) / 1e9
      memoryCost := io.inTraffic cx + io.outTraffic cx + cx.scaled (2.0 * instances) io.dtype
      parallelism := capped instances 1024.0 }
  workload _ io := inputKey .instanceNorm io
  attributes _ := [Kind.tag .instanceNorm]
  describe d := "eps=" ++ NumberFormat.plain.float32 d.eps ++ ","

end InstanceNorm

/-- Normalizes by the neighbouring channels in a window. -/
structure LocalResponseNorm where
  alpha : Float32 := 1e-4
  beta : Float32 := 0.75
  bias : Float32 := 1.0
  size : Nat

namespace LocalResponseNorm

def check (d : LocalResponseNorm) (x : TensorType) : Inference LocalResponseNorm := do
  require (0 < d.size) .emptyWindow
  require (2 ≤ x.rank) (.rankBelowTwo x.shape)
  return d

instance : Family LocalResponseNorm where
  kind _ := .lrn
  arity _ := .exact 1 1
  prepare d inputs := .done do d.check (← operand inputs 0)
  outShapes _ inputs := sameShape inputs
  metrics {α} _ d io cx := do
    let x ← io.input? 0
    let batch ← x.shape[0]?
    let channels ← x.shape[1]?
    let spatial : α := volume (← x.shape.from? 2)
    let window : α := minimum (ofNat d.size) (ofNat channels)
    let reads : α := 1.0 + log2 (ofNat d.size) * 0.1
    let positions := ofNat batch * spatial
    let lanes :=
      if d.size < channels then
        positions * minimum (ceil (ofNat channels / ofNat d.size)) 4.0
      else positions
    return {
      computeTime := x.elements * (window + 5.0) / 1e9
      memoryCost := io.inTraffic cx * reads + io.outTraffic cx + io.inTraffic cx
      parallelism := capped lanes 1024.0 }
  workload _ io := outputKey .lrn io
  attributes _ := [Kind.tag .lrn]
  describe d :=
    "alpha=" ++ NumberFormat.plain.float32 d.alpha ++ ",beta=" ++
      NumberFormat.plain.float32 d.beta ++ ",bias=" ++ NumberFormat.plain.float32 d.bias ++
      ",size=" ++ toString d.size ++ ","

end LocalResponseNorm

end DataflowCost
