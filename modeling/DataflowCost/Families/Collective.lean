import DataflowCost.Operator.Family

/-! Communication between the ranks of a communicator. Costs follow a bandwidth and latency model; the
width is the one configured, save for a gather, whose own width is its number of outputs. -/
namespace DataflowCost

open Scalar Inference Family

namespace Link

variable {α : Type} [Scalar α]

/-- The time to hand one element to a neighbour. -/
def hopTime : α := 1e-7

def bytesPerSecond : α := 10e9

def overheadBytes : α := 256.0

def mebibyte : α := 1048576.0

/-- Ranks further apart than neighbours are reached with added latency. -/
def time (bytes : α) (source destination : Nat) : α :=
  let apart := (source - destination) + (destination - source)
  let latency := if 1 < apart then 0.01 + ofNat apart * 0.005 else 0.01
  bytes / bytesPerSecond + latency / 1000.0 + 1e-4

/-- Large payloads use up to four channels. -/
def channels (bytes : α) : α :=
  let share := 10.0 * mebibyte
  minimum (if lt share bytes then minimum (bytes / share) 4.0 else 1.0) 8.0

end Link

inductive ReduceRule where
  | sum | prod | min | max | avg
deriving DecidableEq, Repr

namespace ReduceRule

def kind : ReduceRule → Kind
  | sum => .allReduceSum
  | prod => .allReduceProd
  | min => .allReduceMin
  | max => .allReduceMax
  | avg => .allReduceAvg

def work {α : Type} [Scalar α] : ReduceRule → α
  | sum => 1.0
  | prod => 1.2
  | min | max => 1.1
  | avg => 1.3

end ReduceRule

structure AllReduce where
  rule : ReduceRule := .sum
deriving DecidableEq, Repr

instance : Family AllReduce where
  kind d := d.rule.kind
  arity _ := .exact 1 1
  outShapes _ inputs := sameShape inputs
  metrics d io cx := do
    let size := (← io.input? 0).elements
    let exchange := size * log2 cx.width * Link.hopTime
    return {
      computeTime := (exchange + size * 1e-9) * d.rule.work
      memoryCost := io.inTraffic cx + io.outTraffic cx
      parallelism := cx.width * 0.9 }
  workload d io := outputKey d.rule.kind io
  attributes d := [d.rule.kind.tag]

/-- One output for each rank. -/
structure AllGather where
  worldSize : Nat
deriving DecidableEq, Repr

instance : Family AllGather where
  kind _ := .allGather
  arity d := .exact 1 d.worldSize
  outShapes d inputs := do
    require (1 ≤ d.worldSize) .zeroWidth
    return List.replicate d.worldSize (← operand inputs 0).shape
  metrics d io cx := do
    let size := (← io.input? 0).elements
    return {
      computeTime := size * log2 (ofNat d.worldSize) * Link.hopTime
      memoryCost := io.inTraffic cx + io.outTraffic cx
      parallelism := ofNat d.worldSize * 0.8 }
  workload d io := do return (← inputKey .allGather io) ++ [word d.worldSize]
  attributes d := [Kind.tag .allGather, word d.worldSize]
  describe d := "world_size=" ++ toString d.worldSize ++ ","

structure Broadcast where
  root : Nat := 0
deriving DecidableEq, Repr

instance : Family Broadcast where
  kind _ := .broadcast
  arity _ := .exact 1 1
  outShapes _ inputs := sameShape inputs
  metrics _ io cx := do
    let size := (← io.input? 0).elements
    return {
      computeTime := size * log2 cx.width * Link.hopTime
      memoryCost := io.inTraffic cx + io.outTraffic cx
      parallelism := maximum (cx.width - 1.0) 1.0 }
  workload _ io := inputKey .broadcast io
  attributes _ := [Kind.tag .broadcast]
  describe d := "root=" ++ toString d.root ++ ","

structure Send where
  source : Nat
  destination : Nat
deriving DecidableEq, Repr

instance : Family Send where
  kind _ := .send
  arity _ := .exact 1 1
  outShapes _ inputs := sameShape inputs
  metrics {α} _ d io cx := do
    let payload : α := ofNat (← io.input? 0).bytes
    let written : α := sum (io.outputs.map fun t => ofNat t.bytes)
    return {
      computeTime := Link.time payload d.source d.destination
      memoryCost := cx.fromBytes (2.0 * payload + Link.overheadBytes + written) io.dtype
      parallelism := Link.channels payload }
  workload d io := do return (← inputKey .send io) ++ words [d.source, d.destination]
  attributes d := Kind.tag .send :: words [d.source, d.destination]
  describe d :=
    "source=" ++ toString d.source ++ ",destination=" ++ toString d.destination ++ ","

/-- The type of what is received is an attribute; an input only orders the operator. -/
structure Recv where
  source : Nat
  destination : Nat
  received : TensorType
deriving DecidableEq, Repr

namespace Recv

def settings (d : Recv) : KeyVector := words (d.received.shape ++ [d.source, d.destination])

instance : Family Recv where
  kind _ := .recv
  arity _ := .between 0 1 1
  outShapes d _ := .ok [d.received.shape]
  outTypes d _ := .ok [d.received.dtype]
  metrics {α} _ d io cx := do
    let out ← io.output? 0
    let payload : α := ofNat out.bytes
    let staging :=
      if lt Link.mebibyte (out.elements : α) then minimum (payload * 0.1) Link.mebibyte else 0.0
    return {
      computeTime := Link.time payload d.source d.destination
      memoryCost := cx.fromBytes (payload + staging + Link.overheadBytes) out.dtype
      parallelism := Link.channels payload }
  workload d _ := some (Kind.tag .recv :: d.settings ++ [word d.received.dtype.tag])
  attributes d := Kind.tag .recv :: d.settings
  describe d :=
    "source=" ++ toString d.source ++ ",destination=" ++ toString d.destination ++ "," ++
      Text.named "shape" (d.received.shape.map toString) ++
      "dtype=" ++ d.received.dtype.name ++ ","

end Recv

end DataflowCost
