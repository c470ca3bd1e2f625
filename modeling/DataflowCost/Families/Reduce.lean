import DataflowCost.Operator.Family
import DataflowCost.Tensor.Axis

/-! Reductions over a set of axes. A reduced axis is kept with extent one or dropped; a result without any
axis has the shape of a single figure. -/
namespace DataflowCost

open Scalar Inference Family

structure Reduce where
  kind : Kind
  /-- `none` reduces every axis. -/
  axes : Option (List Int) := none
  keepDims : Bool := false
  /-- The reduced axes in ascending order. -/
  resolved : List Nat := []
deriving DecidableEq, Repr

namespace Reduce

def isReduction : Kind → Bool
  | .reduceSum | .reduceMean | .reduceMax | .reduceMin | .reduceProd => true
  | _ => false

def resolve (d : Reduce) (rank : Nat) : Inference Reduce := do
  require (isReduction d.kind) (.wrongFamily d.kind "a reduction")
  let resolved ← match d.axes with
    | some axes => Axis.resolveSet rank axes
    | none => .ok (List.range rank)
  return { d with resolved }

/-- The extents at axes that satisfy a predicate. -/
def extentsAt (p : Nat → Bool) (s : Shape) : List Nat :=
  (s.zipIdx.filter fun (_, axis) => p axis).map (·.1)

/-- The resolved axes are in order and searched by halving. -/
def reduces (d : Reduce) (axis : Nat) : Bool := d.resolved.toArray.binSearchContains axis (· < ·)

def kept (d : Reduce) (s : Shape) : List Nat := extentsAt (!d.reduces ·) s

def reduced (d : Reduce) (s : Shape) : List Nat := extentsAt d.reduces s

def outShape (d : Reduce) (s : Shape) : Shape :=
  if d.keepDims then
    s.zipIdx.map fun (extent, axis) => if d.reduces axis then 1 else extent
  else match d.kept s with
    | [] => [1]
    | extents => extents

/-- Whether an axis in the outer half is reduced. -/
def reducesOuter (d : Reduce) (rank : Nat) : Bool := d.resolved.any (· < rank / 2)

/-- Whether the reduced axes leave a gap. -/
def isScattered (d : Reduce) : Bool :=
  (d.resolved.zip (d.resolved.drop 1)).any fun (axis, next) => next != axis + 1

section Cost

variable {α : Type} [Scalar α]

def computeTime (d : Reduce) (s : Shape) : α :=
  let reduced : α := volume (d.reduced s)
  let out := maximum (volume (d.kept s)) 1.0
  let perReduction :=
    if d.kind = .reduceMean && lt 0.0 reduced then 1.0 + 1.0 / reduced else 1.0
  let access := if d.reducesOuter s.length then 1.5 else 1.0
  out * reduced * perReduction * access / 1.5e9

def memoryCost (d : Reduce) (rank : Nat) (input output : α) : α :=
  let axes : α := ofNat d.resolved.length
  let access := if d.reducesOuter rank then 1.0 + 0.2 * axes else 1.0 + 0.05 * axes
  let scratch := if d.isScattered then input * 0.1 else 0.0
  input * access + output + scratch

def parallelism (d : Reduce) (s : Shape) : α :=
  let reduced : α := volume (d.reduced s)
  let inner := if lt 1.0 reduced then minimum (log2 reduced) 8.0 else 1.0
  capped (volume (d.kept s) * inner) 1024.0

end Cost

def settings (d : Reduce) : KeyVector := word d.keepDims.toNat :: words d.resolved

instance : Family Reduce where
  kind := kind
  arity _ := .exact 1 1
  prepare d inputs := .done do d.resolve (← operand inputs 0).rank
  outShapes d inputs := do return [d.outShape (← operand inputs 0).shape]
  metrics d io cx := do
    let x ← io.input? 0
    return {
      computeTime := d.computeTime x.shape
      memoryCost := d.memoryCost x.rank (io.inTraffic cx) (io.outTraffic cx)
      parallelism := d.parallelism x.shape }
  workload d io := do return (← inputKey d.kind io) ++ d.settings
  attributes d := d.kind.tag :: d.settings
  describe d :=
    Text.named "axes" (d.resolved.map toString) ++ "keepDims=" ++ toString d.keepDims ++ ","

end Reduce

end DataflowCost
