import DataflowCost.Operator.Activation
import DataflowCost.Operator.Family
import DataflowCost.Tensor.Broadcast

/-! Operators that combine tensors element by element: broadcasting binary maps, the squared-error loss,
and selection by a condition. -/
namespace DataflowCost

open Scalar Inference Family

structure Elementwise where
  kind : Kind
  act : Activation := .none
deriving DecidableEq, Repr

namespace Elementwise

/-- The work of one element relative to an addition. -/
def complexity {α : Type} [Scalar α] : Kind → α
  | .mul => 1.1
  | .div | .pow => 1.3
  | .equal | .greater | .greaterEqual | .less | .lessEqual => 0.8
  | _ => 1.0

/-- Arithmetic kinds can apply an activation to their result. -/
def fusesActivation : Kind → Bool
  | .add | .sub | .mul | .div => true
  | _ => false

def check (d : Elementwise) : Inference Elementwise :=
  if !d.kind.isElementwise then
    invalid (.wrongFamily d.kind "a binary elementwise operator")
  else if d.act.isSome && !fusesActivation d.kind then
    unsupported (.fusedActivation d.kind)
  else .ok d

instance : Family Elementwise where
  kind := kind
  arity _ := .exact 2 1
  prepare d _ := .done d.check
  outShapes _ inputs := do
    let a ← operand inputs 0
    let b ← operand inputs 1
    return [← a.shape.broadcast b.shape]
  outTypes d inputs := do
    let a ← operand inputs 0
    let b ← operand inputs 1
    require (a.dtype = b.dtype) (.operandTypesDiffer a.dtype b.dtype)
    return [if d.kind.isPredicate then .bool else a.dtype]
  metrics d io cx := do
    let a ← io.input? 0
    let b ← io.input? 1
    let out ← io.output? 0
    let size := out.elements
    let act := if d.act.isSome then 0.1 * size else 0.0
    return {
      computeTime := (size * complexity d.kind + act) / 1e9
      memoryCost := cx.traffic out * 1.1 + minimum (cx.traffic a) (cx.traffic b) * 0.1
      parallelism := capped (size * 0.95) 1024.0 }
  workload d io := do return (← outputKey d.kind io) ++ [d.act.tag]
  attributes d := [d.kind.tag, d.act.tag]
  describe d := d.act.described

end Elementwise

inductive LossReduction where
  | none | mean | sum
deriving DecidableEq, Repr

namespace LossReduction

def all : List LossReduction := [none, mean, sum]

def tag : LossReduction → Int
  | none => 0
  | mean => 1
  | sum => 2

def name : LossReduction → String
  | none => "None"
  | mean => "Mean"
  | sum => "Sum"

end LossReduction

/-- The squared error of a prediction, per element or reduced to one figure. -/
structure MseLoss where
  reduction : LossReduction := .none
deriving DecidableEq, Repr

instance : Family MseLoss where
  kind _ := .mseLoss
  arity _ := .exact 2 1
  outShapes d inputs := do
    let prediction ← operand inputs 0
    let target ← operand inputs 1
    require (prediction.shape = target.shape) (.lossShapesDiffer prediction.shape target.shape)
    return [if d.reduction = .none then prediction.shape else [1]]
  metrics d io cx := do
    let x ← io.input? 0
    let size := x.elements
    let perElement :=
      if d.reduction ≠ .none && lt 0.0 size then 2.0 + log2 size / size else 2.0
    return {
      computeTime := size * perElement / 1e9
      memoryCost := io.inTraffic cx + io.outTraffic cx + cx.traffic x
      parallelism :=
        if d.reduction = .none then capped size 1024.0 else capped (log2 size * 32.0) 512.0 }
  workload d io := do return (← inputKey .mseLoss io) ++ [d.reduction.tag]
  attributes d := [Kind.tag .mseLoss, d.reduction.tag]
  describe d := "reduction=" ++ d.reduction.name ++ ","

/-- Takes each element from the first or the second input as the third one says. -/
structure Select where
deriving DecidableEq, Repr

instance : Family Select where
  kind _ := .select
  arity _ := .exact 3 1
  outShapes _ inputs := do return [← Shape.broadcastAll (inputs.map (·.shape))]
  outTypes _ inputs := do
    let x ← operand inputs 0
    let y ← operand inputs 1
    require (x.dtype = y.dtype) (.branchTypesDiffer x.dtype y.dtype)
    return [x.dtype]
  metrics {_ _} _ io cx := do
    let x ← io.input? 0
    let y ← io.input? 1
    let condition ← io.input? 2
    let out ← io.output? 0
    let stretched (t : TensorType) : Bool := t.shape != out.shape
    let access (t : TensorType) := if stretched t then 1.2 else 1.0
    let maskRatio := match cx.memoryUnit with
      | .elements => 0.25
      | .bytes => 1.0
    let reads := 0.1 * x.elements + 0.1 * y.elements + 0.2 * condition.elements
    return {
      computeTime := (out.elements * 2.0 + reads) / 3e9
      memoryCost :=
        cx.traffic condition * access condition * maskRatio + cx.traffic x * access x +
          cx.traffic y * access y + cx.traffic out
      parallelism :=
        if [x, y, condition].any stretched then out.elements * 0.9 else out.elements }
  workload _ io := outputKey .select io
  attributes _ := [Kind.tag .select]

end DataflowCost
