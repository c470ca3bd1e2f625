import DataflowCost.Operator.Family
import DataflowCost.Tensor.Axis

/-! Operators that cut ranges out of axes or pad them. -/
namespace DataflowCost

open Scalar Inference Family

/-- The positions from `start` towards `stop`, `step` apart, `stop` itself left out. -/
structure AxisRange where
  start : Int
  stop : Int
  step : Int
deriving DecidableEq, Repr

namespace AxisRange

def full [Build] (extent : Nat) : AxisRange := ⟨0, Word.toSigned extent, 1⟩

/-- The number of positions, for which the step has to divide: the distance that is covered, in steps and
rounded up. -/
def count [Build] (r : AxisRange) : Inference Nat := do
  let span ← Word.signed (if 0 < r.step then r.stop - r.start else r.start - r.stop)
  let step ← Word.signed r.step.natAbs
  let reach ← Word.signed ((← Word.signed (span + step)) - 1)
  if step = 0 then .error .fault else return (reach.tdiv step).toNat

/-- A bound counted from the end if negative, then moved to the nearest position that a range with
this step can start or stop at. -/
def clampBound [Build] (bound : Int) (extent : Nat) (step : Int) : Inference Int := do
  let extent := Word.toSigned extent
  let bound ← if bound < 0 then Word.signed (bound + extent) else .ok bound
  if 0 < step then Word.clamp 0 extent bound
  else Word.clamp (-1) (← Word.signed (extent - 1)) bound

def clamped [Build] (start stop step : Int) (extent : Nat) : Inference AxisRange := do
  return ⟨← clampBound start extent step, ← clampBound stop extent step, step⟩

def text (r : AxisRange) : String :=
  toString r.start ++ ":" ++ toString r.stop ++ ":" ++ toString r.step ++ ","

end AxisRange

structure Slice where
  starts : List Int
  ends : List Int
  /-- `none` takes the leading axes. -/
  axes : Option (List Int) := none
  /-- `none` takes every position. -/
  steps : Option (List Int) := none
  /-- One range for each axis of the input. -/
  ranges : List AxisRange := []
deriving DecidableEq, Repr

namespace Slice

def resolveAxes (axes : Option (List Int)) (count rank : Nat) : Inference (List Nat) :=
  match axes with
  | some axes => do
    require (axes.length = count) (.rangeAxes axes.length count)
    Axis.resolveEach rank axes
  | none => do
    require (count ≤ rank) (.rangeRank count rank)
    return List.range count

def resolveSteps (steps : Option (List Int)) (count : Nat) : Inference (List Int) :=
  match steps with
  | some steps => do
    require (steps.length = count) (.rangeSteps steps.length count)
    require (steps.all (· ≠ 0)) .zeroStep
    return steps
  | none => .ok (List.replicate count 1)

/-- The range that the entries at position `i` give an axis, put in its place. -/
def placeAt [Build] (s : Shape) (starts ends steps : List Int) (ranges : List AxisRange) (axis i : Nat) :
    Inference (List AxisRange) := do
  let extent ← present s[axis]?
  let start ← present starts[i]?
  let stop ← present ends[i]?
  let step ← present steps[i]?
  overwrite ranges axis (← AxisRange.clamped start stop step extent)

/-- The list with the range of each named axis put in its place. -/
def place [Build] (s : Shape) (axes : List Nat) (starts ends steps : List Int) :
    Inference (List AxisRange) :=
  axes.zipIdx.foldlM (fun ranges (axis, i) => placeAt s starts ends steps ranges axis i)
    (s.map AxisRange.full)

def resolveRanges [Build] (d : Slice) (s : Shape) : Inference (List AxisRange) := do
  let count := d.starts.length
  require (d.ends.length = count) (.rangeEnds count d.ends.length)
  let axes ← resolveAxes d.axes count s.length
  let steps ← resolveSteps d.steps count
  place s axes d.starts d.ends steps

def outShape [Build] (d : Slice) (s : Shape) : Inference Shape := do
  (← d.resolveRanges s).mapM AxisRange.count

/-- The positions of axes that are not read densely. -/
def strided (ranges : List AxisRange) : List Nat :=
  (ranges.zipIdx.filter fun (r, _) => r.step.natAbs != 1).map (·.2)

section Cost

variable {α : Type} [Scalar α]

def discontinuity (ranges : List AxisRange) : α :=
  let axes := strided ranges
  let inner := axes.countP (ranges.length / 2 ≤ ·)
  1.0 + 0.15 * ofNat axes.length + 0.25 * ofNat inner

def accessFactor (ranges : List AxisRange) : α :=
  1.0 + sum ((strided ranges).map fun axis => if ranges.length / 2 ≤ axis then 0.4 else 0.2)

def efficiency (ranges : List AxisRange) : α :=
  product ((ranges.filter fun r => 1 < r.step.natAbs).map fun r =>
    1.0 - 0.05 * ofNat (min (r.step.natAbs - 1) 5))

end Cost

def key (ranges : List AxisRange) : KeyVector :=
  ranges.flatMap fun r => [r.start, r.stop, r.step]

instance : Family Slice where
  kind _ := .slice
  arity _ := .exact 1 1
  prepare d inputs := .done do
    return { d with ranges := ← d.resolveRanges (← operand inputs 0).shape }
  outShapes d inputs := do return [← d.outShape (← operand inputs 0).shape]
  metrics {α} _ d io cx := do
    let size : α := (← io.output? 0).elements
    let out : α := io.outTraffic cx
    return {
      computeTime := size * 2.0 * discontinuity d.ranges / 5e9
      memoryCost := out * accessFactor d.ranges + out
      parallelism := capped (size * efficiency d.ranges) 1024.0 }
  workload d io := do
    return Kind.tag .slice :: key d.ranges ++
      words ((← io.input? 0).shape ++ (← io.output? 0).shape)
  attributes d := Kind.tag .slice :: key d.ranges
  describe d := "ranges=[" ++ String.join (d.ranges.map AxisRange.text) ++ "],"

end Slice

/-- Extends axes at both ends. All begin pads come before all end pads. -/
structure Pad where
  pads : List Int
  /-- `none` pads every axis in order. -/
  axes : Option (List Int) := none
  resolved : List Nat := []
deriving DecidableEq, Repr

namespace Pad

/-- The pads at position `i` put at both ends of an axis; the end pads come after `count` others. -/
def placeAt (rank count : Nat) (pads out : List Nat) (axis i : Nat) : Inference (List Nat) := do
  let out ← overwrite out axis (← present pads[i]?)
  overwrite out (axis + rank) (← present pads[i + count]?)

def resolvePads (d : Pad) (rank : Nat) : Inference (List Nat) := do
  require (d.pads.all (0 ≤ ·)) (.negativePads d.pads)
  let pads := d.pads.map Int.toNat
  match d.axes with
  | none =>
    require (pads.length = 2 * rank) (.padsPerRank (2 * rank) rank pads.length)
    return pads
  | some axes =>
    let count := axes.length
    require (pads.length = 2 * count) (.padsPerAxis (2 * count) count pads.length)
    let named ← Axis.resolveEach rank axes
    named.zipIdx.foldlM (fun out (axis, i) => placeAt rank count pads out axis i)
      (List.replicate (2 * rank) 0)

def outShape [Build] (d : Pad) (s : Shape) : Inference Shape := do
  let pads ← d.resolvePads s.length
  s.zipIdx.mapM fun (extent, axis) => do
    let begun ← Word.add extent (← present pads[axis]?)
    Word.add begun (← present pads[axis + s.length]?)

/-- The pads of each axis, both ends together. -/
def totals? (resolved : List Nat) : Option (List Nat) :=
  let rank := resolved.length / 2
  (List.range rank).mapM fun axis => do
    return (← resolved[axis]?) + (← resolved[axis + rank]?)

def added (totals : List Nat) : Nat := totals.foldr (· + ·) 0

instance : Family Pad where
  kind _ := .pad
  arity _ := .exact 1 1
  prepare d inputs := .done do
    return { d with resolved := ← d.resolvePads (← operand inputs 0).rank }
  outShapes d inputs := do return [← d.outShape (← operand inputs 0).shape]
  metrics {α} _ d io cx := do
    let input : α := (← io.input? 0).elements
    let out : α := (← io.output? 0).elements
    let totals ← totals? d.resolved
    let half := totals.length / 2
    let access : α := if (totals.drop half).any (0 < ·) then 1.2 else 1.0
    let outer : α :=
      if 0 < added totals then ofNat (added (totals.take half)) / ofNat (added totals) else 0.5
    return {
      computeTime := (2.0 * input + (out - input) + 0.1 * out) / 1e9
      memoryCost := (io.inTraffic cx + io.outTraffic cx) * access
      parallelism := capped (out * (0.8 + outer * 0.2)) 1024.0 }
  workload d io := do return (← inputKey .pad io) ++ words d.resolved
  attributes d := Kind.tag .pad :: words d.resolved
  describe d := Text.named "pads" (d.resolved.map toString)

end Pad

end DataflowCost
