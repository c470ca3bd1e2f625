import DataflowCost.Operator.Family
import DataflowCost.Tensor.Axis

/-! Operators that join, cut or repeat tensors along one axis. -/
namespace DataflowCost

open Scalar Inference Family

/-- The extents of all axes but one. -/
def Shape.others (axis : Nat) (s : Shape) : List Nat :=
  (s.zipIdx.filter fun (_, position) => position != axis).map (·.1)

structure Concat where
  axis : Int
  resolved : Nat := 0
deriving DecidableEq, Repr

namespace Concat

/-- Refuses the outermost axis other than `axis` on which a shape differs from the first one. -/
def matchExtents (axis : Nat) (found first : Shape) : Inference Unit :=
  ((found.zip first).zipIdx).forM fun ((extent, wanted), position) =>
    require (position = axis ∨ extent = wanted) (.concatExtent position found first)

/-- The extent on the axis, with the extents of the remaining shapes added one by one. -/
def joined [Build] (axis : Nat) (first : Shape) : Nat → List Shape → Inference Nat
  | extent, [] => .ok extent
  | extent, s :: rest => do
    require (s.length = first.length) (.concatRank s first)
    matchExtents axis s first
    joined axis first (← Word.add extent (← present s[axis]?)) rest

/-- Of two inputs an empty one is passed over; otherwise the extents on the axis add up. -/
def outShape [Build] (d : Concat) (shapes : List Shape) : Inference Shape :=
  match shapes with
  | [a, b] => do
    if (← Word.product a) = 0 then return b
    else if (← Word.product b) = 0 then return a
    else general shapes
  | _ => general shapes
where
  general (shapes : List Shape) : Inference Shape := do
    let first ← present shapes.head?
    let axis ← Axis.resolve d.axis first.length
    let extent ← joined axis first (← present first[axis]?) (shapes.drop 1)
    return first.set axis extent

instance : Family Concat where
  kind _ := .concat
  arity _ := .atLeast 1 1
  prepare d inputs := .done do
    return { d with resolved := ← Axis.resolve d.axis (← operand inputs 0).rank }
  outShapes d inputs := do return [← d.outShape (inputs.map (·.shape))]
  metrics d io cx := do
    let out := (← io.output? 0).shape
    return {
      computeTime := sum (io.inputs.map TensorType.elements) / 1e9
      memoryCost := io.inTraffic cx + io.outTraffic cx
      parallelism := capped (volume (out.others d.resolved)) 1024.0 }
  workload d io := do
    return [Kind.tag .concat, word d.resolved, word io.inputs.length] ++
      words (← io.output? 0).shape
  attributes d := [Kind.tag .concat, word d.resolved]
  describe d := "dim=" ++ toString d.resolved ++ ","

end Concat

/-- How an axis is cut: into a number of equal pieces, the last of which takes the remainder, or in
the proportion of a list. -/
inductive Pieces where
  | equal (count : Nat)
  | ratio (parts : List Nat)
deriving DecidableEq, Repr

def Pieces.count : Pieces → Nat
  | equal count => count
  | ratio parts => parts.length

structure Split where
  axis : Int
  pieces : Pieces
  resolved : Nat := 0
deriving DecidableEq, Repr

namespace Split

def extents [Build] (pieces : Pieces) (extent : Nat) : Inference (List Nat) :=
  match pieces with
  | .equal count => do
    require (0 < count) .zeroPieces
    let piece ← quotient extent count
    return List.replicate (count - 1) piece ++ [piece + (extent - piece * count)]
  | .ratio parts => do
    let sum ← Word.sum parts
    require (0 < sum ∧ extent % sum = 0) (.ratioSum extent sum)
    let unit ← quotient extent sum
    parts.mapM fun part => Word.mul part unit

def outShapes [Build] (d : Split) (s : Shape) : Inference (List Shape) := do
  let axis ← Axis.resolve d.axis s.length
  let pieces ← extents d.pieces (← present s[axis]?)
  return pieces.map fun extent => s.set axis extent

section Cost

variable {α : Type} [Scalar α]

def computeTime (d : Split) (x : TensorType) : α :=
  let rank : α := ofNat (max x.rank 1)
  let copy := if d.resolved = 0 then 0.05 else 0.2 + ofNat d.resolved / rank * 0.8
  let pieces := 1.0 + log2 (ofNat d.pieces.count) * 0.05
  x.elements * copy * pieces / 10e9

def accessFactor (d : Split) (rank : Nat) : α :=
  let half := rank / 2
  let access := if 0 < half && half < d.resolved then
    1.0 + ofNat (d.resolved - half) / ofNat half * 0.5 else 1.0
  if d.resolved = 0 then access * 0.2 else access

end Cost

instance : Family Split where
  kind _ := .split
  arity d := .exact 1 d.pieces.count
  prepare d inputs := .done do
    return { d with resolved := ← Axis.resolve d.axis (← operand inputs 0).rank }
  outShapes d inputs := do d.outShapes (← operand inputs 0).shape
  metrics {α} _ d io cx := do
    let x ← io.input? 0
    let out : α := (← io.output? 0).elements
    return {
      computeTime := d.computeTime x
      memoryCost := (io.inTraffic cx + io.outTraffic cx) * d.accessFactor x.rank
      parallelism :=
        capped (minimum (ofNat d.pieces.count) 32.0 * minimum (sqrt out) 64.0) 1024.0 }
  workload d io := do
    return (← inputKey .split io) ++ words [d.resolved, d.pieces.count]
  attributes d := Kind.tag .split :: words [d.resolved, d.pieces.count]
  describe d :=
    "dim=" ++ toString d.resolved ++ ",num=" ++ toString d.pieces.count ++ "," ++
      match d.pieces with
      | .equal _ => ""
      | .ratio parts => Text.named "ratio" (parts.map toString)

end Split

/-- Appends `num` copies of the tensor to itself along an axis. -/
structure Extend where
  axis : Int
  num : Nat
  resolved : Nat := 0
deriving DecidableEq, Repr

namespace Extend

def outShape [Build] (d : Extend) (s : Shape) : Inference Shape := do
  let axis ← Axis.resolve d.axis s.length
  let copies ← Word.add d.num 1
  return s.set axis (← Word.mul (← present s[axis]?) copies)

instance : Family Extend where
  kind _ := .extend
  arity _ := .exact 1 1
  prepare d inputs := .done do
    return { d with resolved := ← Axis.resolve d.axis (← operand inputs 0).rank }
  outShapes d inputs := do return [← d.outShape (← operand inputs 0).shape]
  metrics {α} _ d io cx := do
    let x ← io.input? 0
    let out ← io.output? 0
    let extent ← x.shape[d.resolved]?
    let extended : α := ofNat (min (extent * (d.num + 1)) 16)
    return {
      computeTime := out.elements * (1.0 + log2 (ofNat (d.num + 1)) * 0.1) / 1e9
      memoryCost := io.inTraffic cx + io.outTraffic cx
      parallelism := capped (volume (x.shape.others d.resolved) * extended) 1024.0 }
  workload d io := do return (← inputKey .extend io) ++ words [d.resolved, d.num]
  attributes d := Kind.tag .extend :: words [d.resolved, d.num]
  describe d := "dim=" ++ toString d.resolved ++ ",num=" ++ toString d.num ++ ","

end Extend

end DataflowCost
