import DataflowCost.Operator.Family

/-! Operators that move elements between axes: permutation of all axes, and the exchange of channel blocks
for spatial extent. -/
namespace DataflowCost

open Scalar Inference Family

/-- The distance between two positions. -/
def distance (a b : Nat) : Nat := (a - b) + (b - a)

/-- Axis `i` of the output is axis `permutation[i]` of the input; an empty list keeps all axes. -/
structure Transpose where
  permutation : List Nat := []
  resolved : List Nat := []
deriving DecidableEq, Repr

namespace Transpose

def resolveAxes (permutation : List Nat) (rank : Nat) : Inference (List Nat) :=
  if permutation.isEmpty then .ok (List.range rank)
  else do
    require (permutation.length = rank) (.permutationRank permutation rank)
    require (permutation.Nodup ∧ ∀ axis ∈ permutation, axis < rank)
      (.notPermutation permutation rank)
    return permutation

def outShape (d : Transpose) (s : Shape) : Inference Shape := do
  (← resolveAxes d.permutation s.length).mapM fun axis => present s[axis]?

def isIdentity (axes : List Nat) : Bool := axes == List.range axes.length

/-- The distances over one by which axes move. -/
def farMoves (axes : List Nat) : List Nat :=
  (axes.zipIdx.map fun (axis, position) => distance position axis).filter (1 < ·)

/-- How many of the two innermost axes move. -/
def innerMoves (axes : List Nat) : Nat :=
  (axes.zipIdx.drop (axes.length - 2)).countP fun (axis, position) => axis != position

/-- How many neighbours of the output are neighbours of the input. -/
def adjacent (axes : List Nat) : Nat :=
  (axes.zip (axes.drop 1)).countP fun (axis, next) => distance axis next = 1

section Cost

variable {α : Type} [Scalar α]

def computeTime (axes : List Nat) (size : α) : α :=
  if isIdentity axes then negligibleTime
  else
    let far := farMoves axes
    let inner := innerMoves axes
    let complexity :=
      1.0 + sum (far.map fun move => 0.2 * ofNat move) + 0.5 * ofNat inner
    let speed : α := if far.isEmpty then 2e9 else 2e9 / 2.0
    let speed := if 0 < inner then speed / 1.5 else speed
    size * complexity / speed

def memoryCost (axes : List Nat) (traffic : α) : α :=
  if isIdentity axes then 0.0
  else traffic * (1.0 + 0.5 * ofNat (innerMoves axes) +
    sum ((farMoves axes).map fun move => 0.1 * ofNat move))

def parallelism (axes : List Nat) (size : α) : α :=
  if isIdentity axes then 1.0
  else
    let efficiency :=
      0.7 - 0.05 * ofNat (axes.length - 3) + 0.05 * ofNat (adjacent axes)
    capped (sqrt size * efficiency) 512.0

end Cost

instance : Family Transpose where
  kind _ := .transpose
  arity _ := .exact 1 1
  prepare d inputs := .done do
    return { d with resolved := ← resolveAxes d.permutation (← operand inputs 0).rank }
  outShapes d inputs := do return [← d.outShape (← operand inputs 0).shape]
  metrics d io cx := do
    let size := (← io.input? 0).elements
    return {
      computeTime := computeTime d.resolved size
      memoryCost := memoryCost d.resolved (io.inTraffic cx + io.outTraffic cx)
      parallelism := parallelism d.resolved size }
  workload d io := do
    return Kind.tag .transpose :: words (d.resolved ++ (← io.output? 0).shape)
  attributes d := Kind.tag .transpose :: words d.resolved
  describe d := Text.named "perm" (d.resolved.map toString)

end Transpose

/-- Whether the block index is outside or inside the channel index. -/
inductive BlockOrder where
  | depthFirst | columnFirst
deriving DecidableEq, Repr

namespace BlockOrder

def tag : BlockOrder → Int
  | depthFirst => 0
  | columnFirst => 1

def name : BlockOrder → String
  | depthFirst => "Dcr"
  | columnFirst => "Crd"

end BlockOrder

/-- Spreads `block · block` channels over squares of the spatial axes. -/
structure DepthToSpace where
  block : Nat
  mode : BlockOrder := .depthFirst
deriving DecidableEq, Repr

namespace DepthToSpace

def outShape [Build] (d : DepthToSpace) (s : Shape) : Inference Shape :=
  match s with
  | [batch, channels, rows, columns] => do
    require (0 < d.block) .zeroBlock
    let area ← Word.mul d.block d.block
    require ((← remainder channels area) = 0) (.blockChannels channels area)
    let depth ← quotient channels area
    return [batch, depth, ← Word.mul rows d.block, ← Word.mul columns d.block]
  | _ => invalid (.notRankFour s)

def blockFactor {α : Type} [Scalar α] (d : DepthToSpace) (weight : α) : α :=
  1.0 + log2 (ofNat d.block) * weight

instance : Family DepthToSpace where
  kind _ := .depthToSpace
  arity _ := .exact 1 1
  outShapes d inputs := do return [← d.outShape (← operand inputs 0).shape]
  metrics {α} _ d io cx := do
    let size : α := (← io.input? 0).elements
    let plain := size * d.blockFactor 0.1
    let shuffle := if d.mode = .depthFirst then plain * 1.2 else plain
    let access : α :=
      if d.mode = .depthFirst then d.blockFactor 0.1 * 1.1 else d.blockFactor 0.1
    let mode : α := if d.mode = .depthFirst then 1.0 else 1.1
    return {
      computeTime := (size * 0.02 + shuffle) / 2e9
      memoryCost := (2.0 * io.inTraffic cx + io.outTraffic cx) * access
      parallelism := capped (sqrt size / d.blockFactor 0.05 * mode) 512.0 }
  workload d io := do
    return [Kind.tag .depthToSpace, word d.block, d.mode.tag] ++
      words (← io.output? 0).shape
  attributes d := [Kind.tag .depthToSpace, word d.block, d.mode.tag]
  describe d := "block=" ++ toString d.block ++ ",mode=" ++ d.mode.name ++ ","

end DepthToSpace

end DataflowCost
