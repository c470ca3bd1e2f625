import DataflowCost.Operator.Family
import DataflowCost.Tensor.Broadcast

/-! Operators that map one tensor element by element, and their close relatives. Bounds, slopes and fill
values do not change the cost of a map, so key vectors leave them out. -/
namespace DataflowCost

open Scalar Inference Family

structure Unary where
  kind : Kind
deriving DecidableEq, Repr

namespace Unary

variable {α : Type} [Scalar α]

/-- The work of one element relative to a rectifier. -/
def work : Kind → α
  | .neg | .abs | .sign | .not => 0.5
  | .exp | .sqrt | .tanh | .sin | .cos | .tan | .asin | .acos | .atan | .sinh | .cosh
  | .asinh | .acosh | .atanh => 3.0
  | _ => 1.0

def trafficFactor : Kind → α
  | .exp | .tanh | .erf => 1.1
  | _ => 1.0

def efficiency : Kind → α
  | .exp | .sin | .cos => 0.8
  | _ => 1.0

end Unary

instance : Family Unary where
  kind := Unary.kind
  arity _ := .exact 1 1
  prepare d _ := .done do
    require d.kind.isUnary (.wrongFamily d.kind "a unary operator")
    return d
  outShapes _ inputs := sameShape inputs
  metrics d io cx := do
    let size := (← io.input? 0).elements
    return {
      computeTime := size * Unary.work d.kind / 2e9
      memoryCost := (io.inTraffic cx + io.outTraffic cx) * Unary.trafficFactor d.kind
      parallelism := capped (size * Unary.efficiency d.kind) 1024.0 }
  workload d io := outputKey d.kind io
  attributes d := [d.kind.tag]

/-- Limits elements to an interval that may be open at either end. -/
structure Clip where
  least : Option Float32 := none
  greatest : Option Float32 := none

namespace Clip

def check (d : Clip) : Inference Unit :=
  match d.least, d.greatest with
  | some least, some greatest => require (least ≤ greatest) (.clipInverted least greatest)
  | _, _ => .ok ()

def bound (name : String) : Option Float32 → String
  | some value => name ++ "=" ++ NumberFormat.plain.float32 value ++ ","
  | none => ""

end Clip

instance : Family Clip where
  kind _ := .clip
  arity _ := .exact 1 1
  outShapes d inputs := do
    d.check
    sameShape inputs
  metrics _ io cx := do
    let size := (← io.input? 0).elements
    return {
      computeTime := size * 1.2 / 5e9
      memoryCost := io.inTraffic cx + io.outTraffic cx
      parallelism := capped (size * 0.8) 1024.0 }
  workload _ io := outputKey .clip io
  attributes _ := [Kind.tag .clip]
  describe d := Clip.bound "min" d.least ++ Clip.bound "max" d.greatest

structure Hardtanh where
  least : Float32 := -1.0
  greatest : Float32 := 1.0

/-- The estimates of a map that overwrites its input in place, at a given time. -/
def inPlace {α : Type} [Scalar α] (time : α → α) (io : Io) (cx : CostContext) :
    Option (Metrics α) := do
  let x ← io.input? 0
  let out ← io.output? 0
  return {
    computeTime := time x.elements
    memoryCost := cx.traffic x * 2.0
    parallelism := capped out.elements 1024.0 }

instance : Family Hardtanh where
  kind _ := .hardtanh
  arity _ := .exact 1 1
  outShapes d inputs := do
    require (d.least ≤ d.greatest) (.hardtanhInverted d.least d.greatest)
    sameShape inputs
  metrics _ io cx := inPlace (fun size => size * 0.7 / 2e9) io cx
  workload _ io := outputKey .hardtanh io
  attributes _ := [Kind.tag .hardtanh]
  describe d := Clip.bound "min" d.least ++ Clip.bound "max" d.greatest

structure LeakyRelu where
  alpha : Float32 := 0.01

instance : Family LeakyRelu where
  kind _ := .leakyRelu
  arity _ := .exact 1 1
  outShapes _ inputs := sameShape inputs
  metrics _ io cx := inPlace (fun size => size / 2e9) io cx
  workload _ io := outputKey .leakyRelu io
  attributes _ := [Kind.tag .leakyRelu]
  describe d := "alpha=" ++ NumberFormat.plain.float32 d.alpha ++ ","

structure Elu where
  alpha : Float32 := 1.0

instance : Family Elu where
  kind _ := .elu
  arity _ := .exact 1 1
  outShapes _ inputs := sameShape inputs
  metrics _ io cx := inPlace (fun size => size * 3.0 / 2e9) io cx
  workload _ io := outputKey .elu io
  attributes _ := [Kind.tag .elu]
  describe d := "alpha=" ++ NumberFormat.plain.float32 d.alpha ++ ","

inductive LogBase where
  | e | two | ten
deriving DecidableEq, Repr

namespace LogBase

def all : List LogBase := [e, two, ten]

def tag : LogBase → Int
  | e => 0
  | two => 1
  | ten => 2

def name : LogBase → String
  | e => "E"
  | two => "Two"
  | ten => "Ten"

end LogBase

structure Log where
  base : LogBase := .e
deriving DecidableEq, Repr

instance : Family Log where
  kind _ := .log
  arity _ := .exact 1 1
  outShapes _ inputs := sameShape inputs
  metrics _ io cx := inPlace (fun size => size * 5.0 / 2e9) io cx
  workload d io := do return (← outputKey .log io) ++ [d.base.tag]
  attributes d := [Kind.tag .log, d.base.tag]
  describe d := "base=" ++ d.base.name ++ ","

/-- Writes one value everywhere, reading nothing but the extents. -/
structure Fill where
  value : Float32 := 0.0

instance : Family Fill where
  kind _ := .fill
  arity _ := .exact 1 1
  outShapes _ inputs := sameShape inputs
  metrics _ io cx := do
    let size := (← io.output? 0).elements
    return {
      computeTime := size * 0.2 / 2e9
      memoryCost := io.outTraffic cx
      parallelism := capped size 1024.0 }
  workload _ io := outputKey .fill io
  attributes _ := [Kind.tag .fill]
  describe d := "value=" ++ NumberFormat.plain.float32 d.value ++ ","

/-- Half the sum of squares, as one figure. -/
structure L2Loss where
deriving DecidableEq, Repr

instance : Family L2Loss where
  kind _ := .l2Loss
  arity _ := .exact 1 1
  outShapes _ _ := .ok [[1]]
  metrics _ io cx := do
    let size := (← io.input? 0).elements
    return {
      computeTime := (2.0 * size + 1.0) / 2e9
      memoryCost := io.inTraffic cx + io.outTraffic cx
      parallelism := capped (size / 2.0) 256.0 }
  workload _ io := inputKey .l2Loss io
  attributes _ := [Kind.tag .l2Loss]

structure Cast where
  conversion : Conversion
deriving DecidableEq, Repr

instance : Family Cast where
  kind _ := .cast
  arity _ := .exact 1 1
  outShapes _ inputs := sameShape inputs
  outTypes d inputs := do
    let x ← operand inputs 0
    require (x.dtype = d.conversion.source) (.castSource d.conversion x.dtype)
    return [d.conversion.target]
  metrics _ io cx := do
    let x ← io.input? 0
    let out ← io.output? 0
    return {
      computeTime := x.elements * 0.5 / 2e9
      memoryCost := io.inTraffic cx + io.outTraffic cx
      parallelism := capped out.elements 1024.0 }
  workload d io := do return (← outputKey .cast io) ++ [word d.conversion.ordinal]
  attributes d := [Kind.tag .cast, word d.conversion.ordinal]
  describe d := "cast=" ++ d.conversion.name ++ ","

/-- The extents of a tensor, as a tensor. -/
structure ShapeOf where
deriving DecidableEq, Repr

instance : Family ShapeOf where
  kind _ := .shape
  arity _ := .exact 1 1
  outShapes _ inputs := do return [[(← operand inputs 0).rank]]
  outTypes _ _ := .ok [.int64]
  metrics _ io cx := do
    let x ← io.input? 0
    return {
      computeTime := negligibleTime
      memoryCost := cx.scaled (ofNat x.rank) .int64
      parallelism := 1.0 }
  workload _ io := inputKey .shape io
  attributes _ := [Kind.tag .shape]

/-- A rectifier whose slope is a tensor. -/
structure PRelu where
deriving DecidableEq, Repr

instance : Family PRelu where
  kind _ := .prelu
  arity _ := .exact 2 1
  outShapes _ inputs := do
    let x ← operand inputs 0
    let slope ← operand inputs 1
    require (x.shape.broadcastsInto slope.shape) (.slopeShape slope.shape x.shape)
    return [x.shape]
  metrics _ io cx := do
    let x ← io.input? 0
    let slope ← io.input? 1
    let out ← io.output? 0
    return {
      computeTime := x.elements * 1.2 / 2e9
      memoryCost := cx.traffic x * 2.0 + cx.traffic slope
      parallelism := capped out.elements 1024.0 }
  workload _ io := outputKey .prelu io
  attributes _ := [Kind.tag .prelu]

/-- The gradient of an activation, from its output, the gradient there and its input. -/
structure ActivationBackward where
  kind : Kind
deriving DecidableEq, Repr

namespace ActivationBackward

def isGradient : Kind → Bool
  | .reluBackward | .sigmoidBackward | .tanhBackward => true
  | _ => false

def work {α : Type} [Scalar α] : Kind → α
  | .reluBackward => 1.0
  | .sigmoidBackward | .tanhBackward => 3.0
  | _ => 2.0

end ActivationBackward

instance : Family ActivationBackward where
  kind := ActivationBackward.kind
  arity _ := .exact 3 1
  prepare d _ := .done do
    require (ActivationBackward.isGradient d.kind)
      (.wrongFamily d.kind "an activation gradient")
    return d
  outShapes _ inputs := do
    let output ← operand inputs 0
    let gradient ← operand inputs 1
    require (output.shape = gradient.shape) (.gradientShape gradient.shape output.shape)
    return [output.shape]
  metrics d io cx := do
    let size := (← io.output? 0).elements
    return {
      computeTime := size * ActivationBackward.work d.kind / 1e9
      memoryCost := io.inTraffic cx + io.outTraffic cx
      parallelism := size / 16.0 }
  workload d io := outputKey d.kind io
  attributes d := [d.kind.tag]

/-- Drops elements at random; the second output marks the ones that stay. -/
structure Dropout where
  ratio : Float32
  training : Bool := false

namespace Dropout

def check (d : Dropout) : Inference Dropout :=
  if d.training then unsupported .trainingDropout
  else if 0.0 ≤ d.ratio ∧ d.ratio < 1.0 then .ok d
  else invalid (.dropoutRatio d.ratio)

end Dropout

instance : Family Dropout where
  kind _ := .dropout
  arity _ := .exact 1 2
  prepare d _ := .done d.check
  outShapes _ inputs := do
    let x ← operand inputs 0
    return [x.shape, x.shape]
  outTypes _ inputs := do
    let x ← operand inputs 0
    return [x.dtype, .bool]
  metrics _ io cx := do
    let size := (← io.input? 0).elements
    return {
      computeTime := size * 3.6 / 1e9
      memoryCost := io.inTraffic cx + io.outTraffic cx
      parallelism := capped (size * 0.95) 1024.0 }
  workload _ io := inputKey .dropout io
  attributes _ := [Kind.tag .dropout]
  describe d := "ratio=" ++ NumberFormat.plain.float32 d.ratio ++ ","

end DataflowCost
