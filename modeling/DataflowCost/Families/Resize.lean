import DataflowCost.Operator.Family

/-! Resizing of axes by sizes or by scale factors that the host knows when the operator is built. The
arithmetic of scale factors is a parameter: binary32 in operators, an exact field in proofs. -/
namespace DataflowCost

open Inference Family

/-- Arithmetic on scale factors. -/
class ScaleFactor (ρ : Type) where
  one : ρ
  ofInt : Int → ρ
  mul : ρ → ρ → ρ
  div : ρ → ρ → ρ
  minimum : ρ → ρ → ρ
  maximum : ρ → ρ → ρ
  isPositive : ρ → Bool
  /-- The nearest natural number, a half counted up and anything below zero as zero. -/
  roundToNat : ρ → Nat
  quoted : ρ → String

/-- A result beyond the machine word becomes the greatest word. -/
instance : ScaleFactor Float32 where
  one := 1.0
  ofInt := Float32.ofInt
  mul := (· * ·)
  div := (· / ·)
  minimum a b := if a < b || b.isNaN then a else b
  maximum a b := if b < a || b.isNaN then a else b
  isPositive a := 0.0 < a
  roundToNat a := if 0.0 < a then a.round.toUInt64.toNat else 0
  quoted := NumberFormat.quoted.float32

inductive ResizeTarget where
  | sizes | scales
deriving DecidableEq, Repr

def ResizeTarget.name : ResizeTarget → String
  | sizes => "Sizes"
  | scales => "Scales"

inductive Interpolation where
  | nearest | linear | cubic
deriving DecidableEq, Repr

def Interpolation.name : Interpolation → String
  | nearest => "Nearest"
  | linear => "Linear"
  | cubic => "Cubic"

inductive NearestRule where
  | preferFloor | preferCeil | floor | ceil | none
deriving DecidableEq, Repr

namespace NearestRule

def all : List NearestRule := [preferFloor, preferCeil, floor, ceil, none]

def tag : NearestRule → Int
  | preferFloor => 0
  | preferCeil => 1
  | floor => 2
  | ceil => 3
  | none => 4

def name : NearestRule → String
  | preferFloor => "RoundPreferFloor"
  | preferCeil => "RoundPreferCeil"
  | floor => "Floor"
  | ceil => "Ceil"
  | none => "None"

/-- The rule of an interpolation that is not told one. -/
def standard : Interpolation → NearestRule
  | .nearest => preferFloor
  | _ => none

end NearestRule

inductive CoordinateRule where
  | halfPixel | torchHalfPixel | alignCorners | asymmetric | cropAndResize
deriving DecidableEq, Repr

namespace CoordinateRule

def all : List CoordinateRule :=
  [halfPixel, torchHalfPixel, alignCorners, asymmetric, cropAndResize]

def tag : CoordinateRule → Int
  | halfPixel => 0
  | torchHalfPixel => 1
  | alignCorners => 2
  | asymmetric => 3
  | cropAndResize => 4

def name : CoordinateRule → String
  | halfPixel => "HalfPixel"
  | torchHalfPixel => "PytorchHalfPixel"
  | alignCorners => "AlignCorners"
  | asymmetric => "Asymmetric"
  | cropAndResize => "TfCropAndResize"

end CoordinateRule

/-- Whether axes resized by sizes keep their own ratio or share one. -/
inductive RatioPolicy where
  | stretch | notLarger | notSmaller
deriving DecidableEq, Repr

namespace RatioPolicy

def all : List RatioPolicy := [stretch, notLarger, notSmaller]

def tag : RatioPolicy → Int
  | stretch => 0
  | notLarger => 1
  | notSmaller => 2

def name : RatioPolicy → String
  | stretch => "Stretch"
  | notLarger => "NotLarger"
  | notSmaller => "NotSmaller"

end RatioPolicy

structure Resize (ρ : Type) where
  target : ResizeTarget
  mode : Interpolation := .nearest
  nearest : NearestRule := .standard mode
  coordinates : CoordinateRule := .halfPixel
  ratio : RatioPolicy := .stretch
  /-- `none` resizes every axis. -/
  axes : Option (List Int) := none
  resolvedAxes : List Nat := []
  /-- One scale factor for each axis of the input. -/
  scales : List ρ := []

namespace Resize

variable {ρ : Type} [ScaleFactor ρ]

def resolveAxes (axes : Option (List Int)) (rank count : Nat) : Inference (List Nat) :=
  match axes with
  | none => do
    require (count = rank) (.resizeRank rank count)
    return List.range rank
  | some axes => do
    require (count = axes.length) (.resizeAxes axes count)
    axes.mapM fun (axis : Int) =>
      if axis < 0 then unsupported .negativeResizeAxes
      else if axis < rank then .ok axis.toNat
      else invalid (.axisOutOfRange axis rank)

/-- The factors put at their axes; where an axis is named twice the later factor holds. -/
def place (rank : Nat) (axes : List Nat) (factors : List ρ) : Inference (List ρ) :=
  (axes.zip factors).foldlM (fun out (axis, factor) => overwrite out axis factor)
    (List.replicate rank ScaleFactor.one)

/-- The ratio of each requested size to its extent. -/
def ratios (s : Shape) (axes : List Nat) (sizes : List Int) : Inference (List ρ) :=
  (axes.zip sizes).mapM fun (axis, size) => do
    return ScaleFactor.div (ScaleFactor.ofInt size) (ScaleFactor.ofInt (← present s[axis]?))

/-- The ratio that all axes share under a policy. -/
def sharedRatio : RatioPolicy → List ρ → Option ρ
  | .notLarger, r :: rest => some (rest.foldl ScaleFactor.minimum r)
  | .notSmaller, r :: rest => some (rest.foldl ScaleFactor.maximum r)
  | _, _ => none

/-- Every axis needs a size of its own, also where one ratio is shared. -/
def scalesFromSizes (policy : RatioPolicy) (s : Shape) (axes : List Nat) (sizes : List Int) :
    Inference (List ρ) := do
  let own ← ratios s axes sizes
  let factors ← axes.zipIdx.mapM fun (_, i) => do
    let factor ← present own[i]?
    return (sharedRatio policy own).getD factor
  place s.length axes factors

/-- The axes to resize, once the parameter and the region of interest have the right shapes. -/
def checkShapes (d : Resize ρ) (inputs : List TensorType) : Inference (Shape × List Nat) := do
  let x ← operand inputs 0
  let parameter ← operand inputs 1
  let count ← match parameter.shape with
    | [count] => .ok count
    | _ => invalid (.parameterRank parameter.shape)
  let axes ← resolveAxes d.axes x.rank count
  require (d.coordinates = .cropAndResize ↔ inputs.length = 3) .regionInput
  match inputs[2]? with
  | some region =>
    require (region.shape = [2 * axes.length]) (.regionShape (2 * axes.length) region.shape)
  | none => .ok ()
  return (x.shape, axes)

def resolveSizes (d : Resize ρ) (s : Shape) (axes : List Nat) (guid : Nat)
    (sizes : Option (List Int)) : Inference (Resize ρ) := do
  match sizes with
  | none => invalid (.noHostData "sizes" guid)
  | some sizes =>
    require (sizes.all (0 < ·)) (.sizesNotPositive sizes)
    let extents ← axes.mapM fun axis => present s[axis]?
    require (extents.all (0 < ·)) .emptyResizeAxis
    return { d with resolvedAxes := axes, scales := ← scalesFromSizes d.ratio s axes sizes }

def resolveScales (d : Resize ρ) (s : Shape) (axes : List Nat) (guid : Nat)
    (scales : Option (List ρ)) : Inference (Resize ρ) := do
  match scales with
  | none => invalid (.noHostData "scales" guid)
  | some scales =>
    require (scales.all ScaleFactor.isPositive)
      (.scalesNotPositive (scales.map ScaleFactor.quoted))
    return { d with resolvedAxes := axes, scales := ← place s.length axes scales }

def prepare (d : Resize ρ) (inputs : List TensorType) : Preparation ρ (Resize ρ) :=
  .after (d.checkShapes inputs) fun (s, axes) =>
    match d.target with
    | .sizes => .awaitInts 1 (d.resolveSizes s axes)
    | .scales => .awaitReals 1 (d.resolveScales s axes)

def outShape (d : Resize ρ) (s : Shape) : Inference Shape := do
  require (d.scales.length = s.length) (.scalesUnresolved s)
  return s.zipWith (fun (extent : Nat) scale =>
    ScaleFactor.roundToNat (ScaleFactor.mul scale (ScaleFactor.ofInt extent))) d.scales

/-- The input elements that are read for one output element. -/
def points (d : Resize ρ) : Nat :=
  match d.mode with
  | .nearest => 2
  | .linear => Nat.pow 2 d.resolvedAxes.length
  | .cubic => Nat.pow 4 d.resolvedAxes.length

section Cost

open Scalar

variable {α : Type} [Scalar α]

def work (d : Resize ρ) (size : α) : α :=
  let operation := match d.mode with
    | .nearest => 1.0
    | .linear => 2.5
    | .cubic => 6.0
  let transform := match d.coordinates with
    | .alignCorners => 1.1
    | .cropAndResize => 1.3
    | _ => 1.0
  size * operation * transform * (1.0 + 0.1 * ofNat d.resolvedAxes.length)

def efficiency (d : Resize ρ) : α :=
  let smooth := if d.mode = .nearest then 0.8 else 0.8 * 0.9
  if d.coordinates = .cropAndResize then smooth * 0.95 else smooth

end Cost

def parameterType : ResizeTarget → DType
  | .sizes => .int64
  | .scales => .float32

instance : Family (Resize Float32) where
  kind _ := .resize
  arity _ := .between 2 3 1
  prepare := prepare
  outShapes d inputs := do return [← d.outShape (← operand inputs 0).shape]
  outTypes d inputs := do
    let x ← operand inputs 0
    let parameter ← operand inputs 1
    let expected := parameterType d.target
    require (parameter.dtype = expected)
      (.resizeParameterType d.target.name expected parameter.dtype)
    match inputs[2]? with
    | some region => require (region.dtype = .float32) (.regionType region.dtype)
    | none => .ok ()
    return [x.dtype]
  metrics {α} _ d io cx := do
    let x ← io.input? 0
    let out ← io.output? 0
    let parameters : α := Scalar.sum ((io.inputs.drop 1).map cx.traffic)
    return {
      computeTime := d.work out.elements / 1e9
      memoryCost :=
        cx.traffic x * Scalar.ofNat d.points / 2.0 + parameters + io.outTraffic cx
      parallelism := Scalar.capped (out.elements * d.efficiency) 2048.0 }
  workload d io := do
    return Kind.tag .resize :: words ((← io.input? 0).shape ++ (← io.output? 0).shape) ++
      [d.coordinates.tag, d.nearest.tag]
  attributes d :=
    Kind.tag .resize :: words d.resolvedAxes ++
      [d.coordinates.tag, d.nearest.tag, d.ratio.tag]
  describe d :=
    Text.named "axes" (d.resolvedAxes.map toString) ++
      Text.named "scales" (d.scales.map NumberFormat.plain.float32) ++
      "mode=" ++ d.mode.name ++ ",nearest=" ++ d.nearest.name ++ ",coord=" ++
      d.coordinates.name ++ ",ratio=" ++ d.ratio.name ++ ","

end Resize

end DataflowCost
