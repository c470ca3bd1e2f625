import DataflowCost.Families.Window
import DataflowCost.Operator.Family

/-! Pooling over the trailing spatial axes of an input of rank three or four. -/
namespace DataflowCost

open Scalar Inference Family

/-- Attributes list the row axis first. -/
structure Pool where
  kind : Kind
  kernel : Vector Nat 2
  dilations : Vector Nat 2 := .replicate 2 1
  pads : Vector Nat 2 := .replicate 2 0
  strides : Vector Nat 2 := kernel
  ceilMode : Bool := false
deriving DecidableEq, Repr

namespace Pool

def isPooling : Kind → Bool
  | .maxPool | .averagePool => true
  | _ => false

/-- The number of windows on one axis; in ceiling mode a last partial step counts. -/
def pooled [Build] (d : Pool) (axis : Fin 2) (input : Nat) : Inference Nat := do
  let window ← Word.add (← Word.mul (d.kernel.get axis - 1) (d.dilations.get axis)) 1
  let padded ← Word.add input (← Word.mul 2 (d.pads.get axis))
  require (window ≤ padded) (.poolWindowTooLarge window padded)
  let free := padded - window
  let steps ← if d.ceilMode then quotientUp free (d.strides.get axis)
    else quotient free (d.strides.get axis)
  Word.add steps 1

def check (d : Pool) (x : TensorType) : Inference Pool := do
  require (isPooling d.kind) (.wrongFamily d.kind "a pooling operator")
  require ([d.kernel, d.strides, d.dilations].all fun v => v.toList.all (0 < ·))
    .emptyPoolWindow
  require (x.rank = 3 ∨ x.rank = 4) (.poolRank x.shape)
  require (x.rank = 3 → d.kernel[0] = 1 ∧ d.pads[0] = 0) .poolRowWindow
  return d

/-- The last axis is pooled, and of a rank-four input the one before it too. -/
def outShape [Build] (d : Pool) (x : Shape) : Inference Shape := do
  let columns ← present x.getLast?
  match x with
  | [batch, channels, rows, _] =>
    let rows ← d.pooled Window.rowAxis rows
    return [batch, channels, rows, ← d.pooled Window.columnAxis columns]
  | _ => return x.dropLast ++ [← d.pooled Window.columnAxis columns]

def greatest (v : Vector Nat 2) : Nat := max v[0] v[1]

/-- The penalty of a step above one, logarithmic with the given weight. -/
def stepFactor {α : Type} [Scalar α] (step : Nat) (weight : α) : α :=
  if 1 < step then 1.0 + log2 (ofNat step) * weight else 1.0

def settings (d : Pool) : KeyVector :=
  words (d.kernel.toList ++ d.pads.toList ++ d.strides.toList ++ d.dilations.toList) ++
    [word d.ceilMode.toNat]

instance : Family Pool where
  kind := kind
  arity _ := .exact 1 1
  prepare d inputs := .done do d.check (← operand inputs 0)
  outShapes d inputs := do return [← d.outShape (← operand inputs 0).shape]
  metrics {α} _ d io cx := do
    let out ← io.output? 0
    let batch ← out.shape[0]?
    let channels ← out.shape[1]?
    let spatial ← out.shape.from? 2
    let window : α := ofNat (d.kernel[0] * d.kernel[1])
    let perOutput := if d.kind = .maxPool then window - 1.0 else window + 1.0
    let dilation : α := stepFactor (greatest d.dilations) 0.1
    let stride : α := stepFactor (greatest d.strides) 0.05
    return {
      computeTime := out.elements * perOutput * dilation / 2e9
      memoryCost := io.inTraffic cx * 1.5 * stride * dilation + io.outTraffic cx
      parallelism :=
        capped (ofNat batch * minimum (ofNat channels) 64.0 *
          minimum (ofNat spatial.size) 256.0) 2048.0 }
  workload d io := do return (← inputKey d.kind io) ++ d.settings
  attributes d := d.kind.tag :: d.settings
  describe d :=
    Text.named "kernel" (d.kernel.toList.map toString) ++
      Text.named "pads" (d.pads.toList.map toString) ++
      Text.named "strides" (d.strides.toList.map toString) ++
      Text.named "dilations" (d.dilations.toList.map toString) ++
      "ceil_mode=" ++ toString d.ceilMode ++ ","

end Pool

end DataflowCost
