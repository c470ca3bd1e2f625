import DataflowCost.Families.Window
import DataflowCost.Operator.Activation
import DataflowCost.Operator.Family

/-! Convolutions: forward over two or three spatial axes, transposed in two layouts, and the gradient of a
filter. Channels are split into groups; a group count of zero is a fault. -/
namespace DataflowCost

open Scalar Inference Family

namespace Convolution

def requireRank (what : String) (rank : Nat) (t : TensorType) : Inference Unit :=
  require (t.rank = rank) (.wrongRank what rank t.shape)

def rejectBias (inputs : List TensorType) : Inference Unit :=
  if 2 < inputs.length then unsupported .convolutionBias else .ok ()

/-- The output channels of a weight, where the input channels fall into whole groups. -/
def outChannels (channels : Nat) (weight : Shape) : Inference Nat := do
  let out ← present weight[0]?
  let perGroup ← present weight[1]?
  require (0 < perGroup ∧ channels % perGroup = 0) (.inputChannels channels perGroup)
  let group ← quotient channels perGroup
  require ((← remainder out group) = 0) (.outputChannels out group)
  return out

/-- Multiplications of a convolution: the taps and channels of one filter for each output. -/
def operations? {α : Type} [Scalar α] (io : Io) : Option α := do
  let weight := (← io.input? 1).shape
  let out := (← io.output? 0).shape
  return volume out * volume (← weight.from? 1)

def lanes {α : Type} [Scalar α] (out : TensorType) : α := capped out.elements 10240.0

def activation {α : Type} [Scalar α] (act : Activation) (out : TensorType) : α :=
  if act.isSome then 0.1 * out.elements else 0.0

end Convolution

open DataflowCost.Convolution

/-- A forward convolution over `n` spatial axes behind the batch and channel axes. -/
structure Conv (n : Nat) where
  window : Sliding n := .standard n
  act : Activation := .none
deriving DecidableEq, Repr

namespace Conv

variable {n : Nat}

def resolve [Build] (d : Conv n) (inputs : List TensorType) : Inference (Conv n) := do
  rejectBias inputs
  let x ← operand inputs 0
  requireRank "input" (n + 2) x
  let w ← operand inputs 1
  requireRank "weight" (n + 2) w
  let spatial ← present (x.shape.from? 2)
  let kernel ← present (w.shape.from? 2)
  return { d with window := ← d.window.resolve spatial kernel }

/-- The output of a convolution of a shape by a weight. -/
def outShape [Build] (window : Sliding n) (x w : Shape) : Inference Shape := do
  let channels ← present x[1]?
  let out ← outChannels channels w
  let spatial ← present (x.from? 2)
  let kernel ← present (w.from? 2)
  let extents ← window.outExtents spatial kernel
  return (← present x[0]?) :: out :: extents

def metrics? {α : Type} [Scalar α] (d : Conv n) (memoryFactor : α → α) (io : Io)
    (cx : CostContext) : Option (Metrics α) := do
  let out ← io.output? 0
  return {
    computeTime := ((← operations? io) + activation d.act out) / 1e9
    memoryCost := memoryFactor (io.inTraffic cx + io.outTraffic cx)
    parallelism := lanes out }

def settings (d : Conv n) : KeyVector := d.window.key ++ [d.act.tag]

def workload? (d : Conv n) (kind : Kind) (io : Io) : Option KeyVector := do
  return kind.tag :: words (← io.input? 0).shape ++ words (← io.input? 1).shape ++ d.settings

instance : Family (Conv 2) where
  kind _ := .conv
  arity _ := .between 2 3 1
  prepare d inputs := .done (d.resolve inputs)
  outShapes d inputs := do
    let x ← operand inputs 0
    let w ← operand inputs 1
    return [← outShape d.window x.shape w.shape]
  metrics d io cx := d.metrics? id io cx
  workload d io := d.workload? .conv io
  attributes d := Kind.tag .conv :: d.settings
  describe d := d.window.describe ++ d.act.described

instance : Family (Conv 3) where
  kind _ := .conv3d
  arity _ := .between 2 3 1
  prepare d inputs := .done (d.resolve inputs)
  outShapes d inputs := do
    let x ← operand inputs 0
    let w ← operand inputs 1
    return [← outShape d.window x.shape w.shape]
  metrics d io cx := d.metrics? (· * 1.2) io cx
  workload d io := d.workload? .conv3d io
  attributes d := Kind.tag .conv3d :: d.settings
  describe d := d.window.describe

end Conv

/-- Where the channel axis of a transposed convolution stands. -/
inductive ChannelLayout where
  | first | last
deriving DecidableEq, Repr

structure ConvTranspose where
  window : Sliding 2 := .standard 2
  outputPadding : Vector Nat 2 := .replicate 2 0
  group : Nat := 1
  layout : ChannelLayout := .first
  act : Activation := .none
deriving DecidableEq, Repr

namespace ConvTranspose

/-- The extents of input and weight by their role. -/
structure Extents where
  batch : Nat
  channels : Nat
  spatial : Vector Nat 2
  outPerGroup : Nat
  kernel : Vector Nat 2
deriving DecidableEq, Repr

def extents? (layout : ChannelLayout) (x w : Shape) : Option Extents := do
  match layout with
  | .first =>
    return ⟨← x[0]?, ← x[1]?, #v[← x[2]?, ← x[3]?], ← w[1]?, #v[← w[2]?, ← w[3]?]⟩
  | .last =>
    return ⟨← x[0]?, ← x[3]?, #v[← x[1]?, ← x[2]?], ← w[3]?, #v[← w[1]?, ← w[2]?]⟩

def kindOf : ChannelLayout → Kind
  | .first => .convTranspose
  | .last => .convTransposeNhwc

/-- Half of what a window overlaps its stride by, rounded down. -/
def samePad [Build] (kernel stride dilation outputPad : Nat) : Inference Nat := do
  let reach ← Word.mul dilation (kernel - 1)
  let needed ← Word.add (← Word.add reach 1) outputPad
  return (needed - stride) / 2

def resolvePads [Build] (d : ConvTranspose) (e : Extents) : Inference (Vector Nat 2) :=
  match d.window.padding with
  | .explicit pads => Sliding.explicitPads 2 pads
  | .valid => .ok (.replicate 2 0)
  | .same => Sliding.eachAxis 2 fun i =>
    samePad (e.kernel.get i) (d.window.strides.get i) (d.window.dilations.get i)
      (d.outputPadding.get i)

def resolve [Build] (d : ConvTranspose) (inputs : List TensorType) : Inference ConvTranspose := do
  rejectBias inputs
  let x ← operand inputs 0
  requireRank "input" 4 x
  let w ← operand inputs 1
  requireRank "weight" 4 w
  require (0 < d.group) .zeroGroup
  d.window.checkSteps
  let e ← present (extents? d.layout x.shape w.shape)
  return { d with window := { d.window with pads := ← d.resolvePads e } }

/-- The extent that a convolution with these attributes would have read. -/
def outExtent [Build] (input kernel stride dilation pad outputPad : Nat) : Inference Nat := do
  let steps ← Word.mul (input - 1) stride
  let reach ← Word.mul dilation (kernel - 1)
  let full ← Word.add (← Word.add (← Word.add steps reach) outputPad) 1
  let trim ← Word.mul 2 pad
  require (trim < full) (.paddingTooLarge pad full)
  return full - trim

def outShape [Build] (d : ConvTranspose) (x w : Shape) : Inference Shape := do
  let e ← present (extents? d.layout x w)
  let weightChannels ← present w[0]?
  require (e.channels = weightChannels) (.transposedChannels e.channels weightChannels)
  require ((← remainder e.channels d.group) = 0) (.groupChannels e.channels d.group)
  let out ← Word.mul e.outPerGroup d.group
  let extent (i : Fin 2) := outExtent (e.spatial.get i) (e.kernel.get i)
    (d.window.strides.get i) (d.window.dilations.get i) (d.window.pads.get i)
    (d.outputPadding.get i)
  let rows ← extent Window.rowAxis
  let columns ← extent Window.columnAxis
  return match d.layout with
    | .first => [e.batch, out, rows, columns]
    | .last => [e.batch, rows, columns, out]

def operations? {α : Type} [Scalar α] (d : ConvTranspose) (io : Io) : Option α := do
  let e ← extents? d.layout (← io.input? 0).shape (← io.input? 1).shape
  let perGroup := e.channels / max d.group 1
  return (← io.output? 0).elements * volume e.kernel.toList * ofNat perGroup

def settings (d : ConvTranspose) : KeyVector :=
  d.window.key ++ words d.outputPadding.toList ++ [word d.group, d.act.tag]

instance : Family ConvTranspose where
  kind d := kindOf d.layout
  arity _ := .between 2 3 1
  prepare d inputs := .done (d.resolve inputs)
  outShapes d inputs := do
    let x ← operand inputs 0
    let w ← operand inputs 1
    return [← d.outShape x.shape w.shape]
  metrics {α} _ d io cx := do
    let out ← io.output? 0
    let operations : α ← d.operations? io
    let act := activation d.act out
    return {
      computeTime := match d.layout with
        | .first => (operations + act) / 0.9e9
        | .last => (operations * 1.26 + act) / 1e9
      memoryCost := (io.inTraffic cx + io.outTraffic cx) * match d.layout with
        | .first => 1.3
        | .last => 1.235
      parallelism := lanes out * 0.95 }
  workload d io := do
    return (kindOf d.layout).tag :: words (← io.input? 0).shape ++
      words (← io.input? 1).shape ++ d.settings
  attributes d := (kindOf d.layout).tag :: d.settings
  describe d :=
    d.window.describe ++ Text.named "output_padding" (d.outputPadding.toList.map toString) ++
      "group=" ++ toString d.group ++ ","

end ConvTranspose

/-- The gradient of a filter, from the input and the gradient at the output. -/
structure ConvBackwardFilter where
  window : Sliding 2 := .standard 2
  act : Activation := .none
deriving DecidableEq, Repr

namespace ConvBackwardFilter

def resolve [Build] (d : ConvBackwardFilter) (inputs : List TensorType) :
    Inference ConvBackwardFilter := do
  rejectBias inputs
  let x ← operand inputs 0
  requireRank "input" 4 x
  let gradient ← operand inputs 1
  requireRank "output gradient" 4 gradient
  let spatial ← present (x.shape.from? 2)
  let kernel ← present (gradient.shape.from? 2)
  return { d with window := ← d.window.resolve spatial kernel }

instance : Family ConvBackwardFilter where
  kind _ := .convBackwardFilter
  arity _ := .between 2 3 1
  prepare d inputs := .done (d.resolve inputs)
  outShapes d inputs := do
    let x ← operand inputs 0
    let gradient ← operand inputs 1
    return [← Conv.outShape d.window x.shape gradient.shape]
  metrics {α} _ _ io cx := do
    let operations : α ← operations? io
    return {
      computeTime := operations / 1e9 * 2.5
      memoryCost := (io.inTraffic cx + io.outTraffic cx) * 2.0
      parallelism := lanes (← io.output? 0) * 0.9 }
  workload d io := do
    return Kind.tag .convBackwardFilter :: words (← io.input? 0).shape ++
      words (← io.input? 1).shape ++ d.window.key
  attributes d := Kind.tag .convBackwardFilter :: d.window.key ++ [d.act.tag]
  describe d := d.window.describe

end ConvBackwardFilter

end DataflowCost
