import DataflowCost.Families.Attention
import DataflowCost.Families.Collective
import DataflowCost.Families.Concat
import DataflowCost.Families.Convolution
import DataflowCost.Families.Determinant
import DataflowCost.Families.Elementwise
import DataflowCost.Families.Gather
import DataflowCost.Families.MatMul
import DataflowCost.Families.Normalization
import DataflowCost.Families.Permute
import DataflowCost.Families.Pointwise
import DataflowCost.Families.Pool
import DataflowCost.Families.Reduce
import DataflowCost.Families.Reshape
import DataflowCost.Families.Resize
import DataflowCost.Families.Slice

/-! The operators of a graph: a definition of any family. -/
namespace DataflowCost

inductive Operator where
  | elementwise (d : Elementwise)
  | mseLoss (d : MseLoss)
  | select (d : Select)
  | unary (d : Unary)
  | clip (d : Clip)
  | hardtanh (d : Hardtanh)
  | fill (d : Fill)
  | l2Loss (d : L2Loss)
  | cast (d : Cast)
  | shapeOf (d : ShapeOf)
  | prelu (d : PRelu)
  | leakyRelu (d : LeakyRelu)
  | log (d : Log)
  | elu (d : Elu)
  | activationBackward (d : ActivationBackward)
  | dropout (d : Dropout)
  | matMul (d : MatMul)
  | gbmm (d : Gbmm)
  | g2bmm (d : G2bmm)
  | conv2d (d : Conv 2)
  | conv3d (d : Conv 3)
  | convTranspose (d : ConvTranspose)
  | convBackwardFilter (d : ConvBackwardFilter)
  | pool (d : Pool)
  | reduce (d : Reduce)
  | softmax (d : Softmax)
  | layerNorm (d : LayerNorm)
  | rmsNorm (d : RmsNorm)
  | batchNorm (d : BatchNorm)
  | instanceNorm (d : InstanceNorm)
  | localResponseNorm (d : LocalResponseNorm)
  | reshape (d : Reshape)
  | flatten (d : Flatten)
  | identity (d : Identity)
  | squeeze (d : Squeeze)
  | unsqueeze (d : Unsqueeze)
  | transpose (d : Transpose)
  | depthToSpace (d : DepthToSpace)
  | expand (d : Expand)
  | concat (d : Concat)
  | split (d : Split)
  | slice (d : Slice)
  | pad (d : Pad)
  | extend (d : Extend)
  | gather (d : Gather)
  | gatherElements (d : GatherElements)
  | resize (d : Resize Float32)
  | attentionKvCache (d : AttentionKvCache)
  | rope (d : Rope)
  | det (d : Det)
  | allReduce (d : AllReduce)
  | allGather (d : AllGather)
  | broadcast (d : Broadcast)
  | send (d : Send)
  | recv (d : Recv)

namespace Operator

universe u

/-- Treats an operator as a definition of its family, together with the way back. -/
def withFamily {β : Type u} (op : Operator)
    (f : {δ : Type} → [Family δ] → (δ → Operator) → δ → β) : β :=
  match op with
  | .elementwise d => f .elementwise d
  | .mseLoss d => f .mseLoss d
  | .select d => f .select d
  | .unary d => f .unary d
  | .clip d => f .clip d
  | .hardtanh d => f .hardtanh d
  | .fill d => f .fill d
  | .l2Loss d => f .l2Loss d
  | .cast d => f .cast d
  | .shapeOf d => f .shapeOf d
  | .prelu d => f .prelu d
  | .leakyRelu d => f .leakyRelu d
  | .log d => f .log d
  | .elu d => f .elu d
  | .activationBackward d => f .activationBackward d
  | .dropout d => f .dropout d
  | .matMul d => f .matMul d
  | .gbmm d => f .gbmm d
  | .g2bmm d => f .g2bmm d
  | .conv2d d => f .conv2d d
  | .conv3d d => f .conv3d d
  | .convTranspose d => f .convTranspose d
  | .convBackwardFilter d => f .convBackwardFilter d
  | .pool d => f .pool d
  | .reduce d => f .reduce d
  | .softmax d => f .softmax d
  | .layerNorm d => f .layerNorm d
  | .rmsNorm d => f .rmsNorm d
  | .batchNorm d => f .batchNorm d
  | .instanceNorm d => f .instanceNorm d
  | .localResponseNorm d => f .localResponseNorm d
  | .reshape d => f .reshape d
  | .flatten d => f .flatten d
  | .identity d => f .identity d
  | .squeeze d => f .squeeze d
  | .unsqueeze d => f .unsqueeze d
  | .transpose d => f .transpose d
  | .depthToSpace d => f .depthToSpace d
  | .expand d => f .expand d
  | .concat d => f .concat d
  | .split d => f .split d
  | .slice d => f .slice d
  | .pad d => f .pad d
  | .extend d => f .extend d
  | .gather d => f .gather d
  | .gatherElements d => f .gatherElements d
  | .resize d => f .resize d
  | .attentionKvCache d => f .attentionKvCache d
  | .rope d => f .rope d
  | .det d => f .det d
  | .allReduce d => f .allReduce d
  | .allGather d => f .allGather d
  | .broadcast d => f .broadcast d
  | .send d => f .send d
  | .recv d => f .recv d

def kind (op : Operator) : Kind := op.withFamily fun _ d => Family.kind d

def arity (op : Operator) : Arity := op.withFamily fun _ d => Family.arity d

/-- The operator with its attributes resolved against the inputs. -/
def prepare [Build] (op : Operator) (inputs : List TensorType) : Preparation Float32 Operator :=
  op.withFamily fun wrap d => (Family.prepare d inputs).map wrap

def outShapes [Build] (op : Operator) (inputs : List TensorType) : Inference (List Shape) :=
  op.withFamily fun _ d => Family.outShapes d inputs

def outTypes (op : Operator) (inputs : List TensorType) : Inference (List DType) :=
  op.withFamily fun _ d => Family.outTypes d inputs

/-- The estimates, unless a formula reads a tensor or axis that is not there. -/
def metrics {α : Type} [Scalar α] (op : Operator) (io : Io) (cx : CostContext) :
    Option (Metrics α) :=
  op.withFamily fun _ d => Family.metrics d io cx

/-- The kind, the extents that determine the work, and what else does. -/
def workload (op : Operator) (io : Io) : Option KeyVector :=
  op.withFamily fun _ d => Family.workload d io

/-- The kind and the resolved attributes. -/
def attributes (op : Operator) : KeyVector := op.withFamily fun _ d => Family.attributes d

def describe (op : Operator) : String := op.withFamily fun _ d => Family.describe d

def perfKey (op : Operator) (io : Io) : Option PerfKey := do
  return .ofVectors (← op.workload io) op.attributes

end Operator

end DataflowCost
