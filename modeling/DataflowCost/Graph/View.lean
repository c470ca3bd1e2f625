import DataflowCost.Graph.Build

/-! What a graph shows of one of its operators: its definition, its tensors, and everything computed
from them. -/
namespace DataflowCost

structure OpView where
  id : OpId
  node : Node
  inputs : List Tensor
  outputs : List Tensor

def Graph.view (g : Graph) (id : OpId) : Except Failure OpView := do
  let node ← g.node id
  match node.inputs.mapM g.tensor?, node.outputs.mapM g.tensor? with
  | some inputs, some outputs => return ⟨id, node, inputs, outputs⟩
  | _, _ => .error .fault

namespace OpView

/-- A figure that a formula gives, or a fault. -/
def orFault {β : Type} : Option β → Except Failure β
  | some b => .ok b
  | none => .error .fault

def op (v : OpView) : Operator := v.node.op

def kind (v : OpView) : Kind := v.op.kind

def inputTypes (v : OpView) : List TensorType := v.inputs.map Tensor.type

def io (v : OpView) : Io := ⟨v.inputTypes, v.outputs.map Tensor.type⟩

def inferShapes [Build] (v : OpView) : Inference (List Shape) := v.op.outShapes v.inputTypes

def inferTypes (v : OpView) : Inference (List DType) := v.op.outTypes v.inputTypes

def metrics {α : Type} [Scalar α] (v : OpView) (cx : CostContext) : Except Failure (Metrics α) :=
  orFault (v.op.metrics v.io cx)

def workload (v : OpView) : Except Failure KeyVector := orFault (v.op.workload v.io)

def attributes (v : OpView) : KeyVector := v.op.attributes

def perfKey (v : OpView) : Except Failure PerfKey := orFault (v.op.perfKey v.io)

/-- The guids of tensors under a name. -/
def guids (name : String) (tensors : List Tensor) : String :=
  name ++ "=" ++ ";".intercalate (tensors.map fun t => toString t.guid)

/-- Kind, guid, input shapes, attributes, and the guids of inputs and outputs. -/
def text (v : OpView) : String :=
  v.kind.name ++ "[" ++ toString v.node.guid ++ "](" ++
    String.join (v.inputs.map fun t => t.type.shape.text ++ ",") ++ v.op.describe ++
    guids "input" v.inputs ++ "," ++ guids "output" v.outputs ++ ")"

end OpView

end DataflowCost
