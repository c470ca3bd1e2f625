import DataflowCost.Graph.Error
import DataflowCost.Operator.Basic

/-! Dataflow graphs. Tensors and operators stand in two lists and refer to each other by position; both
lists only grow. -/
namespace DataflowCost

structure Node where
  guid : Nat
  op : Operator
  inputs : List TensorId
  outputs : List TensorId

structure Graph where
  tensors : List Tensor
  nodes : List Node
  host : Host

namespace Graph

def empty : Graph := ⟨[], [], .resident⟩

def withHost (g : Graph) (host : Host) : Graph := { g with host }

def tensor? (g : Graph) (id : TensorId) : Option Tensor := g.tensors[id.index]?

def node? (g : Graph) (id : OpId) : Option Node := g.nodes[id.index]?

def tensor (g : Graph) (id : TensorId) : Except Failure Tensor :=
  match g.tensor? id with
  | some t => .ok t
  | none => .error (.error (.unknownTensor id))

def node (g : Graph) (id : OpId) : Except Failure Node :=
  match g.node? id with
  | some n => .ok n
  | none => .error (.error (.unknownOp id))

def opIds (g : Graph) : List OpId := (List.range g.nodes.length).map OpId.mk

def producer (g : Graph) (id : TensorId) : Except Failure (Option OpId) := do
  return (← g.tensor id).producer

def consumers (g : Graph) (id : TensorId) : Except Failure (List OpId) := do
  return (← g.tensor id).consumers

def outputs (g : Graph) (id : OpId) : Except Failure (List TensorId) := do
  return (← g.node id).outputs

/-- The first output. -/
def output (g : Graph) (id : OpId) : Except Failure TensorId := do
  match (← g.outputs id).head? with
  | some t => return t
  | none => .error (.error (.unknownOp id))

/-- The sizes of the two lists, for diagnostics. -/
def summary (g : Graph) : String :=
  "Graph \x7b tensors: " ++ toString g.tensors.length ++ ", ops: " ++ toString g.nodes.length ++
    ", .. \x7d"

end Graph

end DataflowCost
