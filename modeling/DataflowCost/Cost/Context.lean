import DataflowCost.Config.Basic
import DataflowCost.Tensor.Shape

/-! What cost formulas read: the communicator width and memory unit of a configuration, and the types of
the operator's inputs and outputs. A formula that reads a tensor or axis that is not there has no
value. -/
namespace DataflowCost

structure CostContext where
  worldSize : Nat
  memoryUnit : MemoryUnit
deriving DecidableEq, Repr

namespace CostContext

variable {α : Type} [Scalar α]

/-- A width of zero counts as one. -/
def ofConfig (c : Config α) : CostContext := ⟨max c.worldSize 1, c.memoryUnit⟩

def width (cx : CostContext) : α := Scalar.ofNat cx.worldSize

/-- An element count in the memory unit. -/
def scaled (cx : CostContext) (elements : α) (dtype : DType) : α :=
  match cx.memoryUnit with
  | .elements => elements
  | .bytes => elements * Scalar.ofNat dtype.bytes

/-- A byte count in the memory unit. -/
def fromBytes (cx : CostContext) (bytes : α) (dtype : DType) : α :=
  match cx.memoryUnit with
  | .elements => bytes / Scalar.ofNat dtype.bytes
  | .bytes => bytes

def traffic (cx : CostContext) (t : TensorType) : α := cx.scaled (Scalar.ofNat t.size) t.dtype

end CostContext

/-- The three estimates of an operator or a graph. -/
structure Metrics (α : Type) where
  computeTime : α
  memoryCost : α
  parallelism : α

/-- The tensors that an operator reads and writes. -/
structure Io where
  inputs : List TensorType
  outputs : List TensorType

namespace Io

variable {α : Type} [Scalar α]

def input? (io : Io) (i : Nat) : Option TensorType := io.inputs[i]?

def output? (io : Io) (i : Nat) : Option TensorType := io.outputs[i]?

def inTraffic (io : Io) (cx : CostContext) : α := Scalar.sum (io.inputs.map cx.traffic)

def outTraffic (io : Io) (cx : CostContext) : α := Scalar.sum (io.outputs.map cx.traffic)

/-- The element type in which scratch space is charged. -/
def dtype (io : Io) : DType :=
  match io.inputs, io.outputs with
  | t :: _, _ => t.dtype
  | [], t :: _ => t.dtype
  | [], [] => .float32

end Io

def TensorType.elements {α : Type} [Scalar α] (t : TensorType) : α := Scalar.ofNat t.size

/-- The axes from a position on; the position just behind the last axis has none. -/
def Shape.from? (s : Shape) (i : Nat) : Option Shape :=
  if i ≤ s.length then some (s.drop i) else none

/-- The axes before a position. -/
def Shape.before? (s : Shape) (i : Nat) : Option Shape :=
  if i ≤ s.length then some (s.take i) else none

end DataflowCost
