import DataflowCost.Cost.Context
import DataflowCost.Inference.Arity
import DataflowCost.Inference.Preparation
import DataflowCost.Inference.Word
import DataflowCost.Operator.Fingerprint

/-! An operator family: what a definition of the family has to say to be registered in a graph and
estimated. Definitions carry their attributes as given and, once prepared, as resolved. -/
namespace DataflowCost

class Family (δ : Type) where
  kind : δ → Kind
  arity : δ → Arity
  /-- Resolves the attributes against the inputs. -/
  prepare : [Build] → δ → List TensorType → Preparation Float32 δ := fun d _ => .done (.ok d)
  outShapes : [Build] → δ → List TensorType → Inference (List Shape)
  /-- Unless a family says otherwise all outputs have the type of the first input. -/
  outTypes : δ → List TensorType → Inference (List DType) := fun d inputs =>
    .ok (List.replicate (arity d).outputs ((inputs.head?.map TensorType.dtype).getD .float32))
  metrics : {α : Type} → [Scalar α] → δ → Io → CostContext → Option (Metrics α)
  workload : δ → Io → Option KeyVector
  attributes : δ → KeyVector
  /-- The attributes as part of an operator's text. -/
  describe : δ → String := fun _ => ""

namespace Family

/-- The type of an input. -/
def operand (inputs : List TensorType) (i : Nat) : Inference TensorType :=
  Inference.present inputs[i]?

/-- One output of the shape of the first input. -/
def sameShape (inputs : List TensorType) : Inference (List Shape) := do
  return [(← operand inputs 0).shape]

/-- The kind and the extents of the first output. -/
def outputKey (kind : Kind) (io : Io) : Option KeyVector := do
  return kind.tag :: words (← io.output? 0).shape

/-- The kind and the extents of the first input. -/
def inputKey (kind : Kind) (io : Io) : Option KeyVector := do
  return kind.tag :: words (← io.input? 0).shape

end Family

end DataflowCost
