import DataflowCost.Graph.Tensor

/-! Why a graph turns a call down. A call that is turned down leaves the graph as it was. -/
namespace DataflowCost

/-- The lists whose length an arity fixes. -/
inductive ArityOf where
  | inputs | outputs | inferredOutputs
deriving DecidableEq, Repr

def ArityOf.text : ArityOf → String
  | inputs => "inputs"
  | outputs => "outputs"
  | inferredOutputs => "inferred outputs"

inductive GraphError where
  | unknownTensor (id : TensorId)
  | unknownOp (id : OpId)
  | arity (kind : Kind) (what : ArityOf) (expected : String) (found : Nat)
  | invalidOperator (kind : Kind) (inputs : List TensorType) (reason : Reason)
  | unsupported (kind : Kind) (feature : Feature)
  | outputMismatch (kind : Kind) (id : TensorId) (expected found : TensorType)
  | invalidConstant (expected : TensorType) (found : Nat) (foundType : DType)
  | alreadyProduced (id : TensorId) (producer : OpId)
  | cycle (remaining : Nat)

def GraphError.message : GraphError → String
  | unknownTensor id => "tensor " ++ id.text ++ " does not belong to this graph"
  | unknownOp id => "operator " ++ id.quoted ++ " does not belong to this graph"
  | arity kind what expected found =>
    kind.name ++ " expects " ++ expected ++ " " ++ what.text ++ ", got " ++ toString found
  | invalidOperator kind inputs reason =>
    kind.name ++ " rejected inputs " ++ ", ".intercalate (inputs.map TensorType.text) ++ ": " ++
      reason.message
  | unsupported kind feature => kind.name ++ ": " ++ feature.text ++ " is not supported"
  | outputMismatch kind id expected found =>
    kind.name ++ " infers " ++ expected.shape.text ++ " (" ++ expected.dtype.name ++
      ") for output " ++ id.text ++ " but it is declared as " ++ found.shape.text ++ " (" ++
      found.dtype.name ++ ")"
  | invalidConstant expected found foundType =>
    "constant payload of " ++ toString found ++ " " ++ foundType.name ++
      " value(s) does not fill " ++ expected.shape.text ++ " (" ++ expected.dtype.name ++ ")"
  | alreadyProduced id producer =>
    "tensor " ++ id.text ++ " is already produced by operator " ++ producer.quoted
  | cycle remaining => "graph contains a cycle through " ++ toString remaining ++ " operator(s)"

/-- A call fails with an error, or an index or divisor left its domain. -/
inductive Failure where
  | error (cause : GraphError)
  | fault

/-- The failure of a call whose inference was refused. -/
def Failure.ofRefusal (kind : Kind) (inputs : List TensorType) : Refusal → Failure
  | .invalid reason => error (.invalidOperator kind inputs reason)
  | .unsupported feature => error (.unsupported kind feature)
  | .fault => fault

/-- Inference as a part of a call on a graph. -/
def Inference.within {α : Type} (kind : Kind) (inputs : List TensorType) (r : Inference α) :
    Except Failure α :=
  r.mapError (Failure.ofRefusal kind inputs)

end DataflowCost
