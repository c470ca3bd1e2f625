import DataflowCost.Graph.Build

/-! Calls that keep a record of what they ask the host. Values are asked for one tensor at a time, and a
call that fails has asked for what it asked for until then. -/
namespace DataflowCost

/-- A computation that may ask a host, with the tensors it has asked for so far. -/
abbrev Inquiry (ε : Type) := EStateM ε (List Tensor)

namespace Inquiry

variable {ε α : Type}

/-- A part that asks for nothing. -/
def settled : Except ε α → Inquiry ε α
  | .ok a => pure a
  | .error e => throw e

/-- What a host says of a tensor. -/
def ask (host : Host) (t : Tensor) : Inquiry ε (Except String (Option Payload)) := do
  modify (· ++ [t])
  return host t

end Inquiry

open Inquiry

/-- Finishes a resolution, asking for values one question after the other. -/
def Preparation.inquire {δ : Type} (p : Preparation Float32 δ) (host : Host)
    (inputs : List Tensor) : Inquiry Refusal δ :=
  match p with
  | done outcome => settled outcome
  | askInts input next => do
    let t ← settled (Inference.present inputs[input]?)
    let answer ← ask host t
    let values ← settled (Host.ints (fun _ => answer) t)
    (next t.guid values).inquire host inputs
  | askReals input next => do
    let t ← settled (Inference.present inputs[input]?)
    let answer ← ask host t
    let values ← settled (Host.reals (fun _ => answer) t)
    (next t.guid values).inquire host inputs

namespace Graph

/-- Inference, the host being asked when attributes are resolved. -/
def inferAsking [Build] (g : Graph) (op : Operator) (inputs : List TensorId) :
    Inquiry Failure Inferred := do
  let tensors ← settled (g.operands op inputs)
  let types := tensors.map Tensor.type
  let prepared ← EStateM.adaptExcept (Failure.ofRefusal op.kind types)
    ((op.prepare types).inquire g.host tensors)
  let shapes ← settled ((prepared.outShapes types).within op.kind types)
  let dtypes ← settled ((prepared.outTypes types).within op.kind types)
  let outputs := op.arity.outputs
  if shapes.length = outputs ∧ dtypes.length = outputs then
    return ⟨prepared, shapes.zipWith TensorType.mk dtypes⟩
  else
    throw (.error (.arity op.kind .inferredOutputs (toString outputs)
      (min shapes.length dtypes.length)))

def addOpAsking [Build] (g : Graph) (guid : Nat) (op : Operator) (inputs : List TensorId) :
    Inquiry Failure (Extended OpId) := do
  let inferred ← g.inferAsking op inputs
  let made := g.addTensors guid inferred.outputs
  return made.graph.register made.nextGuid inferred.op inputs made.id

def addOpIntoAsking [Build] (g : Graph) (guid : Nat) (op : Operator) (inputs outputs : List TensorId) :
    Inquiry Failure (Extended OpId) := do
  let inferred ← g.inferAsking op inputs
  let count := inferred.outputs.length
  if outputs.length ≠ count then
    throw (.error (.arity inferred.op.kind .outputs (toString count) outputs.length))
  settled (g.checkOutputs inferred.op.kind [] (outputs.zip inferred.outputs))
  match g.closesCycle inputs outputs with
  | some remaining => throw (.error (.cycle remaining))
  | none => return g.register guid inferred.op inputs outputs

end Graph

end DataflowCost
