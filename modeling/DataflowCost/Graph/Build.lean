import DataflowCost.Graph.Order

/-! Growth of graphs. A new tensor takes the next guid; a new operator takes one after the outputs that
were made for it. A call that fails takes none and changes nothing. -/
namespace DataflowCost

/-- What a successful call leaves: the graph, the next free guid, and the identity of what is new. -/
structure Extended (ι : Type) where
  graph : Graph
  nextGuid : Nat
  id : ι

namespace Graph

def addTensor (g : Graph) (guid : Nat) (type : TensorType) (payload : Option Payload := none) :
    Extended TensorId :=
  let id : TensorId := ⟨g.tensors.length⟩
  ⟨{ g with tensors := g.tensors ++ [⟨id, guid, type, payload, none, []⟩] }, guid + 1, id⟩

/-- A tensor with values, which have to fill it and be of its type. -/
def addConstant (g : Graph) (guid : Nat) (type : TensorType) (payload : Payload) :
    Except Failure (Extended TensorId) :=
  if payload.length = type.size ∧ payload.dtype = type.dtype then
    .ok (g.addTensor guid type (some payload))
  else .error (.error (.invalidConstant type payload.length payload.dtype))

def addTensors (g : Graph) (guid : Nat) : List TensorType → Extended (List TensorId)
  | [] => ⟨g, guid, []⟩
  | type :: rest =>
    let first := g.addTensor guid type
    let others := addTensors first.graph first.nextGuid rest
    { others with id := first.id :: others.id }

/-- An operator with its attributes resolved, and the types of its outputs. -/
structure Inferred where
  op : Operator
  outputs : List TensorType

/-- The inputs of an operator, in a number that its arity accepts. -/
def operands (g : Graph) (op : Operator) (inputs : List TensorId) :
    Except Failure (List Tensor) := do
  let tensors ← inputs.mapM g.tensor
  if op.arity.accepts tensors.length then return tensors
  else .error (.error (.arity op.kind .inputs op.arity.inputsText tensors.length))

def infer [Build] (g : Graph) (op : Operator) (inputs : List TensorId) : Except Failure Inferred := do
  let tensors ← g.operands op inputs
  let types := tensors.map Tensor.type
  let prepared ← ((op.prepare types).run g.host tensors).within op.kind types
  let shapes ← (prepared.outShapes types).within op.kind types
  let dtypes ← (prepared.outTypes types).within op.kind types
  let outputs := op.arity.outputs
  if shapes.length = outputs ∧ dtypes.length = outputs then
    return ⟨prepared, shapes.zipWith TensorType.mk dtypes⟩
  else
    .error (.error (.arity op.kind .inferredOutputs (toString outputs)
      (min shapes.length dtypes.length)))

/-- The tensor whose values the host is asked for when an operator is inferred. -/
def consulted [Build] (g : Graph) (op : Operator) (inputs : List TensorId) : Option TensorId :=
  match g.operands op inputs with
  | .ok tensors =>
    (op.prepare (tensors.map Tensor.type)).awaited.bind fun i => inputs[i]?
  | .error _ => none

/-- A tensor with its links to an operator that reads `inputs` and writes `outputs`. -/
def link (id : OpId) (inputs outputs : List TensorId) (t : Tensor) : Tensor :=
  { t with
    producer := if t.id ∈ outputs then some id else t.producer
    consumers := if t.id ∈ inputs then t.consumers ++ [id] else t.consumers }

def register (g : Graph) (guid : Nat) (op : Operator) (inputs outputs : List TensorId) :
    Extended OpId :=
  let id : OpId := ⟨g.nodes.length⟩
  ⟨{ g with
      tensors := g.tensors.map (link id inputs outputs)
      nodes := g.nodes ++ [⟨guid, op, inputs, outputs⟩] }, guid + 1, id⟩

/-- Adds an operator and makes its outputs. -/
def addOp [Build] (g : Graph) (guid : Nat) (op : Operator) (inputs : List TensorId) :
    Except Failure (Extended OpId) := do
  let inferred ← g.infer op inputs
  let made := g.addTensors guid inferred.outputs
  return made.graph.register made.nextGuid inferred.op inputs made.id

/-- Declared outputs have to exist, be nobody's output, differ from each other, and have the inferred
types; the first that does not decides. -/
def checkOutputs (g : Graph) (kind : Kind) :
    List TensorId → List (TensorId × TensorType) → Except Failure Unit
  | _, [] => .ok ()
  | seen, (id, expected) :: rest => do
    let t ← g.tensor id
    match t.producer with
    | some producer => .error (.error (.alreadyProduced id producer))
    | none =>
      if id ∈ seen then .error (.error (.alreadyProduced id ⟨g.nodes.length⟩))
      else if t.type = expected then checkOutputs g kind (id :: seen) rest
      else .error (.error (.outputMismatch kind id expected t.type))

/-- Adds an operator that writes tensors which are there already. -/
def addOpInto [Build] (g : Graph) (guid : Nat) (op : Operator) (inputs outputs : List TensorId) :
    Except Failure (Extended OpId) := do
  let inferred ← g.infer op inputs
  let count := inferred.outputs.length
  if outputs.length ≠ count then
    .error (.error (.arity inferred.op.kind .outputs (toString count) outputs.length))
  g.checkOutputs inferred.op.kind [] (outputs.zip inferred.outputs)
  match g.closesCycle inputs outputs with
  | some remaining => .error (.error (.cycle remaining))
  | none => return g.register guid inferred.op inputs outputs

end Graph

end DataflowCost
