import DataflowCost.Graph.View

/-! Growth of graphs in place: the same calls as reads and writes, one after the other. A position
that is not there is a fault, and what was written before a failure stays written. -/
namespace DataflowCost

/-- A computation on a graph and the next free guid. -/
abbrev Update := EStateM Failure (Graph × Nat)

namespace Graph

open OpView (orFault)

/-- The operators that read one of the tensors. All of them are looked up. -/
def lookUpReaders (g : Graph) (ids : List TensorId) : Except Failure (List OpId) := do
  let readers ← ids.mapM fun id => do
    let t ← orFault (g.tensor? id)
    t.consumers.mapM fun o => do
      let _ ← orFault (g.node? o)
      return o
  return readers.flatten

/-- The tensors that the operators write. -/
def lookUpWritten (g : Graph) (ids : List OpId) : Except Failure (List TensorId) := do
  let written ← ids.mapM fun id => do return (← orFault (g.node? id)).outputs
  return written.flatten

/-- The operators in `rest` that are reached from the tensors in `frontier`. -/
def lookUpDownstream (g : Graph) (rest : List OpId) (frontier : List TensorId) :
    Except Failure (List OpId) := do
  let readers ← g.lookUpReaders frontier
  let layers := divide readers rest
  if layers.1.isEmpty then return []
  else return layers.1 ++ (← lookUpDownstream g layers.2 (← g.lookUpWritten layers.1))
termination_by rest.length
decreasing_by
  rename_i h _
  have hpos : 0 < layers.1.length := List.length_pos_iff.mpr (by simpa using h)
  have := length_divide readers rest
  simp only [layers] at hpos ⊢
  omega

/-- The search for a cycle, every entry that it reads being looked up. -/
def lookUpCycle (g : Graph) (inputs outputs : List TensorId) : Except Failure (Option Nat) := do
  let reached ← g.lookUpDownstream g.opIds outputs
  let written := outputs ++ (← g.lookUpWritten reached)
  return if written.any (inputs.contains ·) then some (reached.length + 1) else none

end Graph

namespace Update

variable {α : Type}

/-- A part of a call that only reads. -/
def read (f : Graph → Except Failure α) : Update α := fun s =>
  match f s.1 with
  | .ok a => .ok a s
  | .error e => .error e s

def takeGuid : Update Nat := fun s => .ok s.2 (s.1, s.2 + 1)

def write (f : Graph → Graph) : Update Unit := fun s => .ok () (f s.1, s.2)

def writeTensor (f : Tensor → Tensor) (id : TensorId) : Update Unit := fun s =>
  match s.1.tensor? id with
  | some t => .ok () ({ s.1 with tensors := s.1.tensors.set id.index (f t) }, s.2)
  | none => .error .fault s

def addTensor (type : TensorType) (payload : Option Payload := none) : Update TensorId := do
  let id ← read fun g => .ok ⟨g.tensors.length⟩
  let guid ← takeGuid
  write fun g => { g with tensors := g.tensors ++ [⟨id, guid, type, payload, none, []⟩] }
  return id

def addConstant (type : TensorType) (payload : Payload) : Update TensorId :=
  if payload.length = type.size ∧ payload.dtype = type.dtype then addTensor type (some payload)
  else throw (.error (.invalidConstant type payload.length payload.dtype))

/-- A tensor that an operator reads, also if it reads it once more. -/
def readBy (id : OpId) (t : Tensor) : Tensor :=
  if id ∈ t.consumers then t else { t with consumers := t.consumers ++ [id] }

def writtenBy (id : OpId) (t : Tensor) : Tensor := { t with producer := some id }

def register (op : Operator) (inputs outputs : List TensorId) : Update OpId := do
  let id ← read fun g => .ok ⟨g.nodes.length⟩
  let guid ← takeGuid
  inputs.forM (writeTensor (readBy id))
  outputs.forM (writeTensor (writtenBy id))
  write fun g => { g with nodes := g.nodes ++ [⟨guid, op, inputs, outputs⟩] }
  return id

def addOp [Build] (op : Operator) (inputs : List TensorId) : Update OpId := do
  let inferred ← read fun g => g.infer op inputs
  let outputs ← inferred.outputs.mapM fun type => addTensor type
  register inferred.op inputs outputs

def addOpInto [Build] (op : Operator) (inputs outputs : List TensorId) : Update OpId := do
  let inferred ← read fun g => g.infer op inputs
  if outputs.length = inferred.outputs.length then
    read fun g => g.checkOutputs inferred.op.kind [] (outputs.zip inferred.outputs)
    match ← read fun g => g.lookUpCycle inputs outputs with
    | some remaining => throw (.error (.cycle remaining))
    | none => register inferred.op inputs outputs
  else
    throw (.error (.arity inferred.op.kind .outputs (toString inferred.outputs.length)
      outputs.length))

end Update

end DataflowCost
