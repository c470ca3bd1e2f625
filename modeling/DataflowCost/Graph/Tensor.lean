import DataflowCost.Inference.Preparation
import DataflowCost.Tensor.Payload

/-! The tensors of a graph, and the host that may know their values. -/
namespace DataflowCost

/-- A position among the tensors of a graph. -/
structure TensorId where
  index : Nat
deriving DecidableEq, Repr

def TensorId.text (id : TensorId) : String := "%t" ++ toString id.index

/-- A position among the operators of a graph. -/
structure OpId where
  index : Nat
deriving DecidableEq, Repr

namespace OpId

def text (id : OpId) : String := "%op" ++ toString id.index

/-- The form used inside error messages. -/
def quoted (id : OpId) : String := "OpId(" ++ toString id.index ++ ")"

end OpId

structure Tensor where
  id : TensorId
  guid : Nat
  type : TensorType
  payload : Option Payload
  /-- The operator that writes the tensor. -/
  producer : Option OpId
  /-- The operators that read the tensor, in the order of their registration. -/
  consumers : List OpId

/-- What a host knows of the values of a tensor; it may also fail, with a text of its own. -/
abbrev Host := Tensor → Except String (Option Payload)

namespace Host

/-- Knows exactly the attached constants. -/
def resident : Host := fun t => .ok t.payload

def ints (h : Host) (t : Tensor) : Inference (Option (List Int)) :=
  match h t with
  | .error text => .invalid (.hostFailure text)
  | .ok none => .ok none
  | .ok (some (.ints64 values)) => .ok (some values)
  | .ok (some (.ints32 values)) => .ok (some values)
  | .ok (some (.reals _)) => .invalid (.floatingPayload t.guid)

def reals (h : Host) (t : Tensor) : Inference (Option (List Float32)) :=
  match h t with
  | .error text => .invalid (.hostFailure text)
  | .ok none => .ok none
  | .ok (some (.reals values)) => .ok (some values)
  | .ok (some _) => .invalid (.integerPayload t.guid)

end Host

/-- Finishes a resolution with the values that a host knows of the inputs asked for. -/
def Preparation.run {δ : Type} (p : Preparation Float32 δ) (host : Host) (inputs : List Tensor) :
    Inference δ :=
  match p with
  | done outcome => outcome
  | askInts input next => do
    let t ← Inference.present inputs[input]?
    (next t.guid (← host.ints t)).run host inputs
  | askReals input next => do
    let t ← Inference.present inputs[input]?
    (next t.guid (← host.reals t)).run host inputs

end DataflowCost
