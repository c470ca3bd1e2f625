import DataflowCost.Inference.Reason

/-! Inference either answers or is refused: the inputs are invalid, the feature is missing, or an index or
divisor is out of its domain. The last is a fault, and which inputs reach it is a theorem's matter. -/
namespace DataflowCost

inductive Refusal where
  | invalid (reason : Reason)
  | unsupported (feature : Feature)
  | fault

abbrev Inference := Except Refusal

namespace Inference

variable {α : Type}

def invalid (reason : Reason) : Inference α := .error (.invalid reason)

def unsupported (feature : Feature) : Inference α := .error (.unsupported feature)

def require (p : Prop) [Decidable p] (reason : Reason) : Inference Unit :=
  if p then .ok () else invalid reason

/-- An entry that has to be present. -/
def present : Option α → Inference α
  | some a => .ok a
  | none => .error .fault

/-- The list with one entry, which has to be present, overwritten. -/
def overwrite (xs : List α) (i : Nat) (a : α) : Inference (List α) :=
  if i < xs.length then .ok (xs.set i a) else .error .fault

def quotient (a b : Nat) : Inference Nat := if b = 0 then .error .fault else .ok (a / b)

def quotientUp (a b : Nat) : Inference Nat :=
  if b = 0 then .error .fault else .ok ((a + b - 1) / b)

def remainder (a b : Nat) : Inference Nat := if b = 0 then .error .fault else .ok (a % b)

end Inference

end DataflowCost
