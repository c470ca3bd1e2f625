/-! Activations that an operator can apply to its own result. -/
namespace DataflowCost

inductive Activation where
  | none | relu | sigmoid | tanh
deriving DecidableEq, Repr

namespace Activation

def all : List Activation := [none, relu, sigmoid, tanh]

def tag : Activation → Int
  | none => 0
  | relu => 1
  | sigmoid => 2
  | tanh => 3

def name : Activation → String
  | none => "None"
  | relu => "Relu"
  | sigmoid => "Sigmoid"
  | tanh => "Tanh"

def isSome (a : Activation) : Bool := a != none

/-- The attribute text of an operator that shows its activation only when it has one. -/
def described (a : Activation) : String :=
  if a.isSome then "act=" ++ a.name ++ "," else ""

end Activation

end DataflowCost
