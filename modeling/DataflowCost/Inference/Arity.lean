/-! How many inputs an operator takes and how many outputs it makes. -/
namespace DataflowCost

structure Arity where
  least : Nat
  /-- `none` when the number of inputs is not bounded. -/
  greatest : Option Nat
  outputs : Nat
deriving DecidableEq, Repr

namespace Arity

def exact (inputs outputs : Nat) : Arity := ⟨inputs, some inputs, outputs⟩

def between (least greatest outputs : Nat) : Arity := ⟨least, some greatest, outputs⟩

def atLeast (least outputs : Nat) : Arity := ⟨least, none, outputs⟩

def accepts (a : Arity) (inputs : Nat) : Bool :=
  a.least ≤ inputs && a.greatest.all fun greatest => inputs ≤ greatest

/-- The number of inputs as messages give it. -/
def inputsText (a : Arity) : String :=
  match a.greatest with
  | none => "at least " ++ toString a.least
  | some greatest =>
    if a.least = greatest then toString a.least
    else toString a.least ++ " to " ++ toString greatest

end Arity

end DataflowCost
