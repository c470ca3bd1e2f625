import DataflowCost.Inference.Outcome

/-! Attribute resolution. It finishes on the types of the inputs, or it asks for the values of an input and
goes on with them. -/
namespace DataflowCost

/-- A question names the input whose values are needed; it is answered with the guid of that input and
its values, if it has any. The scalars of a floating payload are of type `ρ`. -/
inductive Preparation (ρ δ : Type) where
  | done (outcome : Inference δ)
  | askInts (input : Nat) (next : Nat → Option (List Int) → Preparation ρ δ)
  | askReals (input : Nat) (next : Nat → Option (List ρ) → Preparation ρ δ)

namespace Preparation

variable {ρ δ ε : Type}

def map (f : δ → ε) : Preparation ρ δ → Preparation ρ ε
  | done outcome => done (f <$> outcome)
  | askInts input next => askInts input fun guid values => (next guid values).map f
  | askReals input next => askReals input fun guid values => (next guid values).map f

/-- The first input whose values are needed. -/
def awaited : Preparation ρ δ → Option Nat
  | done _ => none
  | askInts input _ => some input
  | askReals input _ => some input

/-- Finishes on the integers of an input. -/
def awaitInts (input : Nat) (resume : Nat → Option (List Int) → Inference δ) : Preparation ρ δ :=
  askInts input fun guid values => done (resume guid values)

/-- Finishes on the floating values of an input. -/
def awaitReals (input : Nat) (resume : Nat → Option (List ρ) → Inference δ) : Preparation ρ δ :=
  askReals input fun guid values => done (resume guid values)

/-- Continues with a resolution that depends on a checked value. -/
def after {σ : Type} (check : Inference σ) (next : σ → Preparation ρ δ) : Preparation ρ δ :=
  match check with
  | .ok s => next s
  | .error e => done (.error e)

end Preparation

end DataflowCost
