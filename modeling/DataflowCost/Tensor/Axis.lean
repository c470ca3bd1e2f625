import DataflowCost.Inference.Outcome

/-! Axis references. A negative axis counts from the last one; an axis list names each axis once. -/
namespace DataflowCost.Axis

/-- The position that an axis names, whether or not it is in range. -/
def wrap (axis : Int) (rank : Nat) : Int := if axis < 0 then axis + rank else axis

def resolve (axis : Int) (rank : Nat) : Inference Nat :=
  let position := wrap axis rank
  if 0 ≤ position ∧ position < rank then .ok position.toNat
  else .invalid (.axisOutOfRange axis rank)

/-- Positions in the order in which the entries name them. -/
def resolveEach (rank : Nat) (axes : List Int) : Inference (List Nat) :=
  go axes []
where
  go : List Int → List Nat → Inference (List Nat)
    | [], _ => .ok []
    | axis :: rest, seen => do
      let position ← resolve axis rank
      if position ∈ seen then .invalid (.duplicateAxis axis axes)
      else return position :: (← go rest (position :: seen))

/-- The named positions in ascending order. -/
def resolveSet (rank : Nat) (axes : List Int) : Inference (List Nat) := do
  return (← resolveEach rank axes).mergeSort

end DataflowCost.Axis
