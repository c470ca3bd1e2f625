import DataflowCost.Inference.Outcome

/-! Broadcasting. Shapes are aligned at their last axes, a missing axis counts as one, and an extent of
one stretches to its partner. -/
namespace DataflowCost.Shape

def joinExtent (a b : Nat) : Option Nat :=
  if a = b then some a else if a = 1 then some b else if b = 1 then some a else none

/-- The shape with unit axes in front, up to a given rank. -/
def alignTo (rank : Nat) (s : Shape) : Shape := List.replicate (rank - s.length) 1 ++ s

/-- Joins two lists of one length; on failure the outermost pair that does not join. -/
def joinAligned : List Nat → List Nat → Except (Nat × Nat) Shape
  | a :: as, b :: bs =>
    match joinExtent a b with
    | some c => (joinAligned as bs).map (c :: ·)
    | none => .error (a, b)
  | _, _ => .ok []

def broadcast (lhs rhs : Shape) : Inference Shape :=
  let rank := max lhs.length rhs.length
  match joinAligned (alignTo rank lhs) (alignTo rank rhs) with
  | .ok s => .ok s
  | .error (a, b) => .invalid (.notBroadcastable lhs rhs a b)

def broadcastAll (shapes : List Shape) : Inference Shape :=
  shapes.foldlM broadcast []

/-- Whether stretching `small` alone gives `target`. -/
def broadcastsInto (target small : Shape) : Bool :=
  match broadcast target small with
  | .ok s => s == target
  | .error _ => false

end DataflowCost.Shape
