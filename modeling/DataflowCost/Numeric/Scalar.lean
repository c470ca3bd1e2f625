/-! The arithmetic in which cost formulas are written. The same formulas run in binary64, where every
step rounds, and hold in an exact field, where the steps are the field operations. -/
namespace DataflowCost

class Scalar (α : Type) extends Add α, Sub α, Mul α, Div α, OfScientific α where
  ofNat : Nat → α
  /-- The neutral element of addition, which is the value of an empty sum. -/
  addUnit : α
  minimum : α → α → α
  maximum : α → α → α
  abs : α → α
  sqrt : α → α
  binaryLog : α → α
  floor : α → α
  ceil : α → α
  lt : α → α → Bool
  le : α → α → Bool

/-- In binary64 negative zero is neutral, and a minimum or maximum passes over a NaN operand. -/
instance : Scalar Float where
  ofNat := Float.ofNat
  addUnit := -0.0
  minimum a b := if a < b || b.isNaN then a else b
  maximum a b := if b < a || b.isNaN then a else b
  abs := Float.abs
  sqrt := Float.sqrt
  binaryLog := Float.log2
  floor := Float.floor
  ceil := Float.ceil
  lt a b := a < b
  le a b := a ≤ b

namespace Scalar

variable {α : Type} [Scalar α]

def sum (xs : List α) : α := xs.foldl (· + ·) addUnit

def product (xs : List α) : α := xs.foldl (· * ·) 1.0

/-- The element count of an extent list, multiplied up in the scalar arithmetic. -/
def volume (dims : List Nat) : α := product (dims.map ofNat)

/-- Binary logarithm of a value read as at least one, hence never negative. -/
def log2 (value : α) : α := binaryLog (maximum value 1.0)

def capped (value cap : α) : α := minimum value cap

/-- The time charged for work that touches no element. -/
def negligibleTime : α := 1e-6

end Scalar

end DataflowCost
