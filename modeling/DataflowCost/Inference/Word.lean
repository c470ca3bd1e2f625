import DataflowCost.Inference.Outcome

/-! Arithmetic on extents. Extents and counts are words of 64 bits, bounds are such words with a sign, and
what becomes of a result that no word holds is a matter of the build. -/
namespace DataflowCost

/-- What a build makes of a result that no word holds. -/
inductive Overflow where
  /-- Integers have no bound, and the result is kept as it is. -/
  | exact
  /-- The word that is congruent to the result takes its place. -/
  | wraps
  /-- The computation ends in a fault. -/
  | traps
deriving DecidableEq, Repr

/-- What depends on how a program is built. -/
class Build where
  overflow : Overflow

namespace ExactArithmetic

/-- What reads integers as exact is stated of the build in which they have no bound. -/
scoped instance instBuild : Build := ⟨.exact⟩

end ExactArithmetic

namespace WrappingArithmetic

scoped instance instBuild : Build := ⟨.wraps⟩

end WrappingArithmetic

namespace Word

/-- The number of words. -/
def limit : Nat := Nat.pow 2 64

/-- A number moved to the nearest one between two bounds, which have to be in order. -/
def clamp (least greatest z : Int) : Inference Int :=
  if least ≤ greatest then .ok (max least (min z greatest)) else .error .fault

section Overflow

variable [Build]

/-- An unsigned result. -/
def unsigned (n : Nat) : Inference Nat :=
  match Build.overflow with
  | .exact => .ok n
  | .wraps => .ok (n % limit)
  | .traps => if n < limit then .ok n else .error .fault

/-- A signed result. -/
def signed (z : Int) : Inference Int :=
  match Build.overflow with
  | .exact => .ok z
  | .wraps => .ok (z.bmod limit)
  | .traps => if z.bmod limit = z then .ok z else .error .fault

/-- An unsigned word read as a signed one. A word is read, not computed, so no build has a fault here. -/
def toSigned (n : Nat) : Int :=
  match Build.overflow with
  | .exact => n
  | .wraps | .traps => (n : Int).bmod limit

def add (a b : Nat) : Inference Nat := unsigned (a + b)

def mul (a b : Nat) : Inference Nat := unsigned (a * b)

/-- The factors multiplied one after the other. -/
def product (factors : List Nat) : Inference Nat := factors.foldlM mul 1

/-- The terms added one after the other. -/
def sum (terms : List Nat) : Inference Nat := terms.foldlM add 0

end Overflow

end Word

end DataflowCost
