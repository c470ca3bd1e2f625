import DataflowCost.Numeric.NumberFormat
import DataflowCost.Numeric.Scalar

/-! Settings of the cost model: the communicator width, the unit of memory figures, how parallelism is
folded over a graph, and the relative window inside which two figures tie. -/
namespace DataflowCost

inductive MemoryUnit where
  | elements | bytes
deriving DecidableEq, Repr

def MemoryUnit.name : MemoryUnit → String
  | elements => "elements"
  | bytes => "bytes"

def MemoryUnit.all : List MemoryUnit := [elements, bytes]

/-- How the parallelism of single operators becomes one figure for a graph. -/
inductive Reducer where
  | min | max | sum
deriving DecidableEq, Repr

def Reducer.name : Reducer → String
  | min => "min"
  | max => "max"
  | sum => "sum"

def Reducer.all : List Reducer := [min, max, sum]

structure Config (α : Type) where
  worldSize : Nat
  memoryUnit : MemoryUnit
  parallelism : Reducer
  fuseEpsilon : α
  profile : Bool

/-- The settings that hold where nothing else is said. -/
def Config.standard {α : Type} [Scalar α] : Config α :=
  ⟨8, .elements, .min, 1e-9, false⟩

inductive ConfigError where
  | malformed
  | zeroWorldSize
  | invalidValue (key value : String)
deriving DecidableEq, Repr

def ConfigError.message : ConfigError → String
  | malformed => "json error"
  | zeroWorldSize => "world size must be at least 1"
  | invalidValue key value => "invalid value '" ++ value ++ "' for " ++ key

/-- A width of at least one and a finite window that is not negative. -/
def Config.validate (c : Config Float) : Except ConfigError (Config Float) :=
  if c.worldSize = 0 then .error .zeroWorldSize
  else if c.fuseEpsilon.isFinite && 0.0 ≤ c.fuseEpsilon then .ok c
  else .error (.invalidValue "fuse_epsilon" (NumberFormat.plain.float c.fuseEpsilon))

end DataflowCost
