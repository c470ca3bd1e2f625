import DataflowCost.Config.Basic

/-! The names of the settings, and the words for their values. -/
namespace DataflowCost

inductive Setting where
  | worldSize | memoryUnit | parallelism | fuseEpsilon | profile
deriving DecidableEq, Repr

namespace Setting

/-- The settings in the order of documents. -/
def all : List Setting := [worldSize, memoryUnit, parallelism, fuseEpsilon, profile]

def name : Setting → String
  | worldSize => "world_size"
  | memoryUnit => "memory_unit"
  | parallelism => "parallelism"
  | fuseEpsilon => "fuse_epsilon"
  | profile => "profile"

/-- The environment variable that overrides the setting. -/
def environmentKey : Setting → String
  | worldSize => "TENSORCOST_WORLD_SIZE"
  | memoryUnit => "TENSORCOST_MEMORY_UNIT"
  | parallelism => "TENSORCOST_PARALLELISM"
  | fuseEpsilon => "TENSORCOST_FUSE_EPSILON"
  | profile => "TENSORCOST_PROFILE"

end Setting

def MemoryUnit.ofName? (name : String) : Option MemoryUnit := all.find? (·.name == name)

def Reducer.ofName? (name : String) : Option Reducer := all.find? (·.name == name)

theorem MemoryUnit.ofName?_name (u : MemoryUnit) : ofName? u.name = some u := by
  cases u <;> rfl

theorem Reducer.ofName?_name (r : Reducer) : ofName? r.name = some r := by
  cases r <;> rfl

end DataflowCost
