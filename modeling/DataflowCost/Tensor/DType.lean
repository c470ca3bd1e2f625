/-! Element types: their width in bytes and the integer tag that names each in key vectors. -/
namespace DataflowCost

inductive DType where
  | float32 | float16 | bfloat16 | float64
  | int8 | int16 | int32 | int64
  | uint8 | uint16 | uint32 | uint64
  | bool
deriving DecidableEq, Repr

namespace DType

def all : List DType :=
  [float32, float16, bfloat16, float64, int8, int16, int32, int64,
    uint8, uint16, uint32, uint64, bool]

def bytes : DType → Nat
  | float64 | int64 | uint64 => 8
  | float32 | int32 | uint32 => 4
  | float16 | bfloat16 | int16 | uint16 => 2
  | int8 | uint8 | bool => 1

def isFloat : DType → Bool
  | float32 | float16 | bfloat16 | float64 => true
  | _ => false

def isInteger : DType → Bool
  | int8 | int16 | int32 | int64 | uint8 | uint16 | uint32 | uint64 => true
  | _ => false

def tag : DType → Nat
  | float32 => 1
  | uint8 => 2
  | int8 => 3
  | uint16 => 4
  | int16 => 5
  | int32 => 6
  | int64 => 7
  | bool => 9
  | float16 => 10
  | float64 => 11
  | uint32 => 12
  | uint64 => 13
  | bfloat16 => 16

def ofTag? (tag : Nat) : Option DType := all.find? (·.tag == tag)

def name : DType → String
  | float32 => "Float32"
  | float16 => "Float16"
  | bfloat16 => "BFloat16"
  | float64 => "Float64"
  | int8 => "Int8"
  | int16 => "Int16"
  | int32 => "Int32"
  | int64 => "Int64"
  | uint8 => "UInt8"
  | uint16 => "UInt16"
  | uint32 => "UInt32"
  | uint64 => "UInt64"
  | bool => "Bool"

theorem ofTag?_tag (d : DType) : ofTag? d.tag = some d := by
  cases d <;> rfl

end DType

end DataflowCost
