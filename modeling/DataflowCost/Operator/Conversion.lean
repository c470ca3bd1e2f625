import DataflowCost.Tensor.DType

/-! The element type conversions that a cast can perform. -/
namespace DataflowCost

inductive Conversion where
  | float32ToFloat16
  | float32ToInt64
  | float32ToInt32
  | float32ToInt16
  | float32ToInt8
  | float32ToBFloat16
  | int32ToFloat32
  | int32ToInt8
  | int32ToInt16
  | int32ToInt64
  | int16ToFloat32
  | int16ToInt32
  | int8ToFloat32
  | int8ToInt16
  | int8ToInt32
  | uint8ToFloat32
  | uint8ToInt32
  | uint8ToInt64
  | int64ToInt32
  | int64ToUInt32
  | int64ToFloat32
  | uint32ToInt64
  | float16ToFloat32
  | bfloat16ToFloat32
  | float32ToFloat32
deriving DecidableEq, Repr

namespace Conversion

/-- Conversions in the order of their ordinals. -/
def all : List Conversion :=
  [.float32ToFloat16, .float32ToInt64, .float32ToInt32, .float32ToInt16, .float32ToInt8,
    .float32ToBFloat16, .int32ToFloat32, .int32ToInt8, .int32ToInt16, .int32ToInt64,
    .int16ToFloat32, .int16ToInt32, .int8ToFloat32, .int8ToInt16, .int8ToInt32,
    .uint8ToFloat32, .uint8ToInt32, .uint8ToInt64, .int64ToInt32, .int64ToUInt32,
    .int64ToFloat32, .uint32ToInt64, .float16ToFloat32, .bfloat16ToFloat32, .float32ToFloat32]

def ordinal (c : Conversion) : Nat := all.idxOf c

def name : Conversion → String
  | .float32ToFloat16 => "Float2Float16"
  | .float32ToInt64 => "Float2Int64"
  | .float32ToInt32 => "Float2Int32"
  | .float32ToInt16 => "Float2Int16"
  | .float32ToInt8 => "Float2Int8"
  | .float32ToBFloat16 => "Float2BFloat16"
  | .int32ToFloat32 => "Int322Float"
  | .int32ToInt8 => "Int322Int8"
  | .int32ToInt16 => "Int322Int16"
  | .int32ToInt64 => "Int322Int64"
  | .int16ToFloat32 => "Int162Float"
  | .int16ToInt32 => "Int162Int32"
  | .int8ToFloat32 => "Int82Float"
  | .int8ToInt16 => "Int82Int16"
  | .int8ToInt32 => "Int82Int32"
  | .uint8ToFloat32 => "Uint82Float"
  | .uint8ToInt32 => "Uint82Int32"
  | .uint8ToInt64 => "Uint82Int64"
  | .int64ToInt32 => "Int642Int32"
  | .int64ToUInt32 => "Int642Uint32"
  | .int64ToFloat32 => "Int642Float"
  | .uint32ToInt64 => "Uint322Int64"
  | .float16ToFloat32 => "Float162Float"
  | .bfloat16ToFloat32 => "BFloat162Float"
  | .float32ToFloat32 => "Float2Float"

def source : Conversion → DType
  | .float32ToFloat16 | .float32ToInt64 | .float32ToInt32 | .float32ToInt16
  | .float32ToInt8 | .float32ToBFloat16 | .float32ToFloat32 => .float32
  | .int32ToFloat32 | .int32ToInt8 | .int32ToInt16 | .int32ToInt64 => .int32
  | .int16ToFloat32 | .int16ToInt32 => .int16
  | .int8ToFloat32 | .int8ToInt16 | .int8ToInt32 => .int8
  | .uint8ToFloat32 | .uint8ToInt32 | .uint8ToInt64 => .uint8
  | .int64ToInt32 | .int64ToUInt32 | .int64ToFloat32 => .int64
  | .uint32ToInt64 => .uint32
  | .float16ToFloat32 => .float16
  | .bfloat16ToFloat32 => .bfloat16

def target : Conversion → DType
  | .float32ToFloat16 => .float16
  | .float32ToInt64 | .int32ToInt64 | .uint8ToInt64 | .uint32ToInt64 => .int64
  | .float32ToInt32 | .int16ToInt32 | .int8ToInt32 | .uint8ToInt32 | .int64ToInt32 => .int32
  | .float32ToInt16 | .int32ToInt16 | .int8ToInt16 => .int16
  | .float32ToInt8 | .int32ToInt8 => .int8
  | .float32ToBFloat16 => .bfloat16
  | .int32ToFloat32 | .int16ToFloat32 | .int8ToFloat32 | .uint8ToFloat32 | .int64ToFloat32
  | .float16ToFloat32 | .bfloat16ToFloat32 | .float32ToFloat32 => .float32
  | .int64ToUInt32 => .uint32

end Conversion

end DataflowCost
