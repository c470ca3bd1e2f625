import DataflowCost.Tensor.DType

/-! Values attached to a constant tensor. -/
namespace DataflowCost

inductive Payload where
  | reals (values : List Float32)
  | ints32 (values : List Int)
  | ints64 (values : List Int)

namespace Payload

def length : Payload → Nat
  | reals values => values.length
  | ints32 values => values.length
  | ints64 values => values.length

def dtype : Payload → DType
  | reals _ => .float32
  | ints32 _ => .int32
  | ints64 _ => .int64

end Payload

end DataflowCost
