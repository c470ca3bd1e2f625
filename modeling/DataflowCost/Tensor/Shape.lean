import DataflowCost.Text
import DataflowCost.Tensor.DType

/-! Shapes are extent lists, outermost axis first. A tensor type is what inference and cost formulas
read of a tensor: its shape and element type. -/
namespace DataflowCost

abbrev Shape := List Nat

namespace Shape

/-- The number of elements. Where inference compares counts, it has them in words, as `Word.product`. -/
def size (s : Shape) : Nat := s.foldr (· * ·) 1

def text (s : Shape) : String := Text.tight (s.map toString)

/-- The form used inside diagnostics. -/
def spaced (s : Shape) : String := Text.spaced (s.map toString)

end Shape

structure TensorType where
  shape : Shape
  dtype : DType
deriving DecidableEq, Repr

namespace TensorType

def rank (t : TensorType) : Nat := t.shape.length

def size (t : TensorType) : Nat := t.shape.size

def bytes (t : TensorType) : Nat := t.size * t.dtype.bytes

/-- The form used when inputs are rejected. -/
def text (t : TensorType) : String := t.shape.text ++ ":" ++ t.dtype.name

end TensorType

end DataflowCost
