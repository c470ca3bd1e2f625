import DataflowCost.Operator.Family

/-! Determinants of the square matrices on the last two axes. -/
namespace DataflowCost

open Scalar Inference Family

inductive DetMode where
  | normal | logarithm
deriving DecidableEq, Repr

def DetMode.name : DetMode → String
  | normal => "Normal"
  | logarithm => "LogDet"

structure Det where
  mode : DetMode := .normal
deriving DecidableEq, Repr

namespace Det

/-- A single matrix has one determinant; stacked ones keep the stack. -/
def outShape (s : Shape) : Inference Shape :=
  match s.reverse with
  | columns :: rows :: rest => do
    require (columns = rows) (.notSquare s)
    return if rest.isEmpty then [1] else rest.reverse
  | _ => invalid (.rankBelowTwo s)

def stack (s : Shape) : Shape := s.take (s.length - 2)

instance : Family Det where
  kind _ := .det
  arity _ := .exact 1 1
  outShapes _ inputs := do return [← outShape (← operand inputs 0).shape]
  metrics {α} _ d io cx := do
    let s := (← io.input? 0).shape
    let n : α := ofNat (← s.getLast?)
    let work : α := match d.mode with
      | .normal => 1.0
      | .logarithm => 2.0
    return {
      computeTime := n * n * n * work * volume (stack s) / 1e9
      memoryCost := 2.0 * io.inTraffic cx + io.outTraffic cx
      parallelism := if s.length ≤ 2 then 1.0 else volume (stack s) }
  workload _ io := outputKey .det io
  attributes _ := [Kind.tag .det]
  describe d := "mode=" ++ d.mode.name ++ ","

end Det

end DataflowCost
