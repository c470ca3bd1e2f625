import DataflowCost.Proofs.Resolution.Layout
import DataflowCost.Proofs.Resolution.Range
import DataflowCost.Proofs.SharedKeys

/-! Resolutions of the operators of a graph. What an operator is keyed, printed and charged by is what its
attributes resolved to when it was added, and its outputs are those that this describes. -/
namespace DataflowCost

open Inference
open scoped ExactArithmetic

namespace Operator

/-- What the attributes resolved to, for operators of which this and the input describe the outputs. -/
def resolution? : Operator → Option Resolution
  | reshape d => some (.dims d.resolved)
  | flatten d => some (.cut d.resolved)
  | squeeze d => some (.removed d.resolved d.rank)
  | unsqueeze d => some (.inserted d.resolved d.outRank)
  | transpose d => some (.permuted d.resolved)
  | slice d => some (.ranges d.ranges)
  | pad d => some (.padded d.resolved)
  | split d => some (.divided d.resolved d.pieces)
  | extend d => some (.repeated d.resolved d.num)
  | reduce d => some (.reduced d.kind d.resolved d.keepDims)
  | _ => none

/-- Nothing that is computed from the definitions tells the operators apart. -/
structure Indistinguishable (op op' : Operator) : Prop where
  kind_eq : op.kind = op'.kind
  attributes_eq : op.attributes = op'.attributes
  describe_eq : op.describe = op'.describe
  workload_eq : ∀ io, op.workload io = op'.workload io
  metrics_eq : ∀ {α : Type} [Scalar α] (io : Io) (cx : CostContext),
    op.metrics (α := α) io cx = op'.metrics io cx

variable {op op' : Operator} {r : Resolution} {inputs outputs : List TensorType}

theorem Indistinguishable.symm (h : op.Indistinguishable op') : op'.Indistinguishable op where
  kind_eq := h.kind_eq.symm
  attributes_eq := h.attributes_eq.symm
  describe_eq := h.describe_eq.symm
  workload_eq io := (h.workload_eq io).symm
  metrics_eq io cx := (h.metrics_eq io cx).symm

theorem Indistinguishable.trans {op'' : Operator} (h : op.Indistinguishable op')
    (h' : op'.Indistinguishable op'') : op.Indistinguishable op'' where
  kind_eq := h.kind_eq.trans h'.kind_eq
  attributes_eq := h.attributes_eq.trans h'.attributes_eq
  describe_eq := h.describe_eq.trans h'.describe_eq
  workload_eq io := (h.workload_eq io).trans (h'.workload_eq io)
  metrics_eq io cx := (h.metrics_eq io cx).trans (h'.metrics_eq io cx)

end Operator

/-- An operator with a resolution, of which it is not known what resolved to it. -/
def Resolution.operator : Resolution → Operator
  | dims shape => .reshape { target := [], resolved := shape }
  | cut axis => .flatten { resolved := axis }
  | removed axes rank => .squeeze { resolved := axes, rank }
  | inserted axes rank => .unsqueeze { axes := [], resolved := axes, outRank := rank }
  | permuted axes => .transpose { resolved := axes }
  | ranges taken => .slice { starts := [], ends := [], ranges := taken }
  | padded pads => .pad { pads := [], resolved := pads }
  | divided axis pieces => .split { axis := 0, pieces, resolved := axis }
  | repeated axis num => .extend { axis := 0, num, resolved := axis }
  | reduced kind axes keepDims => .reduce { kind, keepDims, resolved := axes }

namespace Operator

variable {op op' : Operator} {r : Resolution} {inputs outputs : List TensorType}

theorem indistinguishable_operator (h : op.resolution? = some r) :
    op.Indistinguishable r.operator := by
  cases op <;> cases h <;>
    exact ⟨rfl, rfl, rfl, fun _ => rfl, fun _ _ => rfl⟩

/-- The attributes as they were given are of no account once they are resolved. -/
theorem indistinguishable_of_resolution (h : op.resolution? = some r)
    (h' : op'.resolution? = some r) : op.Indistinguishable op' :=
  (indistinguishable_operator h).trans (indistinguishable_operator h').symm

end Operator

/-- The contract of families with one input. -/
theorem Family.Registered.exists_describes {δ : Type} [Family δ] {d : δ} {n : Nat}
    {r s : Resolution} {inputs outputs : List TensorType} (h : Registered d inputs outputs)
    (hone : arity d = .exact 1 n) (hr : some r = some s)
    (hd : ∀ {x}, Registered d [x] outputs → r.Describes x.shape outputs) :
    ∃ x, inputs = [x] ∧ s.Describes x.shape outputs := by
  have haccepts := h.accepts
  rw [hone] at haccepts
  obtain ⟨x, rfl⟩ := Arity.eq_singleton_of_accepts haccepts
  obtain rfl := Option.some.inj hr
  exact ⟨x, rfl, hd h⟩

theorem Operator.Registered.exists_describes {op : Operator} {r : Resolution}
    {inputs outputs : List TensorType} (h : op.Registered inputs outputs)
    (hr : op.resolution? = some r) : ∃ x, inputs = [x] ∧ r.Describes x.shape outputs := by
  have hfamily := h.family
  cases op with
  | reshape d => exact Family.Registered.exists_describes hfamily rfl hr Reshape.describes
  | flatten d => exact Family.Registered.exists_describes hfamily rfl hr Flatten.describes
  | squeeze d => exact Family.Registered.exists_describes hfamily rfl hr Squeeze.describes
  | unsqueeze d => exact Family.Registered.exists_describes hfamily rfl hr Unsqueeze.describes
  | transpose d => exact Family.Registered.exists_describes hfamily rfl hr Transpose.describes
  | slice d => exact Family.Registered.exists_describes hfamily rfl hr Slice.describes
  | pad d => exact Family.Registered.exists_describes hfamily rfl hr Pad.describes
  | split d => exact Family.Registered.exists_describes hfamily rfl hr Split.describes
  | extend d => exact Family.Registered.exists_describes hfamily rfl hr Extend.describes
  | reduce d => exact Family.Registered.exists_describes hfamily rfl hr Reduce.describes
  | _ => cases hr

namespace Graph

variable {g : Graph}

/-- Every other row from the last one on, as far as there are rows. -/
def reversedRows : Graph :=
  (ofCalls [
    .tensor ⟨[5, 4], .float32⟩,
    .op (.slice { starts := [-1], ends := [-100], axes := some [-2], steps := some [-2] }) [⟨0⟩]]).1

end Graph

end DataflowCost
