import DataflowCost.Operator.Basic
import DataflowCost.Proofs.Families.Collective
import DataflowCost.Proofs.Families.Layout
import DataflowCost.Proofs.Families.Normalization
import DataflowCost.Proofs.Families.Pointwise
import DataflowCost.Proofs.Families.Product
import DataflowCost.Proofs.Families.Range
import DataflowCost.Proofs.Families.Selection
import DataflowCost.Proofs.Families.Window

/-! The laws of families, read as laws of operators. A resolved operator infers as many outputs as
its arity says, and can be estimated of outputs of the inferred shapes. -/
namespace DataflowCost

open Inference

namespace Operator

/-- The inputs on which an operator divides by zero: a grouped convolution without input channels.
-/
def EmptyGroups : Operator → List TensorType → Prop
  | .conv2d _, inputs => Convolution.EmptyGroups inputs
  | .conv3d _, inputs => Convolution.EmptyGroups inputs
  | .convBackwardFilter _, inputs => Convolution.EmptyGroups inputs
  | _, _ => False

/-- Every estimate has a value, and so have the workload and the key. -/
structure Estimable (op : Operator) (io : Io) : Prop where
  metrics : ∀ {α : Type} [Scalar α] (cx : CostContext),
    ∃ m : Metrics α, op.metrics io cx = some m
  workload : ∃ key, op.workload io = some key

/-- Attributes are resolved so far that inference gives outputs of which the operator can be
estimated, unless `hole` makes it fault. -/
structure Prepared [Build] (op : Operator) (inputs : List TensorType) (hole : Prop) : Prop where
  outShapes_meets : Meets (op.outShapes inputs) hole fun shapes =>
    shapes.length = op.arity.outputs ∧
      ∀ outputs : List TensorType, outputs.map TensorType.shape = shapes →
        op.Estimable ⟨inputs, outputs⟩
  outTypes_meets : Meets (op.outTypes inputs) False fun types => types.length = op.arity.outputs

/-- A constructor of operators that treats its argument as a definition of a lawful family. -/
structure Wraps [Build] {δ : Type} [Family δ] [LawfulFamily δ] (wrap : δ → Operator) : Prop where
  withFamily_eq : ∀ {β : Type} (f : {δ : Type} → [Family δ] → (δ → Operator) → δ → β) (d : δ),
    (wrap d).withFamily f = f wrap d
  emptyGroups : ∀ (d : δ) (inputs : List TensorType),
    LawfulFamily.Hole δ inputs → (wrap d).EmptyGroups inputs

/-- What holds of the definitions of every lawful family holds of every operator. -/
theorem of_family [Build] {p : Operator → Prop}
    (h : ∀ {δ : Type} [Family δ] [LawfulFamily δ] {wrap : δ → Operator}, Wraps wrap →
      ∀ d, p (wrap d)) (op : Operator) : p op := by
  cases op <;> exact h ⟨fun _ _ => rfl, fun _ _ hole => hole⟩ _

section Family

variable [Build] {δ : Type} [Family δ] [LawfulFamily δ] {wrap : δ → Operator}

theorem Wraps.arity_eq (hwrap : Wraps wrap) (d : δ) : (wrap d).arity = Family.arity d :=
  hwrap.withFamily_eq _ d

theorem Wraps.estimable (hwrap : Wraps wrap) {d : δ} {io : Io} (h : Family.Estimable d io) :
    (wrap d).Estimable io where
  metrics {α} _ cx := by
    obtain ⟨m, hm⟩ := h.metrics (α := α) cx
    exact ⟨m, (hwrap.withFamily_eq _ d).trans hm⟩
  workload := by
    obtain ⟨key, hkey⟩ := h.workload
    exact ⟨key, (hwrap.withFamily_eq _ d).trans hkey⟩

theorem Wraps.prepared (hwrap : Wraps wrap) {d : δ} {inputs : List TensorType}
    (haccepts : (Family.arity d).accepts inputs.length)
    (hresolved : LawfulFamily.Resolved d inputs) :
    (wrap d).Prepared inputs (LawfulFamily.Hole δ inputs ∨ Build.Bounded) where
  outShapes_meets := by
    have heq : (wrap d).outShapes inputs = Family.outShapes d inputs := hwrap.withFamily_eq _ d
    rw [heq, hwrap.arity_eq]
    refine (LawfulFamily.outShapes_meets d inputs haccepts hresolved).imp ?_
    intro shapes hshapes
    exact ⟨hshapes.length, fun outputs ho => hwrap.estimable (hshapes.estimable outputs ho)⟩
  outTypes_meets := by
    have heq : (wrap d).outTypes inputs = Family.outTypes d inputs := hwrap.withFamily_eq _ d
    rw [heq, hwrap.arity_eq]
    exact LawfulFamily.outTypes_meets d inputs haccepts

end Family

theorem Prepared.mono [Build] {op : Operator} {inputs : List TensorType} {hole hole' : Prop}
    (h : op.Prepared inputs hole) (hhole : hole → hole') : op.Prepared inputs hole' where
  outShapes_meets := h.outShapes_meets.mono hhole fun _ => id
  outTypes_meets := h.outTypes_meets

/-- Resolution on an accepted number of inputs keeps the arity and prepares for inference. -/
theorem prepare_meets [Build] (op : Operator) {inputs : List TensorType}
    (haccepts : op.arity.accepts inputs.length) :
    (op.prepare inputs).Meets inputs Build.Bounded fun op' =>
      op'.arity = op.arity ∧ op'.Prepared inputs (op.EmptyGroups inputs ∨ Build.Bounded) := by
  -- One case for all constructors: a definition of some lawful family.
  induction op using of_family with
  | @h δ _ _ wrap hwrap d =>
    have heq : (wrap d).prepare inputs = (Family.prepare d inputs).map wrap :=
      hwrap.withFamily_eq _ d
    rw [hwrap.arity_eq] at haccepts
    rw [heq]
    refine Preparation.Meets.map ((LawfulFamily.prepare_meets d inputs haccepts).imp ?_)
    rintro d' ⟨harity, hresolved⟩
    refine ⟨?_, ?_⟩
    · rw [hwrap.arity_eq, hwrap.arity_eq, harity]
    · exact (hwrap.prepared (harity ▸ haccepts) hresolved).mono (Or.imp_left (hwrap.emptyGroups d inputs))

/-- The operands of a product whose output has been inferred fit together. -/
theorem exists_problem_of_outShapes [Build] {d : MatMul} {inputs : List TensorType} {shapes : List Shape}
    (h : (Operator.matMul d).outShapes inputs = .ok shapes) :
    ∃ a b rest p, inputs = a :: b :: rest ∧ d.problem a.shape b.shape = .ok p := by
  match inputs, h with
  | a :: b :: rest, h =>
    have hmeets : Meets (d.outShape a.shape b.shape (rest[0]?.map TensorType.shape)) True _ :=
      d.meets_outShape _ _ _
    obtain ⟨out, hout, _⟩ := bind_eq_ok_iff.mp (show (do
      return [← d.outShape a.shape b.shape (rest[0]?.map TensorType.shape)]) = _ from h)
    obtain ⟨p, hp, _⟩ := hmeets.answer hout
    exact ⟨a, b, rest, p, rfl, hp⟩
  | [_], h => cases h
  | [], h => cases h

end Operator

end DataflowCost
