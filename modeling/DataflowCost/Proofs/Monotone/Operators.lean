import DataflowCost.Proofs.Appended
import DataflowCost.Proofs.Keys.Operators
import DataflowCost.Proofs.Monotone.Normalization
import DataflowCost.Proofs.Monotone.Pointwise
import DataflowCost.Proofs.Monotone.Product
import DataflowCost.Proofs.Monotone.Window

/-! Costs of operators in graphs. A definition of a monotone family that is added once to smaller
inputs and once to larger ones takes no more time and no more memory on the smaller ones. -/
namespace DataflowCost

open Scalar Inference Family
open scoped ExactArithmetic

namespace Operator

/-- The operators of monotone families. -/
def IsMonotone : Operator → Prop
  | unary _ | elementwise _ | select _ | matMul _ | conv2d _ | conv3d _ | pool _ | reduce _ |
    softmax _ | layerNorm _ => True
  | _ => False

/-- Convolutions are compared at weights of one shape. -/
def Comparable : Operator → List TensorType → List TensorType → Prop
  | conv2d _, inputs, inputs' | conv3d _, inputs, inputs' => Convolution.SameWeight inputs inputs'
  | _, _, _ => True

/-- What holds of a definition of any monotone family holds of these operators. -/
theorem of_monotone {p : Operator → Prop}
    (h : ∀ {δ : Type} [Family δ] [LawfulFamily δ] [Monotone δ] {wrap : δ → Operator}, Wraps wrap →
      (∀ (d : δ) (inputs inputs' : List TensorType), (wrap d).Comparable inputs inputs' →
        Monotone.Comparable δ inputs inputs') → ∀ d, p (wrap d))
    (op : Operator) (hop : op.IsMonotone) : p op := by
  cases op with
  | unary d | elementwise d | select d | matMul d | conv2d d | conv3d d | pool d | reduce d
  | softmax d | layerNorm d =>
    exact h ⟨fun _ _ => rfl, fun _ _ hole => hole⟩ (fun _ _ _ hsame => hsame) d
  | _ => exact hop.elim

/-- What is inferred of a definition is a definition of its family, resolved against the inputs. -/
theorem Wraps.settles_of_infer {δ : Type} [Family δ] [LawfulFamily δ] {wrap : δ → Operator}
    (hwrap : Wraps wrap) {d : δ} {g : Graph} {inputs : List TensorId} {inferred : Graph.Inferred}
    (h : g.infer (wrap d) inputs = .ok inferred) {types : List TensorType}
    (htypes : g.typesOf? inputs = some types) :
    ∃ d', inferred.op = wrap d' ∧ Settles d types d' inferred.outputs := by
  obtain ⟨_, htypes', hregistered⟩ := Graph.registered_of_infer h
  obtain rfl := Option.some.inj (htypes.symm.trans htypes')
  obtain ⟨tensors, prepared, _, _, hoperands, hprepare, _, _, rfl⟩ := Graph.infer_eq_ok_iff.mp h
  have hfound := Graph.typesOf?_of_mapM (Graph.operands_eq_ok hoperands).1
  obtain rfl := Option.some.inj (hfound.symm.trans htypes)
  have hwrapped : (wrap d).prepare (tensors.map Tensor.type) =
      (Family.prepare d (tensors.map Tensor.type)).map wrap := hwrap.withFamily_eq _ d
  have hyields := Preparation.yields_of_run hprepare
  rw [hwrapped] at hyields
  obtain ⟨d', hd', rfl⟩ := hyields.of_map
  have hfamily := hregistered.family
  rw [hwrap.withFamily_eq] at hfamily
  exact ⟨d', rfl, hfamily, hd'⟩

end Operator

namespace Graph

variable {g g' : Graph} {op : Operator} {inputs inputs' : List TensorId}
  {types types' : List TensorType}

theorem below_of_infer (hop : op.IsMonotone) {inferred inferred' : Inferred}
    (h : g.infer op inputs = .ok inferred) (h' : g'.infer op inputs' = .ok inferred')
    (htypes : g.typesOf? inputs = some types) (htypes' : g'.typesOf? inputs' = some types')
    (hgrown : Grown types types') (hcomparable : op.Comparable types types') {α K : Type} [Scalar α]
    [Field K] [LinearOrder K] [IsStrictOrderedRing K] [Valued α K]
    (hlog : ∀ n : Nat, 0 ≤ value (log2 (ofNat n) : α)) {cx : CostContext}
    (hcx : cx.memoryUnit = .elements) {m m' : Metrics α}
    (hm : inferred.op.metrics ⟨types, inferred.outputs⟩ cx = some m)
    (hm' : inferred'.op.metrics ⟨types', inferred'.outputs⟩ cx = some m') : m.Below m' := by
  refine Operator.of_monotone (p := fun op => g.infer op inputs = .ok inferred →
    g'.infer op inputs' = .ok inferred' → op.Comparable types types' → m.Below m') ?_ op hop h h'
    hcomparable
  -- Both are resolved from one definition, to which the law of its family applies.
  intro δ _ _ _ wrap hwrap hcompares d h h' hcomparable
  obtain ⟨d₁, hd₁, hsettles⟩ := hwrap.settles_of_infer h htypes
  obtain ⟨d₂, hd₂, hsettles'⟩ := hwrap.settles_of_infer h' htypes'
  rw [hd₁, Operator.metrics, hwrap.withFamily_eq] at hm
  rw [hd₂, Operator.metrics, hwrap.withFamily_eq] at hm'
  exact Monotone.below hlog hcx hsettles hsettles' hgrown (hcompares d _ _ hcomparable) hm hm'

/-- Where no extent of an input shrinks, neither the time nor the memory of an operator does. -/
theorem Reachable.costs_grow (hg : g.Reachable) (hg' : g'.Reachable) (hop : op.IsMonotone)
    {e e' : Extended OpId} (h : g.Adds op inputs e) (h' : g'.Adds op inputs' e')
    (htypes : g.typesOf? inputs = some types) (htypes' : g'.typesOf? inputs' = some types')
    (hgrown : Grown types types') (hcomparable : op.Comparable types types') {α K : Type} [Scalar α]
    [Field K] [LinearOrder K] [IsStrictOrderedRing K] [Valued α K]
    (hlog : ∀ n : Nat, 0 ≤ value (log2 (ofNat n) : α)) (c : Config α)
    (hunit : c.memoryUnit = .elements) :
    ∃ m m' : Metrics α, c.opMetrics e.graph e.id = .ok m ∧ c.opMetrics e'.graph e'.id = .ok m' ∧
      value m.computeTime ≤ value m'.computeTime ∧ value m.memoryCost ≤ value m'.memoryCost := by
  obtain ⟨inferred, _, _, hinfer, _⟩ := h.exists_view hg
  obtain ⟨inferred', _, _, hinfer', _⟩ := h'.exists_view hg'
  obtain ⟨m, hrow, hm⟩ := Config.exists_opMetrics_of_adds (c := c) hg h hinfer htypes
  obtain ⟨m', hrow', hm'⟩ := Config.exists_opMetrics_of_adds (c := c) hg' h' hinfer' htypes'
  have hbelow : m.Below m' :=
    below_of_infer hop hinfer hinfer' htypes htypes' hgrown hcomparable hlog hunit hm hm'
  exact ⟨m, m', hrow, hrow', hbelow.computeTime_le, hbelow.memoryCost_le⟩

/-- Two branches of a selection, the first of them also as a single row, and the condition. -/
def branches : Graph :=
  (ofCalls [
    .tensor ⟨[1, 3], .float32⟩,
    .tensor ⟨[2, 3], .float32⟩,
    .tensor ⟨[2, 3], .float32⟩,
    .tensor ⟨[2, 3], .bool⟩]).1

/-- The single row is charged for being stretched, but costs no more than the whole branch. -/
theorem costs_grow_branches :
    branches.Reachable ∧ ∃ row whole : Extended OpId,
      branches.addOp 5 (.select {}) [⟨0⟩, ⟨2⟩, ⟨3⟩] = .ok row ∧
      branches.addOp 5 (.select {}) [⟨1⟩, ⟨2⟩, ⟨3⟩] = .ok whole ∧
      ∃ m m' : Metrics ℝ, Config.standard.opMetrics row.graph row.id = .ok m ∧
        Config.standard.opMetrics whole.graph whole.id = .ok m' ∧
        m.computeTime ≤ m'.computeTime ∧ m.memoryCost ≤ m'.memoryCost := by
  have hg : branches.Reachable := reachable_ofCalls _
  obtain ⟨row, hrow⟩ : ∃ row, branches.addOp 5 (.select {}) [⟨0⟩, ⟨2⟩, ⟨3⟩] = .ok row := ⟨_, rfl⟩
  obtain ⟨whole, hwhole⟩ : ∃ whole, branches.addOp 5 (.select {}) [⟨1⟩, ⟨2⟩, ⟨3⟩] = .ok whole :=
    ⟨_, rfl⟩
  have htypes : branches.typesOf? [⟨0⟩, ⟨2⟩, ⟨3⟩] =
      some [⟨[1, 3], .float32⟩, ⟨[2, 3], .float32⟩, ⟨[2, 3], .bool⟩] := rfl
  have htypes' : branches.typesOf? [⟨1⟩, ⟨2⟩, ⟨3⟩] =
      some [⟨[2, 3], .float32⟩, ⟨[2, 3], .float32⟩, ⟨[2, 3], .bool⟩] := rfl
  have hgrown : Grown [⟨[1, 3], .float32⟩, ⟨[2, 3], .float32⟩, ⟨[2, 3], .bool⟩]
      [⟨[2, 3], .float32⟩, ⟨[2, 3], .float32⟩, ⟨[2, 3], .bool⟩] := by
    have hrow : Shape.Within [1, 3] [2, 3] := .cons (by decide) (Shape.Within.refl [3])
    exact .cons hrow (.cons (Shape.Within.refl _) (.cons (Shape.Within.refl _) .nil))
  have hop : Operator.IsMonotone (.select {}) := trivial
  have hlog (n : Nat) : 0 ≤ value (log2 (ofNat n) : ℝ) :=
    Real.logb_nonneg one_lt_two (le_max_of_le_right (by norm_num))
  obtain ⟨m, m', hm, hm', htime, hmemory⟩ := hg.costs_grow hg hop ⟨5, .inl hrow⟩
    ⟨5, .inl hwhole⟩ htypes htypes' hgrown trivial hlog Config.standard rfl
  exact ⟨hg, row, whole, hrow, hwhole, m, m', hm, hm', htime, hmemory⟩

end Graph

end DataflowCost
