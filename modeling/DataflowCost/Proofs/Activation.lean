import DataflowCost.Proofs.Keys.Product
import DataflowCost.Proofs.Valued
import Mathlib.Tactic.GCongr

/-! Families that can apply an activation to their result. The activation is not looked at before
estimates, and there it adds a little compute time: less than an eighth of a nanosecond for each
result. -/
namespace DataflowCost

open Scalar Inference Family
open scoped ExactArithmetic

section Surcharge

variable {α K : Type} [Scalar α] [Field K] [LinearOrder K] [IsStrictOrderedRing K] [Valued α K]

/-- Estimates that differ in compute time only, and there by no more than a surcharge for each of
`count` results. -/
structure Metrics.Surcharged (count : Nat) (m m' : Metrics α) : Prop where
  memoryCost_eq : m'.memoryCost = m.memoryCost
  parallelism_eq : m'.parallelism = m.parallelism
  computeTime_le : value m'.computeTime ≤ value m.computeTime + (count : K) / 8e9

theorem Metrics.Surcharged.refl (count : Nat) (m : Metrics α) : m.Surcharged count m where
  memoryCost_eq := rfl
  parallelism_eq := rfl
  computeTime_le := by
    have hcount : (0 : K) ≤ (count : K) / 8e9 := by positivity
    linarith

/-- A tenth of an operation for each result, at no less than eight tenths of a billion operations in
a second. -/
theorem add_div_le_of_rate (work rate : K) {extra results : K} (hrate : 8e8 ≤ rate)
    (hresults : 0 ≤ results) (hextra : extra ≤ 0.1 * results) :
    (work + extra) / rate ≤ work / rate + results / 8e9 := by
  have hpos : 0 < rate := by linarith
  have hscaled : 0.1 * results * 8e9 ≤ results * rate := by
    calc 0.1 * results * 8e9 = results * 8e8 := by ring
      _ ≤ results * rate := mul_le_mul_of_nonneg_left hrate hresults
  have hshare : extra / rate ≤ results / 8e9 := by
    rw [div_le_div_iff₀ hpos (by norm_num)]
    linarith
  rw [add_div]
  linarith

/-- What an activation adds to the operations of an operator with so many results. -/
def Activation.extra (act : Activation) (results : α) : α :=
  if act.isSome then 0.1 * results else 0.0

theorem value_extra_none (results : α) : value (Activation.none.extra results) = 0 := by
  have hnone : ¬ Activation.none.isSome = true := by decide
  rw [Activation.extra, if_neg hnone]
  norm_num

theorem value_extra_le (act : Activation) {results : α} (h : 0 ≤ value results) :
    value (act.extra results) ≤ 0.1 * value results := by
  unfold Activation.extra
  by_cases hact : act.isSome = true
  · rw [if_pos hact]
    simp
  · rw [if_neg hact]
    norm_num
    positivity

theorem value_extra_mono (act : Activation) {a b : α} (h : value a ≤ value b) :
    value (act.extra a) ≤ value (act.extra b) := by
  unfold Activation.extra
  by_cases hact : act.isSome = true
  · rw [if_pos hact, if_pos hact, Valued.value_mul, Valued.value_mul]
    apply mul_le_mul_of_nonneg_left h
    norm_num
  · rw [if_neg hact, if_neg hact]

/-- The operations of an activation come on top of the work that is done without. -/
theorem value_work_add (act : Activation) (work results : α) :
    value (if act.isSome then work + 0.1 * results else work) =
      value work + value (act.extra results) := by
  unfold Activation.extra
  by_cases hact : act.isSome = true
  · rw [if_pos hact, if_pos hact, Valued.value_add]
  · have hzero : value (0.0 : α) = 0 := by norm_num
    rw [if_neg hact, if_neg hact, hzero, add_zero]

/-- The time of work and an activation, at a rate that is not too low. -/
theorem value_add_extra_div_le (act : Activation) (work results rate : α) {count : Nat}
    (hresults : value results = (count : K)) (hrate : 8e8 ≤ value rate) :
    value ((work + act.extra results) / rate) ≤
      value ((work + Activation.none.extra results) / rate) + (count : K) / 8e9 := by
  have hcount : (0 : K) ≤ count := Nat.cast_nonneg count
  have hextra : value (act.extra results) ≤ 0.1 * (count : K) := by
    rw [← hresults]
    exact value_extra_le act (hresults ▸ hcount)
  have hbound := add_div_le_of_rate (value work) (value rate) hrate hcount hextra
  simp only [Valued.value_div, Valued.value_add, value_extra_none, add_zero]
  exact hbound

theorem value_activated_div_le (act : Activation) (work results rate : α) {count : Nat}
    (hresults : value results = (count : K)) (hrate : 8e8 ≤ value rate) :
    value ((if act.isSome then work + 0.1 * results else work) / rate) ≤
      value (work / rate) + (count : K) / 8e9 := by
  have hbound := value_add_extra_div_le act work results rate hresults hrate
  simp only [Valued.value_div, Valued.value_add, value_extra_none, add_zero] at hbound
  rw [Valued.value_div, Valued.value_div, value_work_add]
  exact hbound

end Surcharge

/-- A family whose definitions can carry an activation. -/
class Activated (δ : Type) [Family δ] where
  withAct : Activation → δ → δ
  /-- The definitions on which an activation is not turned down. -/
  Carries : δ → Prop := fun _ => True
  outputs_eq : ∀ d : δ, (arity d).outputs = 1
  arity_eq : ∀ (act : Activation) (d : δ), arity (withAct act d) = arity d
  prepare_eq : ∀ (act : Activation) (d : δ) (inputs : List TensorType), Carries d →
    prepare (withAct act d) inputs = (prepare d inputs).map (withAct act)
  outShapes_eq : ∀ (act : Activation) (d : δ) (inputs : List TensorType),
    outShapes (withAct act d) inputs = outShapes d inputs
  outTypes_eq : ∀ (act : Activation) (d : δ) (inputs : List TensorType),
    outTypes (withAct act d) inputs = outTypes d inputs
  surcharged : ∀ {α K : Type} [Scalar α] [Field K] [LinearOrder K] [IsStrictOrderedRing K]
    [Valued α K] (act : Activation) {d : δ} {inputs : List TensorType} {out : TensorType},
    Registered (withAct .none d) inputs [out] → 0 < out.size →
    ∀ (cx : CostContext) {m m' : Metrics α},
    metrics (withAct .none d) ⟨inputs, [out]⟩ cx = some m →
    metrics (withAct act d) ⟨inputs, [out]⟩ cx = some m' → m.Surcharged out.size m'

section Convolution

open DataflowCost.Convolution

variable {α K : Type} [Scalar α] [Field K] [LinearOrder K] [IsStrictOrderedRing K] [Valued α K]

namespace Conv

variable {n : Nat}

theorem resolve_withAct (act : Activation) (d : Conv n) (inputs : List TensorType) :
    Conv.resolve { d with act } inputs = (fun d => { d with act }) <$> d.resolve inputs := by
  simp [resolve]

theorem surcharged (act : Activation) (d : Conv n) (memoryFactor : α → α) {io : Io}
    {out : TensorType} (hout : io.output? 0 = some out) (cx : CostContext) {m m' : Metrics α}
    (hm : ({ d with act := .none } : Conv n).metrics? memoryFactor io cx = some m)
    (hm' : ({ d with act } : Conv n).metrics? memoryFactor io cx = some m') :
    m.Surcharged out.size m' := by
  obtain ⟨_, hout₁, hm⟩ := Option.bind_eq_some_iff.mp hm
  obtain rfl := Option.some.inj (hout.symm.trans hout₁)
  obtain ⟨_, hout₂, hm'⟩ := Option.bind_eq_some_iff.mp hm'
  obtain rfl := Option.some.inj (hout.symm.trans hout₂)
  obtain ⟨work, hwork, hm⟩ := Option.bind_eq_some_iff.mp hm
  obtain ⟨work', hwork', hm'⟩ := Option.bind_eq_some_iff.mp hm'
  obtain rfl := Option.some.inj (hwork.symm.trans hwork')
  obtain rfl := Option.some.inj hm
  obtain rfl := Option.some.inj hm'
  refine ⟨rfl, rfl, ?_⟩
  apply value_add_extra_div_le act work out.elements 1e9 (value_elements out)
  norm_num

end Conv

theorem ConvTranspose.resolve_withAct (act : Activation) (d : ConvTranspose)
    (inputs : List TensorType) :
    ConvTranspose.resolve { d with act } inputs =
      (fun d => { d with act }) <$> d.resolve inputs := by
  simp [ConvTranspose.resolve, ConvTranspose.resolvePads]

theorem ConvTranspose.surcharged (act : Activation) (d : ConvTranspose) {inputs : List TensorType}
    {out : TensorType} (cx : CostContext) {m m' : Metrics α}
    (hm : Family.metrics { d with act := .none } ⟨inputs, [out]⟩ cx = some m)
    (hm' : Family.metrics { d with act } ⟨inputs, [out]⟩ cx = some m') :
    m.Surcharged out.size m' := by
  obtain ⟨_, hout, hm⟩ := Option.bind_eq_some_iff.mp hm
  obtain rfl := Option.some.inj hout
  obtain ⟨_, hout, hm'⟩ := Option.bind_eq_some_iff.mp hm'
  obtain rfl := Option.some.inj hout
  obtain ⟨work, hwork, hm⟩ := Option.bind_eq_some_iff.mp hm
  obtain ⟨work', hwork', hm'⟩ := Option.bind_eq_some_iff.mp hm'
  obtain rfl := Option.some.inj (hwork.symm.trans hwork')
  obtain rfl := Option.some.inj hm
  obtain rfl := Option.some.inj hm'
  refine ⟨rfl, rfl, ?_⟩
  cases d.layout with
  | first =>
    apply value_add_extra_div_le act work out.elements 0.9e9 (value_elements out)
    norm_num
  | last =>
    apply value_add_extra_div_le act (work * 1.26) out.elements 1e9 (value_elements out)
    norm_num

end Convolution

instance : Activated (Conv 2) where
  withAct act d := { d with act }
  outputs_eq _ := rfl
  arity_eq _ _ := rfl
  prepare_eq act d inputs _ := congrArg Preparation.done (d.resolve_withAct act inputs)
  outShapes_eq _ _ _ := rfl
  outTypes_eq _ _ _ := rfl
  surcharged act d _ _ _ _ cx _ _ hm hm' := d.surcharged act id rfl cx hm hm'

instance : Activated (Conv 3) where
  withAct act d := { d with act }
  outputs_eq _ := rfl
  arity_eq _ _ := rfl
  prepare_eq act d inputs _ := congrArg Preparation.done (d.resolve_withAct act inputs)
  outShapes_eq _ _ _ := rfl
  outTypes_eq _ _ _ := rfl
  surcharged act d _ _ _ _ cx _ _ hm hm' := d.surcharged act (· * 1.2) rfl cx hm hm'

instance : Activated ConvTranspose where
  withAct act d := { d with act }
  outputs_eq _ := rfl
  arity_eq _ _ := rfl
  prepare_eq act d inputs _ := congrArg Preparation.done (d.resolve_withAct act inputs)
  outShapes_eq _ _ _ := rfl
  outTypes_eq _ _ _ := rfl
  surcharged act d _ _ _ _ cx _ _ hm hm' := d.surcharged act cx hm hm'

theorem ConvBackwardFilter.resolve_withAct (act : Activation) (d : ConvBackwardFilter)
    (inputs : List TensorType) : ConvBackwardFilter.resolve { d with act } inputs =
      (fun d => { d with act }) <$> d.resolve inputs := by
  simp [ConvBackwardFilter.resolve]

/-- The gradient of a filter is charged alike with and without an activation. -/
instance : Activated ConvBackwardFilter where
  withAct act d := { d with act }
  outputs_eq _ := rfl
  arity_eq _ _ := rfl
  prepare_eq act d inputs _ := congrArg Preparation.done (d.resolve_withAct act inputs)
  outShapes_eq _ _ _ := rfl
  outTypes_eq _ _ _ := rfl
  surcharged act d inputs out _ _ cx m m' hm hm' := by
    obtain rfl : m = m' := Option.some.inj (hm.symm.trans hm')
    exact .refl out.size m

section Product

variable {α K : Type} [Scalar α] [Field K] [LinearOrder K] [IsStrictOrderedRing K] [Valued α K]

namespace Shape

theorem size_append (s t : Shape) : size (s ++ t) = size s * size t := by
  induction s with
  | nil => exact (Nat.one_mul _).symm
  | cons extent s ih =>
    calc size (extent :: (s ++ t)) = extent * (size s * size t) := congrArg (extent * ·) ih
      _ = size (extent :: s) * size t := (Nat.mul_assoc _ _ _).symm

end Shape

theorem Precision.value_throughput_ge (p : Precision) : 0.5 ≤ value (p.throughput : α) := by
  cases p <;> norm_num [throughput]

namespace MatMul

theorem value_operations (d : MatMul) (p : Problem) (biased : Bool) :
    value (d.operations p biased : α) =
      value ({ d with act := .none }.operations p biased : α) +
        value (d.act.extra (ofNat p.count * ofNat p.m * ofNat p.n : α)) := by
  have hnone : ¬ Activation.none.isSome = true := by decide
  have hsame : anyTransposed { d with act := .none } = d.anyTransposed := rfl
  simp only [operations, hsame, if_neg hnone]
  cases biased with
  | false =>
    simp only [Bool.false_eq_true, if_false]
    exact value_work_add d.act _ _
  | true =>
    simp only [if_true, Valued.value_add, value_work_add d.act]
    ring

theorem estimated_of_problem {d : MatMul} {a b : Shape} {p : Problem} (h : d.problem a b = .ok p) :
    d.estimated a b = p := by
  unfold estimated
  rw [h]

/-- The results of a product are the elements of its output, unless there are none. -/
theorem Problem.results_eq {p : Problem} (h : 0 < Shape.size (p.batch ++ [p.m, p.n])) :
    p.count * p.m * p.n = Shape.size (p.batch ++ [p.m, p.n]) := by
  have hsize : Shape.size (p.batch ++ [p.m, p.n]) = p.batch.size * p.m * p.n := by
    rw [Shape.size_append]
    simp [Shape.size, Nat.mul_assoc]
  have hbatch : 0 < p.batch.size := by
    apply Nat.pos_of_ne_zero
    intro hzero
    rw [hsize, hzero, Nat.zero_mul, Nat.zero_mul] at h
    exact absurd h (Nat.lt_irrefl 0)
  have hcount : p.count = p.batch.size := Nat.max_eq_left hbatch
  rw [hsize, hcount]

theorem value_computeTime_le (act : Activation) (d : MatMul) (p : Problem) (biased : Bool)
    {count : Nat} (hresults : p.count * p.m * p.n = count) :
    value ({ d with act }.computeTime p biased : α) ≤
      value ({ d with act := .none }.computeTime p biased : α) + (count : K) / 8e9 := by
  have hrate : 8e8 ≤ value (d.precision.throughput : α) * 5e9 := by
    have hthroughput := Precision.value_throughput_ge (α := α) d.precision
    linarith
  have hcount : value (ofNat p.count * ofNat p.m * ofNat p.n : α) = (count : K) := by
    rw [← hresults]
    simp
  have hextra : value (act.extra (ofNat p.count * ofNat p.m * ofNat p.n : α)) ≤
      0.1 * (count : K) := by
    rw [← hcount]
    exact value_extra_le act (hcount ▸ Nat.cast_nonneg count)
  simp only [computeTime, Valued.value_div, Valued.value_literal, div_div]
  rw [value_operations { d with act }]
  exact add_div_le_of_rate _ _ hrate (Nat.cast_nonneg count) hextra

theorem surcharged (act : Activation) (d : MatMul) {inputs : List TensorType} {out : TensorType}
    (h : Registered { d with act := .none } inputs [out]) (hpos : 0 < out.size) (cx : CostContext)
    {m m' : Metrics α} (hm : Family.metrics { d with act := .none } ⟨inputs, [out]⟩ cx = some m)
    (hm' : Family.metrics { d with act } ⟨inputs, [out]⟩ cx = some m') :
    m.Surcharged out.size m' := by
  obtain ⟨a, b, rest, p, t, rfl, hp, hout⟩ := exists_operands h
  obtain rfl := List.singleton_inj.mp hout
  obtain rfl := Option.some.inj hm
  obtain rfl := Option.some.inj hm'
  refine ⟨rfl, rfl, ?_⟩
  have hestimated : d.estimated a.shape b.shape = p := estimated_of_problem hp
  change value ({ d with act }.computeTime (d.estimated a.shape b.shape) _ : α) ≤
    value ({ d with act := .none }.computeTime (d.estimated a.shape b.shape) _ : α) + _
  rw [hestimated]
  exact d.value_computeTime_le act p _ (Problem.results_eq hpos)

end MatMul

theorem Gbmm.surcharged (act : Activation) (d : Gbmm) {inputs : List TensorType} {out : TensorType}
    (h : Registered { d with act := .none } inputs [out]) (cx : CostContext) {m m' : Metrics α}
    (hm : Family.metrics { d with act := .none } ⟨inputs, [out]⟩ cx = some m)
    (hm' : Family.metrics { d with act } ⟨inputs, [out]⟩ cx = some m') :
    m.Surcharged out.size m' := by
  obtain ⟨batch, rows, band, b, r, c, t, u, rest, rfl, hout⟩ := exists_extents h
  obtain rfl := List.singleton_inj.mp hout
  obtain rfl := Option.some.inj hm
  obtain rfl := Option.some.inj hm'
  refine ⟨rfl, rfl, ?_⟩
  apply value_activated_div_le act _ _ 2e9 (value_volume [b, r, c])
  norm_num

theorem G2bmm.surcharged (act : Activation) (d : G2bmm) {inputs : List TensorType}
    {out : TensorType} (h : Registered { d with act := .none } inputs [out]) (cx : CostContext)
    {m m' : Metrics α} (hm : Family.metrics { d with act := .none } ⟨inputs, [out]⟩ cx = some m)
    (hm' : Family.metrics { d with act } ⟨inputs, [out]⟩ cx = some m') :
    m.Surcharged out.size m' := by
  obtain ⟨batch, rows, inner, t, u, rest, rfl, hout⟩ := exists_extents h
  obtain rfl := List.singleton_inj.mp hout
  obtain rfl := Option.some.inj hm
  obtain rfl := Option.some.inj hm'
  refine ⟨rfl, rfl, ?_⟩
  have hresults : value (ofNat batch * ofNat rows * ofNat d.band : α) =
      (Shape.size [batch, rows, d.band] : K) := by
    simp [Shape.size, mul_assoc]
  apply value_activated_div_le act _ _ 2e9 hresults
  norm_num

end Product

instance : Activated MatMul where
  withAct act d := { d with act }
  outputs_eq _ := rfl
  arity_eq _ _ := rfl
  prepare_eq _ _ _ _ := rfl
  outShapes_eq _ _ _ := rfl
  outTypes_eq _ _ _ := rfl
  surcharged act d _ _ h hpos cx _ _ hm hm' := d.surcharged act h hpos cx hm hm'

instance : Activated Gbmm where
  withAct act d := { d with act }
  outputs_eq _ := rfl
  arity_eq _ _ := rfl
  prepare_eq _ _ _ _ := rfl
  outShapes_eq _ _ _ := rfl
  outTypes_eq _ _ _ := rfl
  surcharged act d _ _ h _ cx _ _ hm hm' := d.surcharged act h cx hm hm'

instance : Activated G2bmm where
  withAct act d := { d with act }
  outputs_eq _ := rfl
  arity_eq _ _ := rfl
  prepare_eq _ _ _ _ := rfl
  outShapes_eq _ _ _ := rfl
  outTypes_eq _ _ _ := rfl
  surcharged act d _ _ h _ cx _ _ hm hm' := d.surcharged act h cx hm hm'

namespace Elementwise

theorem check_withAct (act : Activation) (d : Elementwise) (h : fusesActivation d.kind = true) :
    check { d with act } = (fun d => { d with act }) <$> d.check := by
  have hfuses (act : Activation) : (act.isSome && !fusesActivation d.kind) = false := by simp [h]
  unfold check
  simp only [hfuses, Bool.false_eq_true, if_false]
  split
  · rfl
  · rfl

theorem surcharged {α K : Type} [Scalar α] [Field K] [LinearOrder K] [IsStrictOrderedRing K]
    [Valued α K] (act : Activation) (d : Elementwise) {inputs : List TensorType} {out : TensorType}
    (h : Registered { d with act := .none } inputs [out]) (cx : CostContext) {m m' : Metrics α}
    (hm : Family.metrics { d with act := .none } ⟨inputs, [out]⟩ cx = some m)
    (hm' : Family.metrics { d with act } ⟨inputs, [out]⟩ cx = some m') :
    m.Surcharged out.size m' := by
  obtain ⟨a, b, rest, rfl⟩ := Arity.exists_cons₂_of_accepts h.accepts (Nat.le_refl 2)
  obtain rfl := Option.some.inj hm
  obtain rfl := Option.some.inj hm'
  refine ⟨rfl, rfl, ?_⟩
  apply value_add_extra_div_le act (out.elements * complexity d.kind) out.elements 1e9
    (value_elements out)
  norm_num

end Elementwise

instance : Activated Elementwise where
  withAct act d := { d with act }
  Carries d := Elementwise.fusesActivation d.kind = true
  outputs_eq _ := rfl
  arity_eq _ _ := rfl
  prepare_eq act d _ h := congrArg Preparation.done (d.check_withAct act h)
  outShapes_eq _ _ _ := rfl
  outTypes_eq _ _ _ := rfl
  surcharged act d _ _ h _ cx _ _ hm hm' := d.surcharged act h cx hm hm'

end DataflowCost
