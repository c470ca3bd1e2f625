import DataflowCost.Proofs.Activation
import DataflowCost.Proofs.Keys.Product
import DataflowCost.Proofs.Monotone.Basic

/-! Costs of matrix products. Each size of the problem grows with the operands, and so do the
operations and the traffic. -/
namespace DataflowCost

open Scalar Inference Family
open scoped ExactArithmetic

namespace MatMul

/-- No size of the first problem exceeds that of the second one. -/
structure Problem.Within (p p' : Problem) : Prop where
  batch : Shape.Within p.batch p'.batch
  m_le : p.m ≤ p'.m
  n_le : p.n ≤ p'.n
  k_le : p.k ≤ p'.k

theorem eq_of_matrix? {s batch : Shape} {row column : Nat}
    (h : matrix? s = some (batch, row, column)) : s = batch ++ [row, column] := by
  unfold matrix? at h
  split at h
  next c r rest hs =>
    obtain ⟨rfl, rfl, rfl⟩ : rest.reverse = batch ∧ r = row ∧ c = column := by simpa using h
    rw [← List.reverse_reverse s, hs, List.reverse_cons, List.reverse_cons, List.append_assoc]
    rfl
  next => cases h

theorem matrix?_le {s s' batch batch' : Shape} {row row' column column' : Nat}
    (h : Shape.Within s s') (hs : matrix? s = some (batch, row, column))
    (hs' : matrix? s' = some (batch', row', column')) :
    Shape.Within batch batch' ∧ row ≤ row' ∧ column ≤ column' := by
  rw [eq_of_matrix? hs, eq_of_matrix? hs'] at h
  have hrank : batch.length = batch'.length := by simpa using h.rank_eq
  have hbatch := h.take batch.length
  have hmatrix := h.drop batch.length
  rw [List.take_left, hrank, List.take_left] at hbatch
  rw [List.drop_left, hrank, List.drop_left] at hmatrix
  have hrow : row ≤ row' := hmatrix.entry_le (i := 0) rfl rfl
  have hcolumn : column ≤ column' := hmatrix.entry_le (i := 1) rfl rfl
  exact ⟨hbatch, hrow, hcolumn⟩

theorem problem_within {d : MatMul} {a b a' b' : Shape} {p p' : Problem}
    (ha : Shape.Within a a') (hb : Shape.Within b b') (hp : d.problem a b = .ok p)
    (hp' : d.problem a' b' = .ok p') : p.Within p' := by
  unfold problem at hp hp'
  split at hp
  next batchA rowA columnA batchB rowB columnB hA hB =>
    split at hp'
    next batchA' rowA' columnA' batchB' rowB' columnB' hA' hB' =>
      obtain ⟨hbatchA, hrowA, hcolumnA⟩ := matrix?_le ha hA hA'
      obtain ⟨hbatchB, hrowB, hcolumnB⟩ := matrix?_le hb hB hB'
      obtain ⟨batch, hbatch, hp⟩ := bind_eq_ok_iff.mp hp
      obtain ⟨batch', hbatch', hp'⟩ := bind_eq_ok_iff.mp hp'
      obtain ⟨_, _, hp⟩ := bind_eq_ok_iff.mp hp
      obtain ⟨_, _, hp'⟩ := bind_eq_ok_iff.mp hp'
      obtain rfl := Except.ok.inj hp
      obtain rfl := Except.ok.inj hp'
      refine ⟨hbatchA.broadcast hbatchB hbatch hbatch', ?_, ?_, ?_⟩
      -- Both products read rows and columns of an operand in the same roles.
      · cases d.transA with
        | false => exact hrowA
        | true => exact hcolumnA
      · cases d.transB with
        | false => exact hcolumnB
        | true => exact hrowB
      · cases d.transA with
        | false => exact hcolumnA
        | true => exact hrowA
    next => cases hp'
  next => cases hp

theorem Problem.Within.count_le {p p' : Problem} (h : p.Within p') : p.count ≤ p'.count :=
  max_le_max h.batch.size_le (Nat.le_refl 1)

theorem Problem.Within.outShape {p p' : Problem} (h : p.Within p') :
    Shape.Within (p.batch ++ [p.m, p.n]) (p'.batch ++ [p'.m, p'.n]) :=
  h.batch.append (.cons h.m_le (.cons h.n_le .nil))

variable {α K : Type} [Scalar α] [Field K] [LinearOrder K] [IsStrictOrderedRing K] [Valued α K]

/-- A result of a product takes as much for each of its steps, and as much at its end, as any other.
-/
theorem exists_value_operations (d : MatMul) (biased : Bool) : ∃ step final : K,
    0 ≤ step ∧ 0 ≤ final ∧ ∀ p : Problem, value (d.operations p biased : α) =
      (p.count * p.m * p.n : Nat) * (p.k * step + final) := by
  refine ⟨if d.anyTransposed then 2.1 else 2,
    (if d.act.isSome then 0.1 else 0) + (if biased then 1 else 0), ?_, ?_, ?_⟩
  · positivity
  · positivity
  · intro p
    unfold operations
    push_cast
    cases d.anyTransposed <;> cases d.act.isSome <;> cases biased <;> norm_num <;> ring

theorem value_operations_le (d : MatMul) {p p' : Problem} (h : p.Within p') (biased : Bool) :
    value (d.operations p biased : α) ≤ value (d.operations p' biased : α) := by
  have hresults : p.count * p.m * p.n ≤ p'.count * p'.m * p'.n :=
    Nat.mul_le_mul (Nat.mul_le_mul h.count_le h.m_le) h.n_le
  have hk : (p.k : K) ≤ p'.k := Nat.cast_le.mpr h.k_le
  obtain ⟨step, final, hstep, hfinal, hvalue⟩ := exists_value_operations (α := α) d biased
  rw [hvalue, hvalue]
  gcongr

theorem computeTime_le (d : MatMul) {p p' : Problem} (h : p.Within p') (biased : Bool) :
    value (d.computeTime p biased : α) ≤ value (d.computeTime p' biased : α) := by
  have hoperations := d.value_operations_le (α := α) h biased
  have hthroughput := Precision.value_throughput_ge (α := α) d.precision
  have hpos : 0 ≤ value (d.precision.throughput : α) := by linarith
  simp only [computeTime, Valued.value_div, Valued.value_literal]
  gcongr

/-- A bias is read in both products, or in neither. -/
theorem value_bias_le {cx : CostContext} (hcx : cx.memoryUnit = .elements)
    {rest rest' : List TensorType} (h : Grown rest rest') :
    value (match rest[0]? with | some t => cx.traffic t | none => 0.0 : α) ≤
      value (match rest'[0]? with | some t => cx.traffic t | none => 0.0 : α) := by
  unfold Grown at h
  cases h with
  | nil => exact le_refl _
  | @cons t t' _ _ ht _ =>
    change value (cx.traffic t : α) ≤ value (cx.traffic t' : α)
    rw [CostContext.value_traffic_eq hcx, CostContext.value_traffic_eq hcx]
    exact ht.cast_size_le

end MatMul

instance : Monotone MatMul where
  below {α K _ _ _ _ _ given d d' inputs inputs' outputs outputs' cx m m'} _ hcx h h' hgrown _ hm
      hm' := by
    obtain rfl : d = given := (Except.ok.inj h.yields).symm
    obtain rfl : d' = d := (Except.ok.inj h'.yields).symm
    obtain ⟨a, b, rest, p, t, rfl, hp, rfl⟩ := MatMul.exists_operands h.toRegistered
    obtain ⟨a', b', rest', p', t', rfl, hp', rfl⟩ := MatMul.exists_operands h'.toRegistered
    have ha := hgrown.head
    have hb := hgrown.tail.head
    have hwithin : p.Within p' := MatMul.problem_within ha hb hp hp'
    have hestimated := MatMul.estimated_of_problem hp
    have hestimated' := MatMul.estimated_of_problem hp'
    obtain rfl := Option.some.inj hm
    obtain rfl := Option.some.inj hm'
    constructor
    · -- There are as many inputs in both, so a bias in both or in neither.
      have hbiased : (2 < (a :: b :: rest).length) = (2 < (a' :: b' :: rest').length) := by
        rw [hgrown.length_eq]
      change value (d'.computeTime (d'.estimated a.shape b.shape)
          (2 < (a :: b :: rest).length) : α) ≤
        value (d'.computeTime (d'.estimated a'.shape b'.shape)
          (2 < (a' :: b' :: rest').length) : α)
      rw [hestimated, hestimated']
      simp only [hbiased]
      exact d'.computeTime_le hwithin _
    · have hbias := MatMul.value_bias_le (α := α) hcx hgrown.tail.tail
      have hout : Grown [⟨p.batch ++ [p.m, p.n], t⟩] [⟨p'.batch ++ [p'.m, p'.n], t'⟩] :=
        .cons hwithin.outShape .nil
      have hwritten := value_sum_traffic_le (α := α) hcx hout
      have hcache : 0 ≤ value (if d'.anyTransposed then 0.2 * 1.5 else 0.2 : α) := by
        split <;> norm_num
      have hsizes : (a.size : K) + b.size ≤ a'.size + b'.size :=
        add_le_add ha.cast_size_le hb.cast_size_le
      have hread : value ((cx.traffic a + cx.traffic b) *
            (if d'.anyTransposed then 0.2 * 1.5 else 0.2) : α) ≤
          value ((cx.traffic a' + cx.traffic b') *
            (if d'.anyTransposed then 0.2 * 1.5 else 0.2) : α) := by
        simp only [Valued.value_mul, Valued.value_add, CostContext.value_traffic_eq hcx]
        exact mul_le_mul_of_nonneg_right hsizes hcache
      rw [Valued.value_add, Valued.value_add, Valued.value_add, Valued.value_add]
      exact add_le_add (add_le_add hread hbias) hwritten

end DataflowCost
