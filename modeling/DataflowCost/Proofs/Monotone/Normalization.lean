import DataflowCost.Proofs.Activation
import DataflowCost.Proofs.Keys.Normalization
import DataflowCost.Proofs.Monotone.Basic

/-! Costs of families that work on rows. The axes at which rows begin and end are those of the
definition, so both the rows and the number of them grow with the input. An empty row is counted as
one element, but there is nothing in it. -/
namespace DataflowCost

open Scalar Inference Family
open scoped ExactArithmetic

namespace Shape

variable {s t : Shape}

theorem Within.zipIdx (h : Within s t) (start : Nat) :
    List.Forall₂ (fun a b : Nat × Nat => a.1 ≤ b.1 ∧ a.2 = b.2)
      (s.zipIdx start) (t.zipIdx start) := by
  unfold Within at h
  induction h generalizing start with
  | nil => exact .nil
  | cons hextent _ ih => exact .cons ⟨hextent, rfl⟩ (ih (start + 1))

theorem Within.eraseIdx (h : Within s t) (i : Nat) : Within (s.eraseIdx i) (t.eraseIdx i) := by
  rw [List.eraseIdx_eq_take_drop_succ, List.eraseIdx_eq_take_drop_succ]
  exact (h.take i).append (h.drop (i + 1))

/-- An axis has its extent for each position of the other axes. -/
theorem size_eq_of_getElem? {i extent : Nat} (h : s[i]? = some extent) :
    s.size = extent * size (s.eraseIdx i) := by
  obtain ⟨hlt, rfl⟩ := List.getElem?_eq_some_iff.mp h
  calc s.size = size (s.take i ++ s.drop i) := by rw [List.take_append_drop]
    _ = size (s.take i) * size (s.drop i) := size_append _ _
    _ = size (s.take i) * (s[i] * size (s.drop (i + 1))) := by
      rw [List.drop_eq_getElem_cons hlt]
      rfl
    _ = s[i] * size (s.eraseIdx i) := by
      rw [List.eraseIdx_eq_take_drop_succ, size_append]
      ring

section Rows

variable {K : Type} [Field K] [LinearOrder K] [IsStrictOrderedRing K]

/-- There are as many rows along an axis as the other axes have positions, unless rows are empty. -/
theorem rows_eq {i extent : Nat} (h : s[i]? = some extent) :
    (s.size : K) / (max extent 1 : Nat) = if extent = 0 then 0 else (size (s.eraseIdx i) : K) := by
  rw [size_eq_of_getElem? h]
  split
  next hzero => rw [hzero, Nat.zero_mul, Nat.cast_zero, zero_div]
  next hne =>
    have hpos : (extent : K) ≠ 0 := Nat.cast_ne_zero.mpr hne
    rw [Nat.max_eq_left (Nat.one_le_iff_ne_zero.mpr hne), Nat.cast_mul, mul_div_cancel_left₀ _ hpos]

theorem Within.rows_le (h : Within s t) {i extent extent' : Nat} (hs : s[i]? = some extent)
    (ht : t[i]? = some extent') :
    (s.size : K) / (max extent 1 : Nat) ≤ (t.size : K) / (max extent' 1 : Nat) := by
  have hextent : extent ≤ extent' := h.entry_le hs ht
  -- Empty rows are not counted, and rows that are not empty stay so.
  by_cases hzero : extent = 0
  · rw [rows_eq hs, if_pos hzero]
    positivity
  · have hzero' : extent' ≠ 0 := by omega
    rw [rows_eq hs, rows_eq ht, if_neg hzero, if_neg hzero']
    exact Nat.cast_le.mpr (h.eraseIdx i).size_le

end Rows

end Shape

namespace Reduce

theorem extentsAt_within (p : Nat → Bool) {s t : Shape} (h : Shape.Within s t) :
    Shape.Within (extentsAt p s) (extentsAt p t) := by
  unfold extentsAt Shape.Within
  rw [List.forall₂_map_left_iff, List.forall₂_map_right_iff]
  -- Axes in the same place are both taken, or both left out.
  have hsame (a b : Nat × Nat) (hab : a.1 ≤ b.1 ∧ a.2 = b.2) : p a.2 = true ↔ p b.2 = true := by
    rw [hab.2]
  exact (List.rel_filter hsame (h.zipIdx 0)).imp fun _ _ hab => hab.1

theorem outShape_within (d : Reduce) {s t : Shape} (h : Shape.Within s t) :
    Shape.Within (d.outShape s) (d.outShape t) := by
  unfold outShape
  split
  · unfold Shape.Within
    rw [List.forall₂_map_left_iff, List.forall₂_map_right_iff]
    refine (h.zipIdx 0).imp ?_
    rintro ⟨extent, axis⟩ ⟨extent', _⟩ ⟨hextent, rfl⟩
    dsimp only
    split
    · exact Nat.le_refl 1
    · exact hextent
  · have hkept : Shape.Within (d.kept s) (d.kept t) := extentsAt_within _ h
    -- Axes are left in both shapes, or in neither of them.
    cases hs : d.kept s with
    | nil =>
      rw [hs] at hkept
      rw [List.forall₂_nil_left_iff.mp hkept]
      exact .refl [1]
    | cons extent rest =>
      rw [hs] at hkept
      obtain ⟨extent', rest', _, _, ht⟩ := List.forall₂_cons_left_iff.mp hkept
      rw [ht] at hkept ⊢
      exact hkept

theorem resolve_congr {given d d' : Reduce} {rank rank' : Nat} (hrank : rank = rank')
    (h : given.resolve rank = .ok d) (h' : given.resolve rank' = .ok d') : d = d' :=
  Except.ok.inj (h.symm.trans (hrank ▸ h'))

section Cost

variable {α K : Type} [Scalar α] [Field K] [LinearOrder K] [IsStrictOrderedRing K] [Valued α K]

/-- What one result is combined from: a mean takes a division more, unless it is of nothing. -/
def steps (d : Reduce) (reduced : Nat) : Nat :=
  if d.kind = .reduceMean ∧ 0 < reduced then reduced + 1 else reduced

theorem steps_le (d : Reduce) {reduced reduced' : Nat} (h : reduced ≤ reduced') :
    d.steps reduced ≤ d.steps reduced' := by
  unfold steps
  by_cases hmean : d.kind = .reduceMean
  · simp only [hmean, true_and]
    split <;> split <;> omega
  · simp only [hmean, false_and, if_false]
    exact h

theorem value_steps (d : Reduce) (reduced : Nat) : (reduced : K) *
    value (if d.kind = .reduceMean && lt 0.0 (ofNat reduced : α) then 1.0 + 1.0 / ofNat reduced
      else 1.0 : α) = d.steps reduced := by
  have hpositive : lt 0.0 (ofNat reduced : α) = true ↔ 0 < reduced := by
    rw [Valued.lt_iff, Valued.value_literal, Valued.value_ofNat]
    norm_num
  unfold steps
  -- Only a mean of something divides, and then by what it is the mean of.
  by_cases hmean : d.kind = .reduceMean ∧ 0 < reduced
  · have hne : (reduced : K) ≠ 0 := Nat.cast_ne_zero.mpr (Nat.ne_of_gt hmean.2)
    have htest : (decide (d.kind = .reduceMean) && lt 0.0 (ofNat reduced : α)) = true := by
      rw [Bool.and_eq_true, decide_eq_true_eq, hpositive]
      exact hmean
    rw [if_pos htest, if_pos hmean, Valued.value_add, Valued.value_div, Valued.value_literal,
      Valued.value_ofNat]
    norm_num
    field_simp
  · have htest : ¬ (decide (d.kind = .reduceMean) && lt 0.0 (ofNat reduced : α)) = true := by
      rw [Bool.and_eq_true, decide_eq_true_eq, hpositive]
      exact hmean
    rw [if_neg htest, if_neg hmean, Valued.value_literal]
    norm_num

theorem value_computeTime (d : Reduce) (s : Shape) :
    value (d.computeTime s : α) = (max (Shape.size (d.kept s)) 1 : Nat) *
      (d.steps (Shape.size (d.reduced s)) : K) *
        (if d.reducesOuter s.length then 1.5 else 1) / 1.5e9 := by
  have hsteps := value_steps (α := α) d (Shape.size (d.reduced s))
  unfold computeTime
  rw [volume_eq, volume_eq]
  simp only [Valued.value_div, Valued.value_mul, Valued.value_maximum, Valued.value_ofNat,
    Valued.value_literal]
  rw [mul_assoc (max _ _), hsteps, Nat.cast_max]
  cases d.reducesOuter s.length <;> norm_num

theorem computeTime_le (d : Reduce) {s t : Shape} (h : Shape.Within s t) :
    value (d.computeTime s : α) ≤ value (d.computeTime t : α) := by
  have hkept : max (Shape.size (d.kept s)) 1 ≤ max (Shape.size (d.kept t)) 1 :=
    max_le_max (extentsAt_within _ h).size_le (Nat.le_refl 1)
  have hsteps : d.steps (Shape.size (d.reduced s)) ≤ d.steps (Shape.size (d.reduced t)) :=
    d.steps_le (extentsAt_within _ h).size_le
  have hresults : (max (Shape.size (d.kept s)) 1 : Nat) * (d.steps (Shape.size (d.reduced s)) : K) ≤
      (max (Shape.size (d.kept t)) 1 : Nat) * (d.steps (Shape.size (d.reduced t)) : K) := by
    exact_mod_cast Nat.mul_le_mul hkept hsteps
  rw [value_computeTime, value_computeTime, h.rank_eq]
  gcongr

theorem memoryCost_le (d : Reduce) (rank : Nat) {input input' output output' : α}
    (hinput : value input ≤ value input') (houtput : value output ≤ value output') :
    value (d.memoryCost rank input output) ≤ value (d.memoryCost rank input' output') := by
  have haccess : 0 ≤ value (if d.reducesOuter rank then 1.0 + 0.2 * ofNat d.resolved.length
      else 1.0 + 0.05 * ofNat d.resolved.length : α) := by
    split <;>
      simp only [Valued.value_add, Valued.value_mul, Valued.value_ofNat, Valued.value_literal] <;>
      positivity
  have hscratch : value (if d.isScattered then input * 0.1 else 0.0) ≤
      value (if d.isScattered then input' * 0.1 else 0.0) := by
    apply value_ite_le
    · rw [Valued.value_mul, Valued.value_mul, Valued.value_literal]
      gcongr
    · exact le_refl _
  unfold memoryCost
  rw [Valued.value_add, Valued.value_add, Valued.value_add, Valued.value_add, Valued.value_mul,
    Valued.value_mul]
  exact add_le_add (add_le_add (mul_le_mul_of_nonneg_right hinput haccess) houtput) hscratch

end Cost

end Reduce

instance : Monotone Reduce where
  below {α K _ _ _ _ _ given d d' inputs inputs' outputs outputs' cx m m'} _ hcx h h' hgrown _ hm
      hm' := by
    obtain ⟨x, rest, rfl⟩ := Arity.exists_cons_of_accepts h.accepts (Nat.le_refl 1)
    obtain ⟨x', rest', rfl⟩ := Arity.exists_cons_of_accepts h'.accepts (Nat.le_refl 1)
    have hrank : x.rank = x'.rank := hgrown.head.rank_eq
    obtain rfl : d = d' := Reduce.resolve_congr hrank h.yields h'.yields
    obtain ⟨out, rfl, hout⟩ := exists_output h.outShapes_eq
    obtain ⟨out', rfl, hout'⟩ := exists_output h'.outShapes_eq
    obtain rfl := Option.some.inj hm
    obtain rfl := Option.some.inj hm'
    have houts : Grown [out] [out'] := by
      refine .cons ?_ .nil
      rw [hout, hout']
      exact d.outShape_within hgrown.head
    constructor
    · exact d.computeTime_le hgrown.head
    · have hin := value_sum_traffic_le (α := α) hcx hgrown
      have hwritten := value_sum_traffic_le (α := α) hcx houts
      change value (d.memoryCost x.rank _ _) ≤ value (d.memoryCost x'.rank _ _)
      rw [hrank]
      exact d.memoryCost_le x'.rank hin hwritten

namespace Softmax

/-- Inputs of one rank leave no choice of the axis. -/
theorem eq_of_settles {given d d' : Softmax} {x x' : TensorType}
    {rest rest' outputs outputs' : List TensorType} (hrank : x.rank = x'.rank)
    (h : Settles given (x :: rest) d outputs) (h' : Settles given (x' :: rest') d' outputs') :
    d = d' := by
  have hd : (Axis.resolve given.axis x.rank >>= fun resolved => .ok { given with resolved }) =
      .ok d := h.yields
  have hd' : (Axis.resolve given.axis x'.rank >>= fun resolved => .ok { given with resolved }) =
      .ok d' := h'.yields
  rw [hrank] at hd
  exact Except.ok.inj (hd.symm.trans hd')

section Cost

variable {α K : Type} [Scalar α] [Field K] [LinearOrder K] [IsStrictOrderedRing K] [Valued α K]

/-- What reads and writes of rows are multiplied by if their elements lie apart. -/
def access (d : Softmax) (rank : Nat) (base : α) : α :=
  if lt 0.0 (ofNat (d.inner rank) : α) then base + 0.1 * ofNat (d.inner rank) else 1.0

theorem value_access_nonneg (d : Softmax) (rank : Nat) {base : α} (hbase : 0 ≤ value base) :
    0 ≤ value (d.access rank base) := by
  unfold access
  split <;>
    simp only [Valued.value_add, Valued.value_mul, Valued.value_ofNat, Valued.value_literal] <;>
    positivity

theorem computeTime_le (d : Softmax) {s t : Shape} (h : Shape.Within s t) :
    value (d.time s : α) ≤ value (d.time t : α) := by
  have hsize : (s.size : K) ≤ t.size := Nat.cast_le.mpr h.size_le
  have hcache : 0 ≤ value (d.access t.length 1.2 : α) := d.value_access_nonneg _ (by norm_num)
  change value (ofNat s.size * 8.0 * d.access s.length 1.2 / 1e9 : α) ≤
    value (ofNat t.size * 8.0 * d.access t.length 1.2 / 1e9 : α)
  rw [h.rank_eq]
  simp only [Valued.value_div, Valued.value_mul, Valued.value_ofNat, Valued.value_literal]
  gcongr

/-- What is read and written, and two figures for each row. -/
theorem exists_memoryCost {d : Softmax} {x : TensorType} {rest outputs : List TensorType}
    {cx : CostContext} (hcx : cx.memoryUnit = .elements) {m : Metrics α}
    (h : metrics d ⟨x :: rest, outputs⟩ cx = some m) :
    ∃ extent, x.shape[d.resolved]? = some extent ∧ value m.memoryCost =
      (value (sum ((x :: rest).map cx.traffic) : α) + value (sum (outputs.map cx.traffic) : α)) *
        value (d.access x.rank 1.3 : α) + (x.shape.size : K) / (max extent 1 : Nat) * 2 := by
  obtain ⟨_, hx, h⟩ := Option.bind_eq_some_iff.mp h
  obtain rfl := Option.some.inj hx
  obtain ⟨extent, hextent, h⟩ := Option.bind_eq_some_iff.mp h
  obtain rfl := Option.some.inj h
  refine ⟨extent, hextent, ?_⟩
  have hrows : value (cx.scaled (x.elements / ofNat (max extent 1) * 2.0)
      (Io.dtype ⟨x :: rest, outputs⟩) : α) = (x.shape.size : K) / (max extent 1 : Nat) * 2 := by
    rw [CostContext.scaled_eq hcx, Valued.value_mul, Valued.value_div, value_elements,
      Valued.value_ofNat, Valued.value_literal, TensorType.size]
    norm_num
  rw [← hrows, ← Valued.value_add, ← Valued.value_mul, ← Valued.value_add]
  rfl

end Cost

end Softmax

instance : Monotone Softmax where
  below {α K _ _ _ _ _ given d d' inputs inputs' outputs outputs' cx m m'} _ hcx h h' hgrown _ hm
      hm' := by
    obtain ⟨x, rest, out, rfl, rfl, hout⟩ := exists_sameShape h.outShapes_eq
    obtain ⟨x', rest', out', rfl, rfl, hout'⟩ := exists_sameShape h'.outShapes_eq
    have hrank : x.rank = x'.rank := hgrown.head.rank_eq
    obtain rfl := Softmax.eq_of_settles hrank h h'
    have houts : Grown [out] [out'] := hgrown.sameShape hout hout'
    constructor
    · rw [Softmax.computeTime_eq hm, Softmax.computeTime_eq hm']
      exact d.computeTime_le hgrown.head
    · obtain ⟨extent, hextent, hm⟩ := Softmax.exists_memoryCost hcx hm
      obtain ⟨extent', hextent', hm'⟩ := Softmax.exists_memoryCost hcx hm'
      have hin := value_sum_traffic_le (α := α) hcx hgrown
      have hwritten := value_sum_traffic_le (α := α) hcx houts
      have hrows := hgrown.head.rows_le (K := K) hextent hextent'
      have haccess : 0 ≤ value (d.access x'.rank 1.3 : α) := d.value_access_nonneg _ (by norm_num)
      rw [hm, hm', hrank]
      gcongr

namespace LayerNorm

/-- Only the axis is resolved; parameters are checked. -/
theorem exists_resolved {given d : LayerNorm} {x : TensorType} {rest outputs : List TensorType}
    (h : Settles given (x :: rest) d outputs) :
    ∃ resolved, Axis.resolve given.axis x.rank = .ok resolved ∧ d = { given with resolved } := by
  obtain ⟨_, hx, hd⟩ := bind_eq_ok_iff.mp h.yields
  obtain rfl := Except.ok.inj hx
  obtain ⟨resolved, hresolved, hd⟩ := bind_eq_ok_iff.mp hd
  obtain ⟨_, _, hd⟩ := bind_eq_ok_iff.mp hd
  exact ⟨resolved, hresolved, (Except.ok.inj hd).symm⟩

/-- Inputs of one rank leave no choice of the axis. -/
theorem eq_of_settles {given d d' : LayerNorm} {x x' : TensorType}
    {rest rest' outputs outputs' : List TensorType} (hrank : x.rank = x'.rank)
    (h : Settles given (x :: rest) d outputs) (h' : Settles given (x' :: rest') d' outputs') :
    d = d' := by
  obtain ⟨resolved, hresolved, rfl⟩ := exists_resolved h
  obtain ⟨resolved', hresolved', rfl⟩ := exists_resolved h'
  rw [hrank] at hresolved
  rw [Except.ok.inj (hresolved.symm.trans hresolved')]

section Cost

variable {α K : Type} [Scalar α] [Field K] [LinearOrder K] [IsStrictOrderedRing K] [Valued α K]

theorem value_time (outer normalized : Nat) (biased : Bool) :
    value (time (ofNat outer) (ofNat normalized) biased : α) =
      ((8 + if biased then 1 else 0) * (outer * normalized) + 2 * outer : K) / 1.5e9 := by
  unfold time
  simp only [Valued.value_div, Valued.value_add, Valued.value_mul, Valued.value_ofNat,
    Valued.value_literal]
  cases biased <;> norm_num <;> ring

theorem computeTime_le {s s' t t' : Shape} (houter : Shape.Within s s')
    (hnormalized : Shape.Within t t') (biased : Bool) :
    value (time (volume s) (volume t) biased : α) ≤
      value (time (volume s') (volume t') biased : α) := by
  have houter : (s.size : K) ≤ s'.size := Nat.cast_le.mpr houter.size_le
  have hnormalized : (t.size : K) ≤ t'.size := Nat.cast_le.mpr hnormalized.size_le
  have hfactor : (0 : K) ≤ 8 + if biased then 1 else 0 := by positivity
  rw [volume_eq, volume_eq, volume_eq, volume_eq, value_time, value_time]
  gcongr

/-- What is read and written, and two figures for each row. -/
theorem value_memoryCost {d : LayerNorm} {x : TensorType} {rest outputs : List TensorType}
    {cx : CostContext} (hcx : cx.memoryUnit = .elements) (hle : d.resolved ≤ x.shape.length)
    {m : Metrics α} (h : metrics d ⟨x :: rest, outputs⟩ cx = some m) : value m.memoryCost =
      value (sum ((x :: rest).map cx.traffic) : α) + value (sum (outputs.map cx.traffic) : α) +
        2 * (Shape.size (x.shape.take d.resolved) : K) := by
  obtain ⟨_, hx, h⟩ := Option.bind_eq_some_iff.mp h
  obtain rfl := Option.some.inj hx
  obtain ⟨outer, houter, h⟩ := Option.bind_eq_some_iff.mp h
  obtain ⟨normalized, _, h⟩ := Option.bind_eq_some_iff.mp h
  obtain rfl := Option.some.inj ((Shape.before?_of_le hle).symm.trans houter)
  obtain rfl := Option.some.inj h
  have hrows : value (cx.scaled (2.0 * volume (x.shape.take d.resolved))
      (Io.dtype ⟨x :: rest, outputs⟩) : α) = 2 * (Shape.size (x.shape.take d.resolved) : K) := by
    rw [CostContext.scaled_eq hcx, Valued.value_mul, value_volume, Valued.value_literal]
    norm_num
  rw [← hrows, ← Valued.value_add, ← Valued.value_add]
  rfl

end Cost

end LayerNorm

instance : Monotone LayerNorm where
  below {α K _ _ _ _ _ given d d' inputs inputs' outputs outputs' cx m m'} _ hcx h h' hgrown _ hm
      hm' := by
    obtain ⟨x, rest, out, rfl, rfl, hout⟩ := exists_sameShape h.outShapes_eq
    obtain ⟨x', rest', out', rfl, rfl, hout'⟩ := exists_sameShape h'.outShapes_eq
    obtain rfl := LayerNorm.eq_of_settles hgrown.head.rank_eq h h'
    have hle : d.resolved ≤ x.shape.length := Nat.le_of_lt (h.lawful _ rfl)
    have hle' : d.resolved ≤ x'.shape.length := Nat.le_of_lt (h'.lawful _ rfl)
    have houter := hgrown.head.take d.resolved
    have houts : Grown [out] [out'] := hgrown.sameShape hout hout'
    constructor
    · rw [LayerNorm.computeTime_eq hle hm, LayerNorm.computeTime_eq hle' hm', hgrown.length_eq]
      exact LayerNorm.computeTime_le houter (hgrown.head.drop d.resolved) _
    · have hin := value_sum_traffic_le (α := α) hcx hgrown
      have hwritten := value_sum_traffic_le (α := α) hcx houts
      have hrows : (Shape.size (x.shape.take d.resolved) : K) ≤
          Shape.size (x'.shape.take d.resolved) := Nat.cast_le.mpr houter.size_le
      rw [LayerNorm.value_memoryCost hcx hle hm, LayerNorm.value_memoryCost hcx hle' hm']
      gcongr

end DataflowCost
