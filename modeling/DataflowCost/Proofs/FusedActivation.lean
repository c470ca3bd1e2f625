import DataflowCost.Proofs.Activation
import DataflowCost.Proofs.Appended
import DataflowCost.Proofs.Decision
import DataflowCost.Proofs.Keys.Operators

/-! An activation that is applied by the operator itself, against one that is an operator of its
own. The graph in which it is fused takes less time and less memory, and is chosen for it. -/
namespace DataflowCost

open Scalar Inference Family
open scoped ExactArithmetic

/-- The map that an activation stands for. -/
def Activation.kind? : Activation → Option Kind
  | .none => Option.none
  | .relu => some .relu
  | .sigmoid => some .sigmoid
  | .tanh => some .tanh

namespace Operator

/-- The operator with another activation, if it can carry one. -/
def withActivation (act : Activation) : Operator → Option Operator
  | elementwise d =>
    if Elementwise.fusesActivation d.kind then some (elementwise { d with act }) else none
  | matMul d => some (matMul { d with act })
  | gbmm d => some (gbmm { d with act })
  | g2bmm d => some (g2bmm { d with act })
  | conv2d d => some (conv2d { d with act })
  | conv3d d => some (conv3d { d with act })
  | convTranspose d => some (convTranspose { d with act })
  | convBackwardFilter d => some (convBackwardFilter { d with act })
  | _ => none

/-- An operator with an activation costs a surcharge more than the one without it, in every exact
arithmetic. -/
structure Surcharged (op op' : Operator) (io : Io) (count : Nat) : Prop where
  metrics : ∀ {α K : Type} [Scalar α] [Field K] [LinearOrder K] [IsStrictOrderedRing K]
    [Valued α K] (cx : CostContext) {m m' : Metrics α}, op.metrics io cx = some m →
    op'.metrics io cx = some m' → m.Surcharged count m'

variable {op plain fused : Operator} {act : Activation}

/-- What holds of a definition of any activated family, without an activation and with one, holds of
the two operators that come from one. -/
theorem of_activated {p : Operator → Operator → Prop}
    (h : ∀ {δ : Type} [Family δ] [LawfulFamily δ] [Activated δ] {wrap : δ → Operator},
      Wraps wrap → ∀ d : δ, Activated.Carries d →
        p (wrap (Activated.withAct .none d)) (wrap (Activated.withAct act d)))
    (hplain : op.withActivation .none = some plain) (hfused : op.withActivation act = some fused) :
    p plain fused := by
  cases op with
  | elementwise d =>
    simp only [withActivation, Option.ite_none_right_eq_some, Option.some.injEq] at hplain hfused
    obtain ⟨hcarries, rfl⟩ := hplain
    obtain ⟨_, rfl⟩ := hfused
    exact h ⟨fun _ _ => rfl, fun _ _ hole => hole⟩ d hcarries
  | matMul d | gbmm d | g2bmm d | conv2d d | conv3d d | convTranspose d | convBackwardFilter d =>
    obtain rfl := Option.some.inj hplain
    obtain rfl := Option.some.inj hfused
    exact h ⟨fun _ _ => rfl, fun _ _ hole => hole⟩ d trivial
  | _ => cases hplain

namespace Wraps

variable {δ : Type} [Family δ] [LawfulFamily δ] [Activated δ] {wrap : δ → Operator}

theorem arity_withAct (hwrap : Wraps wrap) (act : Activation) (d : δ) :
    (wrap (Activated.withAct act d)).arity = Family.arity d := by
  rw [hwrap.arity_eq, Activated.arity_eq]

theorem outShapes_withAct (hwrap : Wraps wrap) (act : Activation) (d : δ)
    (types : List TensorType) :
    (wrap (Activated.withAct act d)).outShapes types = Family.outShapes d types :=
  (hwrap.withFamily_eq _ _).trans (Activated.outShapes_eq act d types)

theorem outTypes_withAct (hwrap : Wraps wrap) (act : Activation) (d : δ)
    (types : List TensorType) :
    (wrap (Activated.withAct act d)).outTypes types = Family.outTypes d types :=
  (hwrap.withFamily_eq _ _).trans (Activated.outTypes_eq act d types)

/-- Attributes are resolved with an activation as without. -/
theorem run_prepare_withAct (hwrap : Wraps wrap) (act : Activation) {d : δ}
    (hcarries : Activated.Carries d) (host : Host) (tensors : List Tensor) :
    ((wrap (Activated.withAct act d)).prepare (tensors.map Tensor.type)).run host tensors =
      (fun d => wrap (Activated.withAct act d)) <$>
        (Family.prepare d (tensors.map Tensor.type)).run host tensors := by
  have hwrapped : (wrap (Activated.withAct act d)).prepare (tensors.map Tensor.type) =
      (Family.prepare (Activated.withAct act d) (tensors.map Tensor.type)).map wrap :=
    hwrap.withFamily_eq _ _
  rw [hwrapped, Activated.prepare_eq act d _ hcarries, Preparation.run_map, Preparation.run_map]
  exact (comp_map _ _ _).symm

/-- A definition with one activation and with another is resolved to one definition, and infers the
same outputs. -/
theorem infer_withAct (hwrap : Wraps wrap) {d : δ} (hcarries : Activated.Carries d)
    {g : Graph} {inputs : List TensorId} {inferred : Graph.Inferred} {a : Activation}
    (h : g.infer (wrap (Activated.withAct a d)) inputs = .ok inferred) (b : Activation) :
    ∃ d', inferred.op = wrap (Activated.withAct a d') ∧
      g.infer (wrap (Activated.withAct b d)) inputs =
        .ok ⟨wrap (Activated.withAct b d'), inferred.outputs⟩ := by
  obtain ⟨tensors, prepared, shapes, dtypes, hoperands, hprepare, hshapes, hdtypes, rfl⟩ :=
    Graph.infer_eq_ok_iff.mp h
  rw [hwrap.run_prepare_withAct a hcarries] at hprepare
  cases hresolved : (Family.prepare d (tensors.map Tensor.type)).run g.host tensors with
  | error refusal =>
    rw [hresolved] at hprepare
    cases hprepare
  | ok d' =>
    rw [hresolved] at hprepare
    have hprepared : wrap (Activated.withAct a d') = prepared := Except.ok.inj hprepare
    refine ⟨d', hprepared.symm, ?_⟩
    apply Graph.infer_eq_ok_iff.mpr
    refine ⟨tensors, wrap (Activated.withAct b d'), shapes, dtypes, ?_, ?_, ?_, ?_, rfl⟩
    · have harity : (wrap (Activated.withAct a d)).arity =
          (wrap (Activated.withAct b d)).arity := by
        rw [hwrap.arity_withAct, hwrap.arity_withAct]
      exact Graph.operands_congr harity hoperands
    · rw [hwrap.run_prepare_withAct b hcarries, hresolved]
      rfl
    · rw [hwrap.outShapes_withAct, ← hshapes, ← hprepared, hwrap.outShapes_withAct]
    · rw [hwrap.outTypes_withAct, ← hdtypes, ← hprepared, hwrap.outTypes_withAct]

end Wraps

end Operator

namespace Unary

variable {k : Kind} {act : Activation}

theorem isUnary_of_kind? (h : act.kind? = some k) : k.isUnary = true := by
  cases act with
  | none => cases h
  | relu | sigmoid | tanh =>
    obtain rfl := Option.some.inj h
    rfl

variable {α K : Type} [Scalar α] [Field K] [LinearOrder K] [IsStrictOrderedRing K] [Valued α K]

/-- An activation is no less work than a rectifier, and no less traffic. -/
theorem one_le_of_kind? (h : act.kind? = some k) :
    1 ≤ value (work k : α) ∧ 1 ≤ value (trafficFactor k : α) := by
  cases act with
  | none => cases h
  | relu | sigmoid | tanh =>
    obtain rfl := Option.some.inj h
    norm_num [work, trafficFactor]

theorem computeTime_ge (h : act.kind? = some k) {x : TensorType} {outputs : List TensorType}
    {cx : CostContext} {m : Metrics α}
    (hm : (Operator.unary ⟨k⟩).metrics ⟨[x], outputs⟩ cx = some m) :
    (x.size : K) / 2e9 ≤ value m.computeTime := by
  obtain rfl := Option.some.inj hm
  have hwork := (one_le_of_kind? (α := α) h).1
  have hsize : (0 : K) ≤ x.size := Nat.cast_nonneg x.size
  simp only [Valued.value_div, Valued.value_mul, value_elements, Valued.value_literal]
  apply div_le_div_of_nonneg_right _ (by norm_num)
  exact le_mul_of_one_le_right hsize hwork

theorem memoryCost_pos (h : act.kind? = some k) {x : TensorType} {outputs : List TensorType}
    (hsize : 0 < x.size) {cx : CostContext} {m : Metrics α}
    (hm : (Operator.unary ⟨k⟩).metrics ⟨[x], outputs⟩ cx = some m) :
    0 < value m.memoryCost := by
  obtain rfl := Option.some.inj hm
  have hfactor := (one_le_of_kind? (α := α) h).2
  have hin : 0 < value (Io.inTraffic ⟨[x], outputs⟩ cx : α) := by
    rw [Io.value_inTraffic]
    have hweight := cx.weight_pos x.dtype
    simp only [List.map_cons, List.map_nil, List.sum_cons, List.sum_nil, add_zero]
    positivity
  have hout : 0 ≤ value (Io.outTraffic ⟨[x], outputs⟩ cx : α) := by
    rw [Io.value_outTraffic]
    apply List.sum_nonneg
    intro y hy
    obtain ⟨t, _, rfl⟩ := List.mem_map.mp hy
    positivity
  have htraffic : 0 < value (Io.inTraffic ⟨[x], outputs⟩ cx : α) +
      value (Io.outTraffic ⟨[x], outputs⟩ cx : α) := add_pos_of_pos_of_nonneg hin hout
  simp only [Valued.value_mul, Valued.value_add]
  exact mul_pos htraffic (lt_of_lt_of_le one_pos hfactor)

end Unary

namespace Graph

variable {g : Graph} {op plain fused : Operator} {act : Activation} {inputs : List TensorId}
  {inferred : Inferred}

/-- With an activation an operator infers the same output as without. -/
theorem exists_infer_withActivation (hplain : op.withActivation .none = some plain)
    (hfused : op.withActivation act = some fused) (hinfer : g.infer plain inputs = .ok inferred) :
    ∃ types out op', g.typesOf? inputs = some types ∧ inferred.outputs = [out] ∧
      g.infer fused inputs = .ok ⟨op', [out]⟩ ∧
      (0 < out.size → inferred.op.Surcharged op' ⟨types, [out]⟩ out.size) := by
  revert hinfer
  refine Operator.of_activated (p := fun plain fused => g.infer plain inputs = .ok inferred →
    ∃ types out op', g.typesOf? inputs = some types ∧ inferred.outputs = [out] ∧
      g.infer fused inputs = .ok ⟨op', [out]⟩ ∧
      (0 < out.size → inferred.op.Surcharged op' ⟨types, [out]⟩ out.size)) ?_ hplain hfused
  intro δ _ _ _ wrap hwrap d hcarries hinfer
  obtain ⟨types, htypes, hregistered⟩ := registered_of_infer hinfer
  obtain ⟨d', hop, hinferFused⟩ := hwrap.infer_withAct hcarries hinfer act
  have hone : inferred.outputs.length = 1 := by
    rw [hregistered.length_outputs, hop, hwrap.arity_withAct, Activated.outputs_eq]
  obtain ⟨out, hout⟩ := List.length_eq_one_iff.mp hone
  rw [hout] at hinferFused hregistered
  refine ⟨types, out, _, htypes, hout, hinferFused, ?_⟩
  intro hpos
  have hd' : Registered (Activated.withAct .none d') types [out] := by
    have hfamily := hregistered.family
    rw [hop, hwrap.withFamily_eq] at hfamily
    exact hfamily
  constructor
  intro α K _ _ _ _ _ cx m m' hm hm'
  rw [hop] at hm
  apply Activated.surcharged act hd' hpos cx
  · exact (hwrap.withFamily_eq _ _).symm.trans hm
  · exact (hwrap.withFamily_eq _ _).symm.trans hm'

/-- A map of the one output of an operator is accepted, and has its type. -/
theorem infer_unary {k : Kind} (hk : k.isUnary = true) {ids : List TensorId} {x : TensorType}
    (h : g.typesOf? ids = some [x]) : g.infer (.unary ⟨k⟩) ids = .ok ⟨.unary ⟨k⟩, [x]⟩ := by
  obtain ⟨t, y, rfl, hy, rfl⟩ := exists_singleton_of_typesOf? h
  have hoperands : g.operands (.unary ⟨k⟩) [t] = .ok [y] := by
    have htensor : g.tensor t = .ok y := tensor_eq_ok_iff.mpr hy
    unfold operands
    rw [List.mapM_cons, htensor]
    rfl
  have hprepare : ((Operator.unary ⟨k⟩).prepare [y.type]).run g.host [y] = .ok (.unary ⟨k⟩) := by
    change (fun d => Operator.unary d) <$> (do require (k.isUnary = true) _; return ⟨k⟩) = _
    rw [require, if_pos hk]
    rfl
  apply infer_eq_ok_iff.mpr
  exact ⟨[y], .unary ⟨k⟩, [y.type.shape], [y.type.dtype], hoperands, hprepare, rfl, rfl, rfl⟩

end Graph

namespace Metrics

variable {α K : Type} [Scalar α] [Field K] [LinearOrder K] [IsStrictOrderedRing K] [Valued α K]

/-- A surcharge for each result is less than a map of the results. -/
theorem fused_lt_plain (rows : List (Metrics α)) {m m' u : Metrics α} {count : Nat}
    (hcount : 0 < count) (hm : m.Surcharged count m')
    (htime : (count : K) / 2e9 ≤ value u.computeTime) (hmemory : 0 < value u.memoryCost)
    (r : Reducer) :
    value (total r (rows ++ [m'])).computeTime < value (total r (rows ++ [m] ++ [u])).computeTime ∧
      value (total r (rows ++ [m'])).memoryCost <
        value (total r (rows ++ [m] ++ [u])).memoryCost := by
  have hpos : (0 : K) < count := Nat.cast_pos.mpr hcount
  have hsurcharge : (count : K) / 8e9 < (count : K) / 2e9 :=
    div_lt_div_of_pos_left hpos (by norm_num) (by norm_num)
  have htimes := hm.computeTime_le
  have hmemories := congrArg value hm.memoryCost_eq
  simp only [value_total_computeTime, value_total_memoryCost, List.map_append, List.map_cons,
    List.map_nil, List.sum_append, List.sum_cons, List.sum_nil, add_zero]
  constructor
  · linarith
  · linarith

theorem value_foldParallelism_min_le {rows : List (Metrics α)} {m m' : Metrics α} (u : Metrics α)
    (h : m'.parallelism = m.parallelism) :
    value (foldParallelism .min (rows ++ [m] ++ [u])) ≤
      value (foldParallelism .min (rows ++ [m'])) := by
  have hsame : foldParallelism .min (rows ++ [m']) = foldParallelism .min (rows ++ [m]) := by
    apply foldParallelism_congr
    rw [List.map_append, List.map_append, List.map_singleton, List.map_singleton, h]
  have hne : rows ++ [m] ≠ [] := List.append_ne_nil_of_right_ne_nil rows (List.cons_ne_nil m [])
  rw [hsame]
  exact value_foldParallelism_min_concat_le hne u

end Metrics

namespace Graph

variable {g : Graph} {op plain fused : Operator} {act : Activation} {k : Kind}
  {inputs : List TensorId} {guid : Nat} {base : Extended OpId} {v : OpView}

/-- The operator and the map, and the operator with the activation, in whatever graph they are added
to: besides the rows of that graph there are two rows, and one. -/
theorem Reachable.exists_fused_rows (hg : g.Reachable) (hforward : g.Forward)
    (hplain : op.withActivation .none = some plain) (hfused : op.withActivation act = some fused)
    (hk : act.kind? = some k) (hbase : g.addOp guid plain inputs = .ok base)
    (hv : base.graph.view base.id = .ok v) (hsize : ∀ t ∈ v.outputs, 0 < t.type.size) :
    ∃ (U F : Extended OpId) (out : TensorType),
      base.graph.addOp base.nextGuid (.unary ⟨k⟩) v.node.outputs = .ok U ∧
      g.addOp guid fused inputs = .ok F ∧ 0 < out.size ∧
      ∀ {α K : Type} [Scalar α] [Field K] [LinearOrder K] [IsStrictOrderedRing K] [Valued α K]
        (c : Config α), ∃ (rows : List (Metrics α)) (m u m' : Metrics α),
        c.rowsOf U.graph = .ok (rows ++ [m] ++ [u]) ∧ c.rowsOf F.graph = .ok (rows ++ [m']) ∧
        m.Surcharged out.size m' ∧
        (Operator.unary ⟨k⟩).metrics ⟨[out], [out]⟩ c.context = some u := by
  obtain ⟨inferred, types, w, hinfer, htypes, hw, _, _, houts, houtTypes⟩ := hg.view_of_addOp hbase
  obtain rfl : v = w := Except.ok.inj (hv.symm.trans hw)
  obtain ⟨_, out, op', htypes', hout, hinferFused, hsurcharged⟩ :=
    exists_infer_withActivation hplain hfused hinfer
  obtain rfl := Option.some.inj (htypes.symm.trans htypes')
  rw [hout] at houts houtTypes
  have hcount : 0 < out.size := by
    obtain ⟨t, ht, htype⟩ := List.map_eq_singleton_iff.mp houts
    rw [← htype]
    apply hsize
    rw [ht]
    exact List.mem_singleton_self t
  have hinferMap := infer_unary (Unary.isUnary_of_kind? hk) houtTypes
  obtain ⟨F, hF⟩ : ∃ F, g.addOp guid fused inputs = .ok F :=
    ⟨_, addOp_eq_ok_iff.mpr ⟨_, hinferFused, rfl⟩⟩
  obtain ⟨U, hU⟩ : ∃ U, base.graph.addOp base.nextGuid (.unary ⟨k⟩) v.node.outputs = .ok U :=
    ⟨_, addOp_eq_ok_iff.mpr ⟨_, hinferMap, rfl⟩⟩
  refine ⟨U, F, out, hU, hF, hcount, ?_⟩
  intro α K _ _ _ _ _ c
  -- A graph keeps its rows while operators are added behind them.
  obtain ⟨rows, hrows⟩ := Config.exists_rowsOf (c := c) hg
  obtain ⟨m, hrow, hm⟩ := Config.exists_opMetrics_of_adds (c := c) hg ⟨_, .inl hbase⟩ hinfer htypes
  obtain ⟨u, hrowU, hu⟩ :=
    Config.exists_opMetrics_of_adds (c := c) (hg.addOp hbase) ⟨_, .inl hU⟩ hinferMap houtTypes
  obtain ⟨m', hrowF, hm'⟩ :=
    Config.exists_opMetrics_of_adds (c := c) hg ⟨_, .inl hF⟩ hinferFused htypes
  have hrowsBase := Config.rowsOf_addOp hg hforward hbase hrows hrow
  refine ⟨rows, m, u, m', ?_, Config.rowsOf_addOp hg hforward hF hrows hrowF, ?_, hu⟩
  · exact Config.rowsOf_addOp (hg.addOp hbase) (hforward.addOp hg hbase) hU hrowsBase hrowU
  · rw [hout] at hm
    exact (hsurcharged hcount).metrics c.context hm hm'

/-- An operator with an activation takes less time and less memory than the operator and the map of
its output that the activation stands for. Without a window it is chosen for its time; and where the
parallelism of a graph is that of its narrowest operator, it is not given up for the two, whatever
the window. -/
theorem Reachable.fused_activation_wins (hg : g.Reachable) (hforward : g.Forward)
    (hplain : op.withActivation .none = some plain) (hfused : op.withActivation act = some fused)
    (hk : act.kind? = some k) (hbase : g.addOp guid plain inputs = .ok base)
    (hv : base.graph.view base.id = .ok v) (hsize : ∀ t ∈ v.outputs, 0 < t.type.size) :
    ∃ U F : Extended OpId,
      base.graph.addOp base.nextGuid (.unary ⟨k⟩) v.node.outputs = .ok U ∧
      g.addOp guid fused inputs = .ok F ∧
      ∀ {α K : Type} [Scalar α] [Field K] [LinearOrder K] [IsStrictOrderedRing K] [Valued α K]
        (c : Config α), ∃ mU mF : Metrics α,
        c.graphMetrics U.graph = .ok mU ∧ c.graphMetrics F.graph = .ok mF ∧
        value mF.computeTime < value mU.computeTime ∧
        value mF.memoryCost < value mU.memoryCost ∧
        (value c.fuseEpsilon = 0 →
          c.fusionDecision U.graph F.graph = .ok ⟨true, .computeTime, mU, mF⟩) ∧
        (c.parallelism = .min → ∃ criterion,
          c.fusionDecision F.graph U.graph = .ok ⟨false, criterion, mF, mU⟩) := by
  obtain ⟨U, F, out, hU, hF, hcount, hcosts⟩ :=
    hg.exists_fused_rows hforward hplain hfused hk hbase hv hsize
  refine ⟨U, F, hU, hF, ?_⟩
  intro α K _ _ _ _ _ c
  obtain ⟨rows, m, u, m', hrowsU, hrowsF, hextra, hu⟩ := hcosts c
  have hmetricsU := Config.graphMetrics_eq_of_rowsOf hrowsU
  have hmetricsF := Config.graphMetrics_eq_of_rowsOf hrowsF
  have hless := Metrics.fused_lt_plain rows hcount hextra (Unary.computeTime_ge hk hu)
    (Unary.memoryCost_pos hk hcount hu) c.parallelism
  refine ⟨_, _, hmetricsU, hmetricsF, hless.1, hless.2, ?_, ?_⟩
  · intro hepsilon
    rw [Config.fusionDecision_eq hmetricsU hmetricsF,
      Metrics.decide_of_computeTime_lt hepsilon hless.1]
  · intro hmin
    have hparallelism : value (Metrics.total c.parallelism (rows ++ [m] ++ [u])).parallelism ≤
        value (Metrics.total c.parallelism (rows ++ [m'])).parallelism := by
      rw [hmin]
      exact Metrics.value_foldParallelism_min_le u hextra.parallelism_eq
    have hkept := Metrics.decide_fst_eq_false c.fuseEpsilon hless.1.le hless.2.le hparallelism
    have hdecision := Config.fusionDecision_eq hmetricsF hmetricsU
    rw [hkept] at hdecision
    exact ⟨_, hdecision⟩

/-- The factors of a product of two matrices. -/
def factors : Graph := (ofCalls [.tensor ⟨[2, 3], .float32⟩, .tensor ⟨[3, 4], .float32⟩]).1

/-- A rectified product of them, at the standard settings but without a window. -/
theorem fused_activation_wins_factors :
    factors.Reachable ∧ factors.Forward ∧
      ∃ base U F : Extended OpId, factors.addOp 3 (.matMul {}) [⟨0⟩, ⟨1⟩] = .ok base ∧
        base.graph.addOp base.nextGuid (.unary ⟨.relu⟩) [⟨2⟩] = .ok U ∧
        factors.addOp 3 (.matMul { act := .relu }) [⟨0⟩, ⟨1⟩] = .ok F ∧
        ∃ mU mF : Metrics ℝ, mF.computeTime < mU.computeTime ∧ mF.memoryCost < mU.memoryCost ∧
          (⟨8, .elements, .min, 0, false⟩ : Config ℝ).fusionDecision U.graph F.graph =
            .ok ⟨true, .computeTime, mU, mF⟩ := by
  have hg : factors.Reachable := reachable_ofCalls _
  have hforward : factors.Forward := forward_of_nodes_eq_nil rfl
  obtain ⟨base, hbase⟩ : ∃ base, factors.addOp 3 (.matMul {}) [⟨0⟩, ⟨1⟩] = .ok base := ⟨_, rfl⟩
  have hview : ∃ v, base.graph.view base.id = .ok v ∧ v.node.outputs = [⟨2⟩] ∧
      ∀ t ∈ v.outputs, 0 < t.type.size := by
    obtain rfl := Except.ok.inj hbase
    refine ⟨_, rfl, rfl, ?_⟩
    decide
  obtain ⟨v, hv, hids, hsize⟩ := hview
  have hplain : Operator.withActivation .none (.matMul {}) = some (.matMul {}) := rfl
  have hfused : Operator.withActivation .relu (.matMul {}) = some (.matMul { act := .relu }) := rfl
  obtain ⟨U, F, hU, hF, hwins⟩ :=
    hg.fused_activation_wins hforward hplain hfused rfl hbase hv hsize
  obtain ⟨mU, mF, _, _, htime, hmemory, hdecision, _⟩ :=
    hwins (⟨8, .elements, .min, 0, false⟩ : Config ℝ)
  rw [hids] at hU
  exact ⟨hg, hforward, base, U, F, hbase, hU, hF, mU, mF, htime, hmemory, hdecision rfl⟩

end Graph

end DataflowCost
