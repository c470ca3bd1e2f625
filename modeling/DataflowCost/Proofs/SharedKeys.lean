import DataflowCost.Proofs.Keys.Operators

/-! Measurements that operators share by their keys. Operators of any graphs with equal key vectors have
the same compute time, provided that they agree in what the keys of some families leave out. -/
namespace DataflowCost

open scoped ExactArithmetic

namespace OpView

theorem orFault_eq_ok_iff {β : Type} {o : Option β} {b : β} :
    (orFault o : Except Failure β) = .ok b ↔ o = some b := by
  cases o with
  | none => exact ⟨nofun, nofun⟩
  | some a => exact ⟨fun h => congrArg some (Except.ok.inj h), fun h => congrArg Except.ok (Option.some.inj h)⟩

end OpView

namespace Graph

variable {g g' : Graph} {o o' : OpId} {v v' : OpView}

theorem exists_node_of_view (h : g.view o = .ok v) : ∃ n, g.node? o = some n := by
  obtain ⟨n, hn, _⟩ := bind_eq_ok_iff.mp h
  unfold node at hn
  cases hnode : g.node? o with
  | none =>
    rw [hnode] at hn
    cases hn
  | some n => exact ⟨n, rfl⟩

theorem Reachable.registered_view [Build] (hg : g.Reachable) (hv : g.view o = .ok v) :
    v.op.Registered v.inputTypes (v.outputs.map Tensor.type) := by
  obtain ⟨n, hn⟩ := exists_node_of_view hv
  obtain ⟨w, hw, _, _, hop⟩ := hg.exists_registered_view hn
  obtain rfl := Except.ok.inj (hv.symm.trans hw)
  exact hop

theorem Reachable.exists_metrics [Build] (hg : g.Reachable) (hv : g.view o = .ok v) {α : Type} [Scalar α]
    (cx : CostContext) : ∃ m : Metrics α, v.op.metrics v.io cx = some m :=
  (hg.registered_view hv).estimable.metrics cx

/-- Operators of any families, in any graphs, whose workloads and attributes agree take the same time in
every context, as long as they agree in what their keys leave out. -/
theorem computeTime_eq_of_keys (hg : g.Reachable) (hg' : g'.Reachable) (hv : g.view o = .ok v)
    (hv' : g'.view o' = .ok v') (hworkload : v.workload = v'.workload)
    (hattributes : v.attributes = v'.attributes) (hfits : v.op.Fits v.io)
    (hfits' : v'.op.Fits v'.io) (hagrees : v.op.AgreesUnkeyed v'.op v.io v'.io) :
    ∀ {α : Type} [Scalar α] [Scalar.Exact α] (cx : CostContext), ∃ m m' : Metrics α,
      v.metrics cx = .ok m ∧ v'.metrics cx = .ok m' ∧ m.computeTime = m'.computeTime := by
  intro α _ _ cx
  have hop := hg.registered_view hv
  have hop' := hg'.registered_view hv'
  -- A registered operator has a workload, so that equal answers are equal keys.
  obtain ⟨key, hkey⟩ := hop.estimable.workload
  have hkey' : v'.op.workload v'.io = some key := by
    have hok : v.workload = .ok key := OpView.orFault_eq_ok_iff.mpr hkey
    exact OpView.orFault_eq_ok_iff.mp (hworkload.symm.trans hok)
  have keys : v.op.SameKeys v'.op v.io v'.io :=
    ⟨hfits, hfits', hkey.trans hkey'.symm, hattributes, hagrees⟩
  obtain ⟨m, hm⟩ := hg.exists_metrics (α := α) hv cx
  obtain ⟨m', hm'⟩ := hg'.exists_metrics (α := α) hv' cx
  exact ⟨m, m', OpView.orFault_eq_ok_iff.mpr hm, OpView.orFault_eq_ok_iff.mpr hm',
    keys.computeTime_eq hop hop' cx hm hm'⟩

/-- A product by a matrix, of a stack that holds one other matrix. -/
def stacked : Graph :=
  (ofCalls [
    .tensor ⟨[1, 2, 3], .float32⟩,
    .tensor ⟨[3, 4], .float32⟩,
    .op (.matMul {}) [⟨0⟩, ⟨1⟩]]).1

/-- A product without and one with a stack are keyed alike. -/
theorem computeTime_eq_of_keys_stacked :
    ∃ v v', projected.view ⟨0⟩ = .ok v ∧ stacked.view ⟨0⟩ = .ok v' ∧
      v.inputTypes ≠ v'.inputTypes ∧ v.workload = v'.workload ∧ v.attributes = v'.attributes ∧
      ∃ m m' : Metrics ℝ, v.metrics ⟨1, .bytes⟩ = .ok m ∧ v'.metrics ⟨1, .bytes⟩ = .ok m' ∧
        m.computeTime = m'.computeTime := by
  have hview : projected.view ⟨0⟩ = .ok ⟨⟨0⟩, ⟨4, .matMul {}, [⟨0⟩, ⟨1⟩], [⟨2⟩]⟩,
      [⟨⟨0⟩, 1, ⟨[2, 3], .float32⟩, none, none, [⟨0⟩]⟩,
        ⟨⟨1⟩, 2, ⟨[3, 4], .float32⟩, none, none, [⟨0⟩]⟩],
      [⟨⟨2⟩, 3, ⟨[2, 4], .float32⟩, none, some ⟨0⟩, [⟨1⟩]⟩]⟩ := by cbv
  have hview' : stacked.view ⟨0⟩ = .ok ⟨⟨0⟩, ⟨4, .matMul {}, [⟨0⟩, ⟨1⟩], [⟨2⟩]⟩,
      [⟨⟨0⟩, 1, ⟨[1, 2, 3], .float32⟩, none, none, [⟨0⟩]⟩,
        ⟨⟨1⟩, 2, ⟨[3, 4], .float32⟩, none, none, [⟨0⟩]⟩],
      [⟨⟨2⟩, 3, ⟨[1, 2, 4], .float32⟩, none, some ⟨0⟩, []⟩]⟩ := by cbv
  -- The leading axis of one adds no product.
  have hnumbers : Operator.numbers (.matMul {}) ⟨[⟨[2, 3], .float32⟩, ⟨[3, 4], .float32⟩], []⟩ =
      Operator.numbers (.matMul {}) ⟨[⟨[1, 2, 3], .float32⟩, ⟨[3, 4], .float32⟩], []⟩ := by decide
  have hworkload := congrArg (fun ns => (.ok (Kind.tag .matMul :: words ns ++
    MatMul.settings {}) : Except Failure KeyVector)) hnumbers
  refine ⟨_, _, hview, hview', by decide, hworkload, rfl, ?_⟩
  exact computeTime_eq_of_keys (reachable_ofCalls _) (reachable_ofCalls _) hview hview' hworkload
    rfl ⟨by decide, by decide, by decide⟩ ⟨by decide, by decide, by decide⟩ rfl ⟨1, .bytes⟩

/-- The determinants of a matrix of two rows and of one of three rows. -/
def determinants : Graph :=
  (ofCalls [
    .tensor ⟨[2, 2], .float32⟩,
    .tensor ⟨[3, 3], .float32⟩,
    .op (.det {}) [⟨0⟩],
    .op (.det {}) [⟨1⟩]]).1

/-- Both are keyed by their one figure of output, but take eight and twenty-seven units of time. -/
theorem determinants_share_keys :
    ¬ ∀ (g g' : Graph) (o o' : OpId) (v v' : OpView), g.Reachable → g'.Reachable →
      g.view o = .ok v → g'.view o' = .ok v' → v.workload = v'.workload →
      v.attributes = v'.attributes → ∀ (cx : CostContext) (m m' : Metrics ℝ),
      v.metrics cx = .ok m → v'.metrics cx = .ok m' → m.computeTime = m'.computeTime := by
  intro hall
  have hview : determinants.view ⟨0⟩ = .ok ⟨⟨0⟩, ⟨4, .det {}, [⟨0⟩], [⟨2⟩]⟩,
      [⟨⟨0⟩, 1, ⟨[2, 2], .float32⟩, none, none, [⟨0⟩]⟩],
      [⟨⟨2⟩, 3, ⟨[1], .float32⟩, none, some ⟨0⟩, []⟩]⟩ := by cbv
  have hview' : determinants.view ⟨1⟩ = .ok ⟨⟨1⟩, ⟨6, .det {}, [⟨1⟩], [⟨3⟩]⟩,
      [⟨⟨1⟩, 2, ⟨[3, 3], .float32⟩, none, none, [⟨1⟩]⟩],
      [⟨⟨3⟩, 5, ⟨[1], .float32⟩, none, some ⟨1⟩, []⟩]⟩ := by cbv
  have hsame := hall determinants determinants ⟨0⟩ ⟨1⟩ _ _ (reachable_ofCalls _)
    (reachable_ofCalls _) hview hview' rfl rfl ⟨1, .bytes⟩ _ _ rfl rfl
  -- In the formula for two rows and in that for three, one matrix is in the stack.
  have hsides : (2 * 2 * 2 * 1.0 * Scalar.volume [] / 1e9 : ℝ) =
      3 * 3 * 3 * 1.0 * Scalar.volume [] / 1e9 := hsame
  rw [Scalar.volume_eq] at hsides
  norm_num [Scalar.ofNat, Shape.size] at hsides

end Graph

end DataflowCost
