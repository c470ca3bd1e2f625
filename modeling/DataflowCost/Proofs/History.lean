import DataflowCost.Proofs.Appended

/-! Definitions carry no history. Resolution writes next to the attributes that were given and does not
read what it has written, so that a resolved definition is resolved again like the one it came from. -/
namespace DataflowCost

open Inference
open scoped ExactArithmetic

/-- What every continuation ends in, whatever the first part answers. -/
theorem Inference.meets_bind_of_forall {α β : Type} {post : β → Prop} {x : Inference α}
    {f : α → Inference β} (h : ∀ a, Meets (f a) True post) : Meets (x >>= f) True post :=
  Meets.bind (P := fun _ => True) ⟨fun _ => trivial, fun _ => trivial⟩ fun a _ => h a

theorem LayerNorm.meets_resolved (d : LayerNorm) (inputs : List TensorType) :
    Meets (d.resolve inputs) True fun d' => ∃ resolved, d' = { d with resolved } := by
  refine meets_bind_of_forall fun x => meets_bind_of_forall fun resolved => ?_
  exact meets_bind_of_forall fun _ => meets_ok ⟨resolved, rfl⟩

theorem BatchNorm.meets_checked (d : BatchNorm) :
    Meets (if d.training then unsupported .trainingBatchNorm else .ok d) True fun d' => d' = d := by
  split
  · exact meets_unsupported _
  · exact meets_ok rfl

theorem LocalResponseNorm.meets_checked (d : LocalResponseNorm) (x : TensorType) :
    Meets (d.check x) True fun d' => d' = d :=
  meets_bind_of_forall fun _ => meets_bind_of_forall fun _ => meets_ok rfl

theorem Reduce.meets_resolved (d : Reduce) (rank : Nat) :
    Meets (d.resolve rank) True fun d' => ∃ resolved, d' = { d with resolved } := by
  refine meets_bind_of_forall fun _ => ?_
  dsimp only
  split <;> exact meets_bind_of_forall fun resolved => meets_ok ⟨resolved, rfl⟩

/-- A resolved window has other pads at most. -/
theorem Sliding.meets_resolved [Build] {n : Nat} (w : Sliding n) (spatial kernel : List Nat) :
    Meets (w.resolve spatial kernel) True fun w' => ∃ pads, w' = { w with pads } := by
  refine meets_bind_of_forall fun _ => ?_
  dsimp only
  split <;> exact meets_bind_of_forall fun pads => meets_ok ⟨pads, rfl⟩

theorem Conv.meets_resolved [Build] {n : Nat} (d : Conv n) (inputs : List TensorType) :
    Meets (d.resolve inputs) True fun d' =>
      ∃ pads, d' = { d with window := { d.window with pads } } := by
  refine meets_bind_of_forall fun _ => meets_bind_of_forall fun x => ?_
  refine meets_bind_of_forall fun _ => meets_bind_of_forall fun w => ?_
  refine meets_bind_of_forall fun _ => meets_bind_of_forall fun spatial => ?_
  refine meets_bind_of_forall fun kernel => (d.window.meets_resolved spatial kernel).bind ?_
  rintro _ ⟨pads, rfl⟩
  exact meets_ok ⟨pads, rfl⟩

theorem ConvBackwardFilter.meets_resolved [Build] (d : ConvBackwardFilter) (inputs : List TensorType) :
    Meets (d.resolve inputs) True fun d' =>
      ∃ pads, d' = { d with window := { d.window with pads } } := by
  refine meets_bind_of_forall fun _ => meets_bind_of_forall fun x => ?_
  refine meets_bind_of_forall fun _ => meets_bind_of_forall fun gradient => ?_
  refine meets_bind_of_forall fun _ => meets_bind_of_forall fun spatial => ?_
  refine meets_bind_of_forall fun kernel => (d.window.meets_resolved spatial kernel).bind ?_
  rintro _ ⟨pads, rfl⟩
  exact meets_ok ⟨pads, rfl⟩

theorem ConvTranspose.meets_resolved [Build] (d : ConvTranspose) (inputs : List TensorType) :
    Meets (d.resolve inputs) True fun d' =>
      ∃ pads, d' = { d with window := { d.window with pads } } := by
  refine meets_bind_of_forall fun _ => meets_bind_of_forall fun x => ?_
  refine meets_bind_of_forall fun _ => meets_bind_of_forall fun w => ?_
  refine meets_bind_of_forall fun _ => meets_bind_of_forall fun _ => ?_
  refine meets_bind_of_forall fun _ => meets_bind_of_forall fun e => ?_
  exact meets_bind_of_forall fun pads => meets_ok ⟨pads, rfl⟩

theorem Preparation.exists_of_yields_after {ρ σ δ : Type} {check : Inference σ}
    {next : σ → Preparation ρ δ} {d : δ} (h : (after check next).Yields d) :
    ∃ s, check = .ok s ∧ (next s).Yields d := by
  cases check with
  | ok s => exact ⟨s, rfl, h⟩
  | error e => cases h

/-- Indices that are known are checked, and change nothing in what has been resolved. -/
theorem Gather.exists_of_yields [Build] {d d' : Gather} {inputs : List TensorType}
    (h : (d.prepare inputs).Yields d') : ∃ resolved, d' = { d with resolved } := by
  have hresolve : Meets (do d.resolve (← Family.operand inputs 0) (← Family.operand inputs 1)) True
      fun r => ∃ resolved, r.1 = { d with resolved } := by
    refine meets_bind_of_forall fun data => meets_bind_of_forall fun indices => ?_
    refine meets_bind_of_forall fun axis => meets_bind_of_forall fun _ => ?_
    exact meets_bind_of_forall fun extent => meets_ok ⟨axis, rfl⟩
  obtain ⟨⟨_, extent⟩, hchecked, guid, values, h⟩ := Preparation.exists_of_yields_after h
  obtain ⟨resolved, rfl⟩ := hresolve.of_ok hchecked
  refine ⟨resolved, ?_⟩
  cases values with
  | none => exact (Except.ok.inj h).symm
  | some values =>
    obtain ⟨_, _, h⟩ := bind_eq_ok_iff.mp h
    exact (Except.ok.inj h).symm

section Resize

variable {ρ : Type} [ScaleFactor ρ] (d : Resize ρ) (s : Shape) (axes : List Nat) (guid : Nat)

theorem Resize.meets_resolvedSizes (sizes : Option (List Int)) :
    Meets (d.resolveSizes s axes guid sizes) True fun d' =>
      ∃ resolvedAxes scales, d' = { d with resolvedAxes, scales } := by
  cases sizes with
  | none => exact meets_invalid _
  | some sizes =>
    refine meets_bind_of_forall fun _ => meets_bind_of_forall fun extents => ?_
    refine meets_bind_of_forall fun _ => meets_bind_of_forall fun scales => ?_
    exact meets_ok ⟨axes, scales, rfl⟩

theorem Resize.meets_resolvedScales (scales : Option (List ρ)) :
    Meets (d.resolveScales s axes guid scales) True fun d' =>
      ∃ resolvedAxes scales, d' = { d with resolvedAxes, scales } := by
  cases scales with
  | none => exact meets_invalid _
  | some factors =>
    exact meets_bind_of_forall fun _ => meets_bind_of_forall fun scales =>
      meets_ok ⟨axes, scales, rfl⟩

variable {d} in
theorem Resize.exists_of_yields {d' : Resize ρ} {inputs : List TensorType}
    (h : (d.prepare inputs).Yields d') :
    ∃ resolvedAxes scales, d' = { d with resolvedAxes, scales } := by
  obtain ⟨⟨s, axes⟩, _, h⟩ := Preparation.exists_of_yields_after h
  dsimp only at h
  split at h
  · obtain ⟨guid, sizes, h⟩ := h
    exact (d.meets_resolvedSizes s axes guid sizes).of_ok h
  · obtain ⟨guid, scales, h⟩ := h
    exact (d.meets_resolvedScales s axes guid scales).of_ok h

end Resize

namespace Operator

/-- Operators that differ at most in what has been resolved: they are resolved alike. -/
structure Alike [Build] (op op' : Operator) : Prop where
  kind_eq : op'.kind = op.kind
  arity_eq : op'.arity = op.arity
  prepare_eq : ∀ inputs, op'.prepare inputs = op.prepare inputs

theorem Alike.refl [Build] (op : Operator) : op.Alike op := ⟨rfl, rfl, fun _ => rfl⟩

/-- An operator is resolved as a definition of its family. -/
theorem alike_of_family [Build] {op op' : Operator} {inputs : List TensorType}
    (h : (op.prepare inputs).Yields op')
    (hfamily : op.withFamily fun wrap d => ∀ d', (Family.prepare d inputs).Yields d' →
      op.Alike (wrap d')) : op.Alike op' := by
  induction op using of_family with
  | @h δ _ _ wrap hwrap d =>
    have hprepare : (wrap d).prepare inputs = (Family.prepare d inputs).map wrap :=
      hwrap.withFamily_eq _ d
    rw [hprepare] at h
    obtain ⟨d', hd, rfl⟩ := h.of_map
    rw [hwrap.withFamily_eq] at hfamily
    exact hfamily d' hd

/-- Resolution writes over what had been resolved before, and changes nothing else. -/
theorem alike_of_yields [Build] {op op' : Operator} {inputs : List TensorType}
    (h : (op.prepare inputs).Yields op') : op.Alike op' := by
  cases op with
  | reshape d | flatten d | squeeze d | unsqueeze d | transpose d | concat d | split d | slice d
  | pad d | extend d | gatherElements d | softmax d =>
    refine alike_of_family h fun d' hd => ?_
    obtain ⟨x, _, hd⟩ := bind_eq_ok_iff.mp hd
    obtain ⟨resolved, _, hd⟩ := bind_eq_ok_iff.mp hd
    obtain rfl := Except.ok.inj hd
    exact ⟨rfl, rfl, fun _ => rfl⟩
  | reduce d =>
    refine alike_of_family h fun d' hd => ?_
    obtain ⟨x, _, hd⟩ := bind_eq_ok_iff.mp hd
    obtain ⟨resolved, rfl⟩ := (d.meets_resolved x.rank).of_ok hd
    exact ⟨rfl, rfl, fun _ => rfl⟩
  | layerNorm d | conv2d d | conv3d d | convBackwardFilter d | convTranspose d =>
    refine alike_of_family h fun d' hd => ?_
    obtain ⟨resolved, rfl⟩ := (d.meets_resolved inputs).of_ok hd
    exact ⟨rfl, rfl, fun _ => rfl⟩
  | gather d =>
    refine alike_of_family h fun d' hd => ?_
    obtain ⟨resolved, rfl⟩ := Gather.exists_of_yields hd
    exact ⟨rfl, rfl, fun _ => rfl⟩
  | resize d =>
    refine alike_of_family h fun d' hd => ?_
    obtain ⟨resolvedAxes, scales, rfl⟩ := Resize.exists_of_yields hd
    exact ⟨rfl, rfl, fun _ => rfl⟩
  -- The others have nothing to resolve; some are checked.
  | elementwise d | dropout d =>
    refine alike_of_family h fun d' hd => ?_
    obtain rfl := d.meets_check.of_ok hd
    exact .refl _
  | unary d | activationBackward d =>
    refine alike_of_family h fun d' hd => ?_
    obtain ⟨_, _, hd⟩ := bind_eq_ok_iff.mp hd
    obtain rfl := Except.ok.inj hd
    exact .refl _
  | batchNorm d =>
    refine alike_of_family h fun d' hd => ?_
    obtain rfl := d.meets_checked.of_ok hd
    exact .refl _
  | localResponseNorm d =>
    refine alike_of_family h fun d' hd => ?_
    obtain ⟨x, _, hd⟩ := bind_eq_ok_iff.mp hd
    obtain rfl := (d.meets_checked x).of_ok hd
    exact .refl _
  | pool d =>
    refine alike_of_family h fun d' hd => ?_
    obtain ⟨x, _, hd⟩ := bind_eq_ok_iff.mp hd
    obtain ⟨rfl, _⟩ := (d.meets_check x).of_ok hd
    exact .refl _
  | _ =>
    obtain rfl := Except.ok.inj h
    exact .refl _

end Operator

namespace Graph

variable {op op' : Operator}

/-- A graph makes the same of operators that are resolved alike. -/
theorem infer_eq_of_alike [Build] (h : op.Alike op') (g : Graph) (inputs : List TensorId) :
    g.infer op' inputs = g.infer op inputs := by
  unfold infer operands
  simp only [h.kind_eq, h.arity_eq, h.prepare_eq]

theorem addOp_eq_of_alike [Build] (h : op.Alike op') (g : Graph) (guid : Nat) (inputs : List TensorId) :
    g.addOp guid op' inputs = g.addOp guid op inputs := by
  unfold addOp
  rw [infer_eq_of_alike h]

theorem addOpInto_eq_of_alike [Build] (h : op.Alike op') (g : Graph) (guid : Nat)
    (inputs outputs : List TensorId) :
    g.addOpInto guid op' inputs outputs = g.addOpInto guid op inputs outputs := by
  unfold addOpInto
  rw [infer_eq_of_alike h]

/-- What is stored is what resolution ends in. -/
theorem alike_of_infer [Build] {g : Graph} {inputs : List TensorId} {inferred : Inferred}
    (h : g.infer op inputs = .ok inferred) : op.Alike inferred.op := by
  obtain ⟨_, prepared, _, _, _, hprepare, _, _, rfl⟩ := infer_eq_ok_iff.mp h
  exact Operator.alike_of_yields (Preparation.yields_of_run hprepare)

end Graph

/-- A resolved operator is resolved again as it was, and on any other inputs like the one it came from.
The definition that a graph shows of an operator, at whatever later time, joins any graph as the
definition joined that was given. -/
theorem Operator.carries_no_history [Build] (op : Operator) :
    (∀ (host : Host) (given : List Tensor) (op' : Operator),
      (op.prepare (given.map Tensor.type)).run host given = .ok op' →
      (op'.prepare (given.map Tensor.type)).run host given = .ok op' ∧
      ∀ (host' : Host) (others : List Tensor),
        (op'.prepare (others.map Tensor.type)).run host' others =
          (op.prepare (others.map Tensor.type)).run host' others) ∧
    ∀ (g : Graph) (inputs : List TensorId) (e : Extended OpId), g.Reachable →
      g.Adds op inputs e → ∀ calls : List (Nat × Call), ∃ v,
        (e.graph.afterAll calls).view e.id = .ok v ∧
        ∀ (g' : Graph) (guid : Nat) (inputs outputs : List TensorId),
          g'.addOp guid v.op inputs = g'.addOp guid op inputs ∧
          g'.addOpInto guid v.op inputs outputs = g'.addOpInto guid op inputs outputs := by
  constructor
  · intro host given op' hrun
    have halike := Operator.alike_of_yields (Preparation.yields_of_run hrun)
    refine ⟨?_, fun host' others => ?_⟩
    · rw [halike.prepare_eq]
      exact hrun
    · rw [halike.prepare_eq]
  · intro g inputs e hg hadds calls
    obtain ⟨inferred, _, v, hinfer, _, hv, hop, _⟩ := hadds.exists_view hg
    have hg' := hadds.reachable hg
    -- Later calls leave the operator as it is stored.
    obtain ⟨n, hn⟩ := Graph.exists_node_of_view hv
    obtain ⟨w, v', hw, hv', _, _, hagrees⟩ := (hg'.extends_afterAll calls).exists_agrees
      hg'.linked (hg'.afterAll calls).linked hn
    obtain rfl := Except.ok.inj (hw.symm.trans hv)
    have halike : op.Alike v'.op := by
      rw [hagrees.op_eq, hop]
      exact Graph.alike_of_infer hinfer
    exact ⟨v', hv', fun g' guid inputs outputs =>
      ⟨Graph.addOp_eq_of_alike halike g' guid inputs,
        Graph.addOpInto_eq_of_alike halike g' guid inputs outputs⟩⟩

namespace Graph

/-- A row of three, as a matrix. -/
def rowMatrix : Graph := (ofCalls [.tensor ⟨[1, 3], .float32⟩]).1

/-- A column of two, with one axis too many. -/
def columnCube : Graph := (ofCalls [.tensor ⟨[2, 1, 1], .float32⟩]).1

/-- The only row, as a host is asked for it. -/
def row : Tensor := ⟨⟨0⟩, 1, ⟨[1, 3], .float32⟩, none, none, []⟩

/-- The operator that removes all unit axes finds one in a matrix, and finds it again; of a cube it finds
two. -/
theorem carries_no_history_rowMatrix :
    ((Operator.squeeze {}).prepare [row.type]).run .resident [row] = .ok (.squeeze ⟨[], [0], 2⟩) ∧
    ((Operator.squeeze ⟨[], [0], 2⟩).prepare [row.type]).run .resident [row] =
      .ok (.squeeze ⟨[], [0], 2⟩) ∧
    rowMatrix.Reachable ∧ ∃ e v, rowMatrix.addOp 2 (.squeeze {}) [⟨0⟩] = .ok e ∧
      (e.graph.afterAll [(4, .op (.unary ⟨.relu⟩) [⟨1⟩])]).view e.id = .ok v ∧
      v.op = .squeeze ⟨[], [0], 2⟩ ∧
      columnCube.addOp 2 v.op [⟨0⟩] = columnCube.addOp 2 (.squeeze {}) [⟨0⟩] ∧
      ∃ e', columnCube.addOp 2 v.op [⟨0⟩] = .ok e' ∧
        e'.graph.node? e'.id = some ⟨3, .squeeze ⟨[], [1, 2], 3⟩, [⟨0⟩], [⟨1⟩]⟩ := by
  obtain ⟨hresolved, hadded⟩ := Operator.carries_no_history (.squeeze {})
  have hrow : ((Operator.squeeze {}).prepare [row.type]).run .resident [row] =
      .ok (.squeeze ⟨[], [0], 2⟩) := rfl
  have hg : rowMatrix.Reachable := reachable_ofCalls _
  obtain ⟨e, he⟩ : ∃ e, rowMatrix.addOp 2 (.squeeze {}) [⟨0⟩] = .ok e := ⟨_, rfl⟩
  obtain ⟨v, hv, hsame⟩ := hadded rowMatrix [⟨0⟩] e hg ⟨2, .inl he⟩
    [(4, .op (.unary ⟨.relu⟩) [⟨1⟩])]
  have hop : v.op = .squeeze ⟨[], [0], 2⟩ := by
    obtain rfl := Except.ok.inj he
    obtain rfl := Except.ok.inj hv
    rfl
  have hcube := (hsame columnCube 2 [⟨0⟩] []).1
  exact ⟨hrow, (hresolved .resident [row] _ hrow).1, hg, e, v, he, hv, hop, hcube, _, hcube, rfl⟩

end Graph

end DataflowCost
