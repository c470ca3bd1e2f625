import DataflowCost.Proofs.Inferred

/-! Which calls reach a fault. Every index is in its list and every divisor is positive, save that a
grouped convolution divides by its number of groups, and an input without channels has none. -/
namespace DataflowCost

open Inference
open scoped ExactArithmetic

namespace Operator

/-- The operators whose channels are split into groups by the extents of the weight. -/
def isGrouped : Operator → Bool
  | .conv2d _ | .conv3d _ | .convBackwardFilter _ => true
  | _ => false

theorem EmptyGroups.isGrouped {op : Operator} {inputs : List TensorType}
    (h : op.EmptyGroups inputs) :
    op.isGrouped = true ∧ ∃ x rest, inputs = x :: rest ∧ x.shape[1]? = some 0 := by
  have hinputs (h : Convolution.EmptyGroups inputs) :
      ∃ x rest, inputs = x :: rest ∧ x.shape[1]? = some 0 := by
    obtain ⟨x, w, rest, rfl, hx, _⟩ := h
    exact ⟨x, w :: rest, rfl, hx⟩
  cases op with
  | conv2d d => exact ⟨rfl, hinputs h⟩
  | conv3d d => exact ⟨rfl, hinputs h⟩
  | convBackwardFilter d => exact ⟨rfl, hinputs h⟩
  | _ => exact h.elim

end Operator

namespace Conv

theorem outShape_fault [Build] {n : Nat} {window : Sliding n} {x w : Shape} {p : Nat} (hp : 0 < p)
    (hx : x[1]? = some 0) (hw : w[1]? = some p) : outShape window x w = .error .fault := by
  rw [outShape, hx]
  change (do let out ← Convolution.outChannels 0 w; _) = _
  rw [Convolution.outChannels_fault hp hw]
  rfl

end Conv

theorem exists_of_map_eq_ok {α β : Type} {f : α → β} {r : Inference α} {b : β}
    (h : f <$> r = .ok b) : ∃ a, b = f a := by
  cases r with
  | ok a => exact ⟨a, (Except.ok.inj h).symm⟩
  | error e => cases h

/-- A grouped convolution without channels is one still when it is resolved, and faults. -/
theorem Operator.EmptyGroups.outShapes_fault [Build] {op op' : Operator} {inputs : List TensorType}
    {host : Host} {tensors : List Tensor} (h : op.EmptyGroups inputs)
    (hprepare : (op.prepare inputs).run host tensors = .ok op') :
    op'.outShapes inputs = .error .fault := by
  have hsingle {n : Nat} (window : Sliding n) (h : Convolution.EmptyGroups inputs) : (do
      let x ← Family.operand inputs 0
      let w ← Family.operand inputs 1
      return [← Conv.outShape window x.shape w.shape]) = .error .fault := by
    obtain ⟨x, w, rest, rfl, hx, p, hp, hw⟩ := h
    change (do return [← Conv.outShape window x.shape w.shape]) = _
    rw [Conv.outShape_fault hp hx hw]
    rfl
  cases op with
  | conv2d d =>
    obtain ⟨d', rfl⟩ := exists_of_map_eq_ok (r := d.resolve inputs) hprepare
    exact hsingle d'.window h
  | conv3d d =>
    obtain ⟨d', rfl⟩ := exists_of_map_eq_ok (r := d.resolve inputs) hprepare
    exact hsingle d'.window h
  | convBackwardFilter d =>
    obtain ⟨d', rfl⟩ := exists_of_map_eq_ok (r := d.resolve inputs) hprepare
    exact hsingle d'.window h
  | _ => exact h.elim

namespace Graph

variable {g : Graph}

theorem operands_ne_fault (op : Operator) (inputs : List TensorId) :
    g.operands op inputs ≠ .error .fault := by
  intro h
  rcases operands_eq_error h with ⟨t, ht⟩ | ⟨_, _, hinputs⟩
  · cases ht
  · cases hinputs

theorem checkOutputs_ne_fault (kind : Kind) (seen : List TensorId)
    (pairs : List (TensorId × TensorType)) : g.checkOutputs kind seen pairs ≠ .error .fault := by
  induction pairs generalizing seen with
  | nil => exact nofun
  | cons p rest ih =>
    obtain ⟨id, expected⟩ := p
    rw [checkOutputs, Graph.tensor]
    intro h
    cases hx : g.tensor? id with
    | none =>
      rw [hx] at h
      cases h
    | some x =>
      rw [hx] at h
      simp only [bind, Except.bind] at h
      cases hproducer : x.producer with
      | some o =>
        rw [hproducer] at h
        cases h
      | none =>
        rw [hproducer] at h
        by_cases hseen : id ∈ seen
        · rw [if_pos hseen] at h
          cases h
        · by_cases htype : x.type = expected
          · rw [if_neg hseen, if_pos htype] at h
            exact ih (id :: seen) h
          · rw [if_neg hseen, if_neg htype] at h
            cases h

theorem filterMap_tensor? {inputs : List TensorId} {tensors : List Tensor}
    (h : inputs.mapM g.tensor? = some tensors) : inputs.filterMap g.tensor? = tensors := by
  induction inputs generalizing tensors with
  | nil => exact Option.some.inj h
  | cons t inputs ih =>
    obtain ⟨x, rest, hx, hrest, rfl⟩ := mapM_eq_some_cons h
    rw [List.filterMap_cons_some hx, ih hrest]

/-- A host whose values fit the inputs leaves inference one way to fault. -/
theorem infer_eq_fault_iff {op : Operator} {inputs : List TensorId}
    (hhost : g.host.Fits (inputs.filterMap g.tensor?)) :
    g.infer op inputs = .error .fault ↔ ∃ tensors op', g.operands op inputs = .ok tensors ∧
      (op.prepare (tensors.map Tensor.type)).run g.host tensors = .ok op' ∧
      op.EmptyGroups (tensors.map Tensor.type) := by
  constructor
  · intro h
    rcases infer_eq_error h with h | ⟨tensors, refusal, hoperands, he, hparts⟩
    · exact absurd h (operands_ne_fault op inputs)
    obtain rfl : refusal = .fault := by
      cases refusal with
      | fault => rfl
      | invalid reason | unsupported feature => cases he
    obtain ⟨hfound, haccepts⟩ := operands_eq_ok hoperands
    rw [filterMap_tensor? hfound] at hhost
    rw [← List.length_map Tensor.type] at haccepts
    have hrun := (op.prepare_meets haccepts).run g.host
    -- Resolution faults on a host that does not fit only, and element types never do.
    rcases hparts with h | ⟨op', hprepare, h | h⟩
    · exact absurd hhost ((hrun.fault h).resolve_left ExactArithmetic.elim)
    · exact ⟨tensors, op', hoperands, hprepare,
        ((hrun.answer hprepare).2.outShapes_meets.fault h).resolve_right ExactArithmetic.elim⟩
    · exact ((hrun.answer hprepare).2.outTypes_meets.fault h).elim
  · rintro ⟨tensors, op', hoperands, hprepare, hempty⟩
    unfold infer
    rw [hoperands]
    simp only [bind, Except.bind, within_eq_ok_iff.mpr hprepare, hempty.outShapes_fault hprepare]
    rfl

theorem addOp_eq_fault_iff [Build] {guid : Nat} {op : Operator} {inputs : List TensorId} :
    g.addOp guid op inputs = .error .fault ↔ g.infer op inputs = .error .fault := by
  unfold addOp
  cases g.infer op inputs with
  | error e =>
    have hfault : e = .fault → (Except.error e : Except Failure Inferred) = .error .fault :=
      congrArg Except.error
    exact ⟨fun h => hfault (Except.error.inj h), fun h => by rw [h]; rfl⟩
  | ok inferred => exact ⟨nofun, nofun⟩

theorem addOpInto_eq_fault_iff [Build] {guid : Nat} {op : Operator} {inputs outputs : List TensorId} :
    g.addOpInto guid op inputs outputs = .error .fault ↔ g.infer op inputs = .error .fault := by
  constructor
  · intro h
    rcases bind_eq_error_iff.mp h with h | ⟨inferred, hinfer, h⟩
    · exact h
    change (if outputs.length ≠ inferred.outputs.length then _ else _) = _ at h
    by_cases hlen : outputs.length = inferred.outputs.length
    · rw [if_neg (not_not.mpr hlen)] at h
      rcases bind_eq_error_iff.mp h with h | ⟨_, hdeclared, h⟩
      · exact absurd h (checkOutputs_ne_fault _ _ _)
      · cases hcycle : g.closesCycle inputs outputs with
        | some remaining =>
          rw [hcycle] at h
          cases h
        | none =>
          rw [hcycle] at h
          cases h
    · rw [if_pos hlen] at h
      cases h
  · intro h
    unfold addOpInto
    rw [h]
    rfl

/-- A computation that succeeds or reports an error of its own. -/
def Returns {α : Type} (u : Update α) (s : Graph × Nat) : Prop :=
  (∃ a s', u.run s = .ok a s') ∨ ∃ cause s', u.run s = .error (.error cause) s'

theorem returns_of_outcome {ι : Type} {guid : Nat} {u : Update ι} {r : Except Failure (Extended ι)}
    (h : u.run (g, guid) = g.outcome guid r) (hr : r ≠ .error .fault) :
    Returns u (g, guid) := by
  match r, hr with
  | .ok e, _ => exact .inl ⟨_, _, h⟩
  | .error (.error cause), _ => exact .inr ⟨cause, _, h⟩
  | .error .fault, hr => exact absurd rfl hr

/-- The attached constants fit the tensors that they are attached to. -/
theorem Linked.fits_resident (hg : g.Linked) (hhost : g.host = .resident) (ids : List TensorId) :
    g.host.Fits (ids.filterMap g.tensor?) := by
  intro x hx p hp
  obtain ⟨t, _, ht⟩ := List.mem_filterMap.mp hx
  rw [hhost] at hp
  exact (hg.payload_fits ht (Except.ok.inj hp)).1

/-- Under a host whose values fit the inputs no registration faults, save that a grouped convolution
may if the second axis of its first input is empty. It does as soon as it is resolved and its weight
reads some channels. -/
theorem Reachable.registration_returns (hg : g.Reachable) (guid : Nat) (op : Operator)
    (inputs outputs : List TensorId) (hhost : g.host.Fits (inputs.filterMap g.tensor?)) :
    (¬ (op.isGrouped = true ∧ ∃ t x, inputs.head? = some t ∧ g.tensor? t = some x ∧
        x.type.shape[1]? = some 0) →
      Returns (Update.addOp op inputs) (g, guid) ∧
      Returns (Update.addOpInto op inputs outputs) (g, guid)) ∧
    ∀ tensors op', g.operands op inputs = .ok tensors →
      (op.prepare (tensors.map Tensor.type)).run g.host tensors = .ok op' →
      op.EmptyGroups (tensors.map Tensor.type) →
      (Update.addOp op inputs).run (g, guid) = .error .fault (g, guid) ∧
      (Update.addOpInto op inputs outputs).run (g, guid) = .error .fault (g, guid) := by
  have hop := Update.addOp_run hg.linked guid op inputs
  have hinto := Update.addOpInto_run hg.linked guid op inputs outputs
  constructor
  · intro hchannels
    have hinfer : g.infer op inputs ≠ .error .fault := by
      intro h
      obtain ⟨tensors, op', hoperands, _, hempty⟩ := (infer_eq_fault_iff hhost).mp h
      -- The first type is that of the tensor that the first input names.
      obtain ⟨hgrouped, type, rest, htypes, hzero⟩ := hempty.isGrouped
      obtain ⟨x, others, rfl, rfl, _⟩ := List.map_eq_cons_iff.mp htypes
      cases inputs with
      | nil => cases (operands_eq_ok hoperands).1
      | cons t ids =>
        obtain ⟨y, ys, hy, _, hcons⟩ := mapM_eq_some_cons (operands_eq_ok hoperands).1
        obtain rfl := (List.cons.inj hcons).1
        exact hchannels ⟨hgrouped, t, x, rfl, hy, hzero⟩
    exact ⟨returns_of_outcome hop (addOp_eq_fault_iff.not.mpr hinfer),
      returns_of_outcome hinto (addOpInto_eq_fault_iff.not.mpr hinfer)⟩
  · intro tensors op' hoperands hprepare hempty
    have hinfer := (infer_eq_fault_iff hhost).mpr ⟨tensors, op', hoperands, hprepare, hempty⟩
    rw [addOp_eq_fault_iff.mpr hinfer] at hop
    rw [addOpInto_eq_fault_iff.mpr hinfer] at hinto
    exact ⟨hop, hinto⟩

/-- An input without channels and a weight that reads one. -/
def channelless : Graph :=
  (ofCalls [.tensor ⟨[1, 0, 4, 4], .float32⟩, .tensor ⟨[2, 1, 3, 3], .float32⟩]).1

theorem registration_returns_channelless :
    channelless.Reachable ∧ channelless.host.Fits ([⟨0⟩, ⟨1⟩].filterMap channelless.tensor?) ∧
      Returns (Update.addOp (.reshape ⟨[0, 0, -1], []⟩) [⟨0⟩]) (channelless, 3) ∧
      (Update.addOp (.conv2d {}) [⟨0⟩, ⟨1⟩]).run (channelless, 3) =
        .error .fault (channelless, 3) := by
  have hg : channelless.Reachable := reachable_ofCalls _
  have hhost (ids : List TensorId) : channelless.host.Fits (ids.filterMap channelless.tensor?) :=
    hg.linked.fits_resident rfl ids
  have hreshape := hg.registration_returns 3 (.reshape ⟨[0, 0, -1], []⟩) [⟨0⟩] [] (hhost _)
  have hconv := hg.registration_returns 3 (.conv2d {}) [⟨0⟩, ⟨1⟩] [] (hhost _)
  refine ⟨hg, hhost _, (hreshape.1 ?_).1, (hconv.2 _ _ rfl rfl ?_).1⟩
  · rintro ⟨hgrouped, _⟩
    cases hgrouped
  · exact ⟨_, _, _, rfl, rfl, 1, Nat.one_pos, rfl⟩

end Graph

end DataflowCost
