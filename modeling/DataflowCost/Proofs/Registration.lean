import DataflowCost.Proofs.Acyclicity
import DataflowCost.Proofs.InPlace

/-! The two ways to register an operator. To make tensors of the inferred types and to declare them
as outputs is to have the outputs made: inference sees the same inputs, and tensors that were just
made pass every check on declared outputs. -/
namespace DataflowCost.Graph

open scoped ExactArithmetic

variable {g g' : Graph} {op : Operator} {inputs : List TensorId}

theorem mapM_tensor_congr (h : ∀ t ∈ inputs, g'.tensor t = g.tensor t) :
    inputs.mapM g'.tensor = inputs.mapM g.tensor := by
  induction inputs with
  | nil => rfl
  | cons t inputs ih =>
    have ht : g'.tensor t = g.tensor t := h t List.mem_cons_self
    have hrest : inputs.mapM g'.tensor = inputs.mapM g.tensor :=
      ih fun u hu => h u (List.mem_cons_of_mem _ hu)
    rw [List.mapM_cons, List.mapM_cons, ht, hrest]

/-- Inference reads the host and the inputs, and nothing else of a graph. -/
theorem infer_congr [Build] (hhost : g'.host = g.host) (h : ∀ t ∈ inputs, g'.tensor t = g.tensor t) :
    g'.infer op inputs = g.infer op inputs := by
  have hoperands : g'.operands op inputs = g.operands op inputs := by
    unfold operands
    rw [mapM_tensor_congr h]
  unfold infer
  rw [hoperands, hhost]

section Made

variable (guid : Nat) (types : List TensorType)

theorem tensor_addTensors_of_lt {t : TensorId} (ht : t.index < g.tensors.length) :
    (g.addTensors guid types).graph.tensor t = g.tensor t := by
  have hsame : (g.addTensors guid types).graph.tensor? t = g.tensor? t := by
    rw [addTensors_eq]
    exact List.getElem?_append_left ht
  unfold tensor
  rw [hsame]

theorem checkOutputs_made (kind : Kind) :
    (g.addTensors guid types).graph.checkOutputs kind []
      ((g.addTensors guid types).id.zip types) = .ok () := by
  have hlen : (g.addTensors guid types).id.length = types.length := length_addTensors_id guid types
  rw [checkOutputs_eq_ok_iff]
  constructor
  · rw [List.map_fst_zip (Nat.le_of_eq hlen)]
    exact (writable_addTensors g guid types).nodup
  · intro p hp
    refine ⟨List.not_mem_nil, ?_⟩
    -- A pair of the list is an id and a type at one position.
    obtain ⟨i, hi, rfl⟩ := List.mem_iff_getElem.mp hp
    have hi : i < types.length := by
      rw [List.length_zip] at hi
      omega
    have hmade : i < (g.addTensors guid types).id.length := hlen ▸ hi
    have hid : (g.addTensors guid types).id[i] = ⟨g.tensors.length + i⟩ := by
      simp [addTensors_eq]
    rw [List.getElem_zip, hid]
    exact ⟨_, tensor?_addTensors_made guid types hi, rfl, rfl⟩

end Made

/-- Tensors of the inferred types can be declared as soon as they are made. -/
theorem admits_made [Build] {inferred : Inferred} (hinfer : g.infer op inputs = .ok inferred)
    (guid : Nat) :
    (g.addTensors guid inferred.outputs).graph.Admits op inputs
      (g.addTensors guid inferred.outputs).id inferred where
  infer := by
    have hhost : (g.addTensors guid inferred.outputs).graph.host = g.host := by
      rw [addTensors_eq]
    rw [infer_congr hhost fun t ht => tensor_addTensors_of_lt guid _ (lt_of_infer hinfer t ht)]
    exact hinfer
  length := length_addTensors_id guid _
  declared := checkOutputs_made guid _ _

theorem Linked.addOpInto_made [Build] (hg : g.Linked) (hfree : g.Acyclic) {inferred : Inferred}
    (hinfer : g.infer op inputs = .ok inferred) (guid : Nat) :
    (g.addTensors guid inferred.outputs).graph.addOpInto
        (g.addTensors guid inferred.outputs).nextGuid op inputs
        (g.addTensors guid inferred.outputs).id =
      g.addOp guid op inputs := by
  have hmade : (g.addTensors guid inferred.outputs).graph.Linked := hg.addTensors guid _
  have hacyclic : ((g.addTensors guid inferred.outputs).graph.register
      (g.addTensors guid inferred.outputs).nextGuid inferred.op inputs
      (g.addTensors guid inferred.outputs).id).graph.Acyclic :=
    hg.acyclic_made hfree (lt_of_infer hinfer)
  have hnone : (g.addTensors guid inferred.outputs).graph.closesCycle inputs
      (g.addTensors guid inferred.outputs).id = none :=
    (hmade.closesCycle_eq_none_iff (hfree.addTensors guid _)).mpr hacyclic
  rw [(admits_made hinfer guid).addOpInto, hnone, addOp, hinfer]
  rfl

/-- Registration that makes its outputs, and the same in two steps: make tensors of the inferred
types one by one, then declare them. Both end in the same graph with the same ids and guids. -/
theorem Reachable.registrations_agree [Build] (hg : g.Reachable) {guid : Nat} {e : Extended OpId}
    (hadd : g.addOp guid op inputs = .ok e) :
    ∃ inferred, g.infer op inputs = .ok inferred ∧
      (let made := g.addTensors guid inferred.outputs
       made.graph.addOpInto made.nextGuid op inputs made.id = .ok e ∧
        e.graph.node? e.id = some ⟨made.nextGuid, inferred.op, inputs, made.id⟩) ∧
      (Update.addOp op inputs).run (g, guid) = .ok e.id (e.graph, e.nextGuid) ∧
      (do
        let outputs ← inferred.outputs.mapM fun type => Update.addTensor type
        Update.addOpInto op inputs outputs).run (g, guid) = .ok e.id (e.graph, e.nextGuid) := by
  obtain ⟨inferred, hinfer, he⟩ := addOp_eq_ok_iff.mp hadd
  have hinto := hg.linked.addOpInto_made hg.acyclic hinfer guid
  rw [hadd] at hinto
  refine ⟨inferred, hinfer, ⟨hinto, ?_⟩, ?_, ?_⟩
  · rw [he]
    exact List.getElem?_concat_length
  · rw [Update.addOp_run hg.linked guid op inputs, hadd]
    rfl
  · rw [Update.bind_of_ok (Update.addTensors_run inferred.outputs),
      Update.addOpInto_run (hg.linked.addTensors guid _), hinto]
    rfl

/-- A tensor whose last axis can be split. -/
def undivided : Graph := (ofCalls [.tensor ⟨[2, 4], .float32⟩]).1

/-- The two halves take the guids 2 and 3, and the operator, stored with its axis resolved, takes 4. -/
theorem registrations_agree_undivided :
    undivided.Reachable ∧
      ∃ e, undivided.addOp 2 (.split ⟨-1, .equal 2, 0⟩) [⟨0⟩] = .ok e ∧
        e.graph.node? e.id = some ⟨4, .split ⟨-1, .equal 2, 1⟩, [⟨0⟩], [⟨1⟩, ⟨2⟩]⟩ ∧
        (undivided.addTensors 2 [⟨[2, 2], .float32⟩, ⟨[2, 2], .float32⟩]).graph.addOpInto 4
          (.split ⟨-1, .equal 2, 0⟩) [⟨0⟩] [⟨1⟩, ⟨2⟩] = .ok e := by
  have hg : undivided.Reachable := reachable_ofCalls _
  have hadd : ∃ e, undivided.addOp 2 (.split ⟨-1, .equal 2, 0⟩) [⟨0⟩] = .ok e := ⟨_, rfl⟩
  have hinfers : undivided.infer (.split ⟨-1, .equal 2, 0⟩) [⟨0⟩] =
      .ok ⟨.split ⟨-1, .equal 2, 1⟩, [⟨[2, 2], .float32⟩, ⟨[2, 2], .float32⟩]⟩ := rfl
  obtain ⟨e, he⟩ := hadd
  obtain ⟨inferred, hinfer, ⟨hinto, hnode⟩, _⟩ := hg.registrations_agree he
  obtain rfl := Except.ok.inj (hinfers.symm.trans hinfer)
  exact ⟨hg, e, he, hnode, hinto⟩

end DataflowCost.Graph
