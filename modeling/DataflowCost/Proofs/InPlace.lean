import DataflowCost.Graph.InPlace
import DataflowCost.Proofs.CycleSearch
import DataflowCost.Proofs.Reachable

/-! Calls in place on linked graphs. Every entry that a call looks up is there, so the reads and
writes end in the graph that the call describes; and all that can fail comes before the first write.
-/
namespace DataflowCost

open OpView (orFault)

namespace Graph

variable {g : Graph}

theorem Linked.lookUpReaders_eq (hg : g.Linked) {ids : List TensorId}
    (hids : ∀ t ∈ ids, t.index < g.tensors.length) :
    g.lookUpReaders ids = .ok (g.readersOf ids) := by
  have hreaders : ∀ t ∈ ids, (do
      let x ← orFault (g.tensor? t)
      x.consumers.mapM fun o => do
        let _ ← orFault (g.node? o)
        return o : Except Failure (List OpId)) =
      .ok (((g.tensor? t).map Tensor.consumers).getD []) := by
    intro t ht
    obtain ⟨x, hx⟩ := exists_tensor?_of_lt (hids t ht)
    have hconsumers : (x.consumers.mapM fun o => do
        let _ ← orFault (g.node? o)
        return o : Except Failure (List OpId)) = .ok (x.consumers.map id) := by
      refine mapM_eq_ok ?_
      intro o ho
      obtain ⟨n, hn⟩ := exists_node?_of_lt ((hg.mem_consumers hx).mp ho).op_lt
      rw [hn]
      rfl
    rw [hx, Option.map_some, Option.getD_some, ← List.map_id x.consumers]
    exact hconsumers
  unfold lookUpReaders
  rw [mapM_eq_ok hreaders]
  rfl

theorem lookUpWritten_eq {ids : List OpId} (hids : ∀ o ∈ ids, o.index < g.nodes.length) :
    g.lookUpWritten ids = .ok (g.writtenBy ids) := by
  have hwritten : ∀ o ∈ ids, (do return (← orFault (g.node? o)).outputs : Except Failure _) =
      .ok (((g.node? o).map Node.outputs).getD []) := by
    intro o ho
    obtain ⟨n, hn⟩ := exists_node?_of_lt (hids o ho)
    rw [hn]
    rfl
  unfold lookUpWritten
  rw [mapM_eq_ok hwritten]
  rfl

theorem Linked.lookUpDownstream_eq (hg : g.Linked) {rest : List OpId} {frontier : List TensorId}
    (hrest : ∀ o ∈ rest, o.index < g.nodes.length)
    (hfrontier : ∀ t ∈ frontier, t.index < g.tensors.length) :
    g.lookUpDownstream rest frontier = .ok (g.downstream rest frontier) := by
  -- Layer by layer: the operators of a layer are left over from before, its tensors are written.
  induction rest, frontier using downstream.induct g with
  | case1 rest frontier layers hempty =>
    rw [lookUpDownstream, downstream, hg.lookUpReaders_eq hfrontier]
    simp only [bind, Except.bind]
    rw [if_pos hempty, if_pos hempty]
    rfl
  | case2 rest frontier layers hempty ih =>
    have hlayer : ∀ o ∈ layers.1, o.index < g.nodes.length :=
      fun o ho => hrest o (mem_divide_fst.mp ho).1
    have hwritten : ∀ t ∈ g.writtenBy layers.1, t.index < g.tensors.length := by
      intro t ht
      obtain ⟨_, _, hw⟩ := mem_writtenBy.mp ht
      exact hg.writes_lt hw
    have hnext := ih (fun o ho => hrest o (mem_divide_snd.mp ho).1) hwritten
    rw [lookUpDownstream, downstream, hg.lookUpReaders_eq hfrontier]
    simp only [bind, Except.bind]
    rw [if_neg hempty, if_neg hempty, lookUpWritten_eq hlayer]
    simp only [layers] at hnext ⊢
    rw [hnext]
    rfl

/-- The search for a cycle finds every entry that it looks up. -/
theorem Linked.lookUpCycle_eq (hg : g.Linked) {inputs outputs : List TensorId}
    (hout : ∀ t ∈ outputs, t.index < g.tensors.length) :
    g.lookUpCycle inputs outputs = .ok (g.closesCycle inputs outputs) := by
  have hops : ∀ o ∈ g.opIds, o.index < g.nodes.length := fun o => mem_opIds.mp
  have hreached : ∀ o ∈ g.downstream g.opIds outputs, o.index < g.nodes.length :=
    fun o ho => hops o ((hg.found_downstream g.opIds outputs nodup_opIds).subset o ho)
  unfold lookUpCycle
  rw [hg.lookUpDownstream_eq hops hout]
  simp only [bind, Except.bind]
  rw [lookUpWritten_eq hreached]
  rfl

/-- What a call leaves that succeeds or fails as described: nothing is written by one that fails. -/
def outcome {ι : Type} (g : Graph) (guid : Nat) :
    Except Failure (Extended ι) → EStateM.Result Failure (Graph × Nat) ι
  | .ok e => .ok e.id (e.graph, e.nextGuid)
  | .error f => .error f (g, guid)

end Graph

namespace Update

variable {g : Graph} {guid : Nat}

theorem bind_of_ok {α β : Type} {x : Update α} {f : α → Update β} {s s' : Graph × Nat} {a : α}
    (h : x.run s = .ok a s') : (x >>= f).run s = (f a).run s' := by
  change EStateM.bind x f s = _
  change x s = _ at h
  rw [EStateM.bind, h]
  rfl

theorem bind_of_error {α β : Type} {x : Update α} {f : α → Update β} {s s' : Graph × Nat}
    {e : Failure} (h : x.run s = .error e s') : (x >>= f).run s = .error e s' := by
  change EStateM.bind x f s = _
  change x s = _ at h
  rw [EStateM.bind, h]

theorem read_of_ok {α : Type} {f : Graph → Except Failure α} {a : α} (h : f g = .ok a) :
    (read f).run (g, guid) = .ok a (g, guid) := by
  simp only [EStateM.run, read, h]

theorem read_of_error {α : Type} {f : Graph → Except Failure α} {e : Failure}
    (h : f g = .error e) : (read f).run (g, guid) = .error e (g, guid) := by
  simp only [EStateM.run, read, h]

theorem read_ok_run {α : Type} (f : Graph → α) :
    (read fun g => .ok (f g)).run (g, guid) = .ok (f g) (g, guid) := rfl

theorem takeGuid_run : takeGuid.run (g, guid) = .ok guid (g, guid + 1) := rfl

theorem addTensor_run (type : TensorType) (payload : Option Payload) :
    (addTensor type payload).run (g, guid) = g.outcome guid (.ok (g.addTensor guid type payload)) :=
  rfl

theorem addConstant_run (type : TensorType) (payload : Payload) :
    (addConstant type payload).run (g, guid) =
      g.outcome guid (g.addConstant guid type payload) := by
  unfold addConstant Graph.addConstant
  by_cases hfits : payload.length = type.size ∧ payload.dtype = type.dtype
  · rw [if_pos hfits, if_pos hfits]
    rfl
  · rw [if_neg hfits, if_neg hfits]
    rfl

theorem addTensors_run (types : List TensorType) :
    (types.mapM fun type => addTensor type).run (g, guid) =
      .ok (g.addTensors guid types).id
        ((g.addTensors guid types).graph, (g.addTensors guid types).nextGuid) := by
  induction types generalizing g guid with
  | nil => rfl
  | cons type types ih =>
    rw [List.mapM_cons, bind_of_ok (addTensor_run type none), bind_of_ok ih]
    rfl

/-- Writing to tensors one after the other, where writing twice is writing once. -/
theorem forM_writeTensor_run {f : Tensor → Tensor} (hf : ∀ t, f (f t) = f t)
    {ids : List TensorId} (hids : ∀ t ∈ ids, t.index < g.tensors.length) :
    (ids.forM (writeTensor f)).run (g, guid) =
      .ok () ({ g with tensors := g.tensors.mapIdx fun i t => if ⟨i⟩ ∈ ids then f t else t },
        guid) := by
  induction ids generalizing g with
  | nil =>
    have hsame : g.tensors.mapIdx (fun i t => if (⟨i⟩ : TensorId) ∈ [] then f t else t) =
        g.tensors := by
      apply List.ext_getElem
      · simp
      · intro i _ _
        simp
    rw [hsame]
    rfl
  | cons id ids ih =>
    have hid : id.index < g.tensors.length := hids id List.mem_cons_self
    have hget : g.tensor? id = some g.tensors[id.index] := List.getElem?_eq_getElem hid
    have hwrite : (writeTensor f id).run (g, guid) =
        .ok () ({ g with tensors := g.tensors.set id.index (f g.tensors[id.index]) }, guid) := by
      simp only [EStateM.run, writeTensor, hget]
    rw [List.forM_eq_forM, List.forM_cons, bind_of_ok hwrite, ← List.forM_eq_forM, ih ?_]
    · -- What is written now and again later is written as if once.
      congr 3
      apply List.ext_getElem
      · simp
      · intro i hi _
        have hmk : (⟨i⟩ : TensorId) = id ↔ id.index = i := by
          obtain ⟨k⟩ := id
          simp only [TensorId.mk.injEq]
          exact eq_comm
        by_cases hi : id.index = i
        · simp [hmk, hi, hf]
        · simp [hmk, hi]
    · intro t ht
      rw [List.length_set]
      exact hids t (List.mem_cons_of_mem _ ht)

theorem readBy_readBy (id : OpId) (t : Tensor) : readBy id (readBy id t) = readBy id t := by
  unfold readBy
  by_cases h : id ∈ t.consumers
  · simp [h]
  · simp [h]

theorem writtenBy_writtenBy (id : OpId) (t : Tensor) :
    writtenBy id (writtenBy id t) = writtenBy id t := rfl

/-- Reading and writing, one after the other, link an operator that was not linked before. -/
theorem link_eq {id : OpId} {t : TensorId} {x : Tensor} {inputs outputs : List TensorId}
    (hfresh : id ∉ x.consumers) (ht : x.id = t) :
    (if t ∈ outputs then writtenBy id (if t ∈ inputs then readBy id x else x)
      else if t ∈ inputs then readBy id x else x) = Graph.link id inputs outputs x := by
  subst ht
  by_cases hr : x.id ∈ inputs <;> by_cases hw : x.id ∈ outputs <;>
    simp [Graph.link, readBy, writtenBy, hr, hw, hfresh]

theorem register_run (hg : g.Linked) {op : Operator} {inputs outputs : List TensorId}
    (hin : ∀ t ∈ inputs, t.index < g.tensors.length)
    (hout : ∀ t ∈ outputs, t.index < g.tensors.length) :
    (register op inputs outputs).run (g, guid) =
      g.outcome guid (.ok (g.register guid op inputs outputs)) := by
  -- An operator that is not there yet reads no tensor.
  have hfresh : ∀ x ∈ g.tensors, (⟨g.nodes.length⟩ : OpId) ∉ x.consumers := by
    intro x hx hm
    obtain ⟨i, hi⟩ := List.mem_iff_getElem?.mp hx
    have hlt := ((hg.mem_consumers (t := ⟨i⟩) hi).mp hm).op_lt
    exact Nat.lt_irrefl _ hlt
  unfold register
  rw [bind_of_ok (read_ok_run fun g => (⟨g.nodes.length⟩ : OpId)), bind_of_ok takeGuid_run,
    bind_of_ok (forM_writeTensor_run (readBy_readBy _) hin),
    bind_of_ok (forM_writeTensor_run (writtenBy_writtenBy _) ?_)]
  · refine congrArg (fun tensors => EStateM.Result.ok (⟨g.nodes.length⟩ : OpId)
      (({ g with tensors, nodes := g.nodes ++ [⟨guid, op, inputs, outputs⟩] } : Graph),
        guid + 1)) ?_
    apply List.ext_getElem
    · simp
    · intro i hi _
      have hi : i < g.tensors.length := by simpa using hi
      have hid : g.tensors[i].id = ⟨i⟩ := hg.id_eq (t := ⟨i⟩) (List.getElem?_eq_getElem hi)
      simp only [List.getElem_mapIdx, List.getElem_map]
      exact link_eq (hfresh _ (List.getElem_mem hi)) hid
  · intro t ht
    rw [List.length_mapIdx]
    exact hout t ht

theorem addOp_run [Build] (hg : g.Linked) (guid : Nat) (op : Operator) (inputs : List TensorId) :
    (addOp op inputs).run (g, guid) = g.outcome guid (g.addOp guid op inputs) := by
  unfold addOp Graph.addOp
  cases hinfer : g.infer op inputs with
  | error e => exact bind_of_error (read_of_error hinfer)
  | ok inferred =>
    rw [bind_of_ok (read_of_ok hinfer), bind_of_ok (addTensors_run _)]
    refine register_run (hg.addTensors guid _) ?_ ?_
    · intro t ht
      have hlt := Graph.lt_of_infer hinfer t ht
      rw [Graph.addTensors_eq]
      simp only [List.length_append]
      omega
    · intro t ht
      obtain ⟨x, hx, _⟩ := (Graph.writable_addTensors g guid inferred.outputs).unproduced t ht
      exact Graph.tensor?_lt hx

theorem addOpInto_run [Build] (hg : g.Linked) (guid : Nat) (op : Operator)
    (inputs outputs : List TensorId) :
    (addOpInto op inputs outputs).run (g, guid) =
      g.outcome guid (g.addOpInto guid op inputs outputs) := by
  unfold addOpInto
  cases hinfer : g.infer op inputs with
  | error e =>
    rw [Graph.addOpInto, hinfer]
    exact bind_of_error (read_of_error hinfer)
  | ok inferred =>
    rw [bind_of_ok (read_of_ok hinfer)]
    by_cases hlen : outputs.length = inferred.outputs.length
    · rw [if_pos hlen]
      cases hdeclared : g.checkOutputs inferred.op.kind [] (outputs.zip inferred.outputs) with
      | error e =>
        rw [bind_of_error (read_of_error hdeclared), Graph.addOpInto, hinfer]
        change _ = g.outcome guid (if outputs.length ≠ inferred.outputs.length then _ else _)
        rw [if_neg (not_not.mpr hlen), hdeclared]
        rfl
      | ok _ =>
        have hadmits : g.Admits op inputs outputs inferred := ⟨hinfer, hlen, hdeclared⟩
        have hout : ∀ t ∈ outputs, t.index < g.tensors.length := by
          intro t ht
          obtain ⟨x, hx, _⟩ := hadmits.writable.unproduced t ht
          exact Graph.tensor?_lt hx
        rw [bind_of_ok (read_of_ok hdeclared), bind_of_ok (read_of_ok (hg.lookUpCycle_eq hout)),
          hadmits.addOpInto]
        cases g.closesCycle inputs outputs with
        | some remaining => rfl
        | none => exact register_run hg (Graph.lt_of_infer hinfer) hout
    · rw [if_neg hlen, Graph.addOpInto, hinfer]
      change _ = g.outcome guid (if outputs.length ≠ inferred.outputs.length then _ else _)
      rw [if_pos hlen]
      rfl

end Update

/-- A call as it runs. -/
def Call.perform [Build] : Call → Update Unit
  | .tensor type => do let _ ← Update.addTensor type
  | .constant type payload => do let _ ← Update.addConstant type payload
  | .op definition inputs => do let _ ← Update.addOp definition inputs
  | .opInto definition inputs outputs => do let _ ← Update.addOpInto definition inputs outputs
  | .host known => Update.write fun g => g.withHost known

theorem Update.perform_cases {ι : Type} {g : Graph} {guid : Nat} {x : Update ι}
    {r : Except Failure (Extended ι)} (h : x.run (g, guid) = g.outcome guid r) :
    (do let _ ← x : Update Unit).run (g, guid) = .ok () (g.settle guid r) ∨
      ∃ e, (do let _ ← x : Update Unit).run (g, guid) = .error e (g, guid) ∧
        g.settle guid r = (g, guid) := by
  cases r with
  | ok made => exact .inl (Update.bind_of_ok h)
  | error e => exact .inr ⟨e, Update.bind_of_error h, rfl⟩

/-- A call ends in the graph that it describes, or fails and leaves everything as it was. -/
theorem Graph.Linked.perform_cases [Build] {g : Graph} (hg : g.Linked) (guid : Nat) (call : Call) :
    call.perform.run (g, guid) = .ok () (g.after guid call) ∨
      ∃ e, call.perform.run (g, guid) = .error e (g, guid) ∧ g.after guid call = (g, guid) := by
  cases call with
  | tensor type => exact Update.perform_cases (Update.addTensor_run type none)
  | constant type payload => exact Update.perform_cases (Update.addConstant_run type payload)
  | op definition inputs => exact Update.perform_cases (Update.addOp_run hg guid definition inputs)
  | opInto definition inputs outputs =>
    exact Update.perform_cases (Update.addOpInto_run hg guid definition inputs outputs)
  | host known => exact .inl rfl

end DataflowCost
