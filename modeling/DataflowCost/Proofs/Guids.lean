import DataflowCost.Proofs.Growth
import DataflowCost.Proofs.Registration

/-! The guids of graphs that share one counter. A call takes the next guids for what it adds, and none
if it fails; so the guids that are in use are those from the start of the counter up to where it is. -/
namespace DataflowCost

open scoped ExactArithmetic

namespace Graph

variable {g : Graph}

/-- The guids of the tensors and of the operators. -/
def guids (g : Graph) : List Nat := g.tensors.map Tensor.guid ++ g.nodes.map Node.guid

theorem guids_addTensor (g : Graph) (guid : Nat) (type : TensorType) (payload : Option Payload) :
    (g.addTensor guid type payload).graph.guids.Perm (g.guids ++ [guid]) := by
  have hmade : (g.addTensor guid type payload).graph.guids =
      g.tensors.map Tensor.guid ++ ([guid] ++ g.nodes.map Node.guid) := by
    simp only [guids, addTensor, List.map_append, List.map_cons, List.map_nil, List.append_assoc]
  rw [hmade, guids, List.append_assoc]
  exact .append_left _ List.perm_append_comm

theorem guids_addTensors (g : Graph) (guid : Nat) (types : List TensorType) :
    (g.addTensors guid types).graph.guids.Perm (g.guids ++ List.range' guid types.length) := by
  induction types generalizing g guid with
  | nil =>
    rw [List.length_nil, List.range'_zero, List.append_nil]
    exact .refl _
  | cons type types ih =>
    have hfirst := guids_addTensor g guid type none
    -- The first tensor takes the guid, the others take those behind it.
    calc (g.addTensors guid (type :: types)).graph.guids
      _ |>.Perm ((g.addTensor guid type).graph.guids ++ List.range' (guid + 1) types.length) :=
        ih _ _
      _ |>.Perm (g.guids ++ [guid] ++ List.range' (guid + 1) types.length) :=
        hfirst.append_right _
      _ = g.guids ++ List.range' guid (types.length + 1) := by
        rw [List.append_assoc, List.singleton_append, ← List.range'_succ]

theorem guids_register (g : Graph) (guid : Nat) (op : Operator) (inputs outputs : List TensorId) :
    (g.register guid op inputs outputs).graph.guids = g.guids ++ [guid] := by
  have hlinks : (g.tensors.map (link ⟨g.nodes.length⟩ inputs outputs)).map Tensor.guid =
      g.tensors.map Tensor.guid := by
    rw [List.map_map]
    rfl
  simp only [guids, register, hlinks, List.map_append, List.map_cons, List.map_nil,
    List.append_assoc]

/-- The graph and counter that a call leaves, where the guids of what is new are those that the
counter has passed. -/
def Takes (g : Graph) (guid : Nat) (s : Graph × Nat) : Prop :=
  ∃ count, s.2 = guid + count ∧ s.1.guids.Perm (g.guids ++ List.range' guid count)

theorem takes_nothing (g : Graph) (guid : Nat) : g.Takes guid (g, guid) := by
  refine ⟨0, rfl, ?_⟩
  rw [List.range'_zero, List.append_nil]

theorem takes_addTensor (g : Graph) (guid : Nat) (type : TensorType) (payload : Option Payload) :
    g.Takes guid ((g.addTensor guid type payload).graph, guid + 1) :=
  ⟨1, rfl, guids_addTensor g guid type payload⟩

theorem takes_register (g : Graph) (guid : Nat) (op : Operator) (inputs outputs : List TensorId) :
    g.Takes guid ((g.register guid op inputs outputs).graph, guid + 1) :=
  ⟨1, rfl, .of_eq (guids_register g guid op inputs outputs)⟩

theorem takes_made (g : Graph) (guid : Nat) (types : List TensorType) (op : Operator)
    (inputs : List TensorId) :
    let made := g.addTensors guid types
    g.Takes guid ((made.graph.register made.nextGuid op inputs made.id).graph,
      made.nextGuid + 1) := by
  intro made
  have hnext : made.nextGuid = guid + types.length := by
    simp only [made, addTensors_eq]
  refine ⟨types.length + 1, ?_, ?_⟩
  · rw [hnext, Nat.add_assoc]
  · calc (made.graph.register made.nextGuid op inputs made.id).graph.guids
      _ = made.graph.guids ++ [made.nextGuid] := guids_register ..
      _ |>.Perm (g.guids ++ List.range' guid types.length ++ [made.nextGuid]) :=
        (guids_addTensors g guid types).append_right _
      _ = g.guids ++ List.range' guid (types.length + 1) := by
        rw [hnext, List.append_assoc, ← List.range'_1_concat]

theorem takes_settle {ι : Type} {guid : Nat} {r : Except Failure (Extended ι)}
    (h : ∀ e, r = .ok e → g.Takes guid (e.graph, e.nextGuid)) : g.Takes guid (g.settle guid r) := by
  cases r with
  | ok e => exact h e rfl
  | error f => exact takes_nothing g guid

theorem takes_after [Build] (g : Graph) (guid : Nat) (call : Call) : g.Takes guid (g.after guid call) := by
  cases call with
  | tensor type => exact takes_addTensor g guid type none
  | constant type payload =>
    refine takes_settle ?_
    intro e he
    obtain ⟨_, rfl⟩ := addConstant_eq_ok_iff.mp he
    exact takes_addTensor g guid type (some payload)
  | op definition inputs =>
    refine takes_settle ?_
    intro e he
    obtain ⟨inferred, _, rfl⟩ := addOp_eq_ok_iff.mp he
    exact takes_made g guid inferred.outputs inferred.op inputs
  | opInto definition inputs outputs =>
    refine takes_settle ?_
    intro e he
    obtain ⟨inferred, _, _, rfl⟩ := addOpInto_eq_ok_iff.mp he
    exact takes_register g guid inferred.op inputs outputs
  | host host => exact takes_nothing g guid

theorem tensor?_register_of_some {guid : Nat} {op : Operator} {inputs outputs : List TensorId}
    {t : TensorId} {x : Tensor} (hx : g.tensor? t = some x) :
    (g.register guid op inputs outputs).graph.tensor? t =
      some (link ⟨g.nodes.length⟩ inputs outputs x) := by
  rw [tensor?_register, hx, Option.map_some]

/-- The guids of the outputs that are made for an operator, and the guid of the operator. -/
theorem guids_of_addOp [Build] {guid : Nat} {op : Operator} {inputs : List TensorId} {e : Extended OpId}
    (hadd : g.addOp guid op inputs = .ok e) :
    ∃ n, e.graph.node? e.id = some n ∧
      (∀ i t, n.outputs[i]? = some t → ∃ x, e.graph.tensor? t = some x ∧ x.guid = guid + i) ∧
      n.guid = guid + n.outputs.length ∧ e.nextGuid = n.guid + 1 := by
  obtain ⟨inferred, _, rfl⟩ := addOp_eq_ok_iff.mp hadd
  have hnext : (g.addTensors guid inferred.outputs).nextGuid = guid + inferred.outputs.length := by
    rw [addTensors_eq]
  refine ⟨_, List.getElem?_concat_length, ?_, ?_, rfl⟩
  · intro i t ht
    have hi : i < inferred.outputs.length := by
      rw [← length_addTensors_id guid inferred.outputs]
      exact (List.getElem?_eq_some_iff.mp ht).1
    obtain rfl : ⟨g.tensors.length + i⟩ = t := by
      rw [addTensors_eq] at ht
      simpa [hi] using ht
    exact ⟨_, tensor?_register_of_some (tensor?_addTensors_made guid _ hi), rfl⟩
  · rw [hnext, length_addTensors_id]

end Graph

/-- Graphs that take their guids from one counter. -/
structure Session where
  graphs : List Graph
  nextGuid : Nat

namespace Session

/-- What can be asked of a session: a new graph, or a call on one of those that are there. -/
inductive Request where
  | create
  | call (graph : Nat) (call : Call)

/-- Puts back a graph and the counter as a call has left them, also if it has failed. -/
def put (s : Session) (i : Nat) (r : EStateM.Result Failure (Graph × Nat) Unit) : Session :=
  match r with
  | .ok _ (g, next) => ⟨s.graphs.set i g, next⟩
  | .error _ (g, next) => ⟨s.graphs.set i g, next⟩

def step [Build] (s : Session) : Request → Session
  | .create => { s with graphs := s.graphs ++ [.empty] }
  | .call i call =>
    match s.graphs[i]? with
    | some g => s.put i (call.perform.run (g, s.nextGuid))
    | none => s

/-- The session after requests, from a session without graphs. -/
def run [Build] (start : Nat) (requests : List Request) : Session := requests.foldl step ⟨[], start⟩

def guids (s : Session) : List Nat := s.graphs.flatMap Graph.guids

/-- The guids in use are those that the counter has passed since the start. -/
structure Accounts [Build] (start : Nat) (s : Session) : Prop where
  reachable : ∀ g ∈ s.graphs, g.Reachable
  used : ∃ count, s.nextGuid = start + count ∧ s.guids.Perm (List.range' start count)

variable {s : Session} {start i : Nat} {g : Graph}

theorem step_call_of_none [Build] (hi : s.graphs[i]? = none) (call : Call) :
    s.step (.call i call) = s := by
  simp only [step, hi]

theorem step_call_of_some [Build] (hi : s.graphs[i]? = some g) (hg : g.Linked) (call : Call) :
    s.step (.call i call) =
      ⟨s.graphs.set i (g.after s.nextGuid call).1, (g.after s.nextGuid call).2⟩ := by
  simp only [step, hi]
  rcases hg.perform_cases s.nextGuid call with hok | ⟨e, herror, hsame⟩
  · rw [hok, put]
  · rw [herror, put, hsame]

/-- Only the guids of the graph that is put back change. -/
theorem guids_set {g' : Graph} {new : List Nat} (hi : s.graphs[i]? = some g)
    (hnew : g'.guids.Perm (g.guids ++ new)) (next : Nat) :
    (⟨s.graphs.set i g', next⟩ : Session).guids.Perm (s.guids ++ new) := by
  obtain ⟨hlt, rfl⟩ := List.getElem?_eq_some_iff.mp hi
  have hsplit : s.guids = (s.graphs.take i).flatMap Graph.guids ++
      (s.graphs[i].guids ++ (s.graphs.drop (i + 1)).flatMap Graph.guids) := by
    rw [← List.flatMap_cons, ← List.flatMap_append, List.getElem_cons_drop, List.take_append_drop]
    rfl
  have hset : (⟨s.graphs.set i g', next⟩ : Session).guids =
      (s.graphs.take i).flatMap Graph.guids ++
        (g'.guids ++ (s.graphs.drop (i + 1)).flatMap Graph.guids) := by
    simp only [guids, List.set_eq_take_append_cons_drop, if_pos hlt, List.flatMap_append,
      List.flatMap_cons]
  rw [hset, hsplit, List.append_assoc, List.append_assoc]
  refine .append_left _ ?_
  calc g'.guids ++ (s.graphs.drop (i + 1)).flatMap Graph.guids
    _ |>.Perm (s.graphs[i].guids ++ new ++ (s.graphs.drop (i + 1)).flatMap Graph.guids) :=
      hnew.append_right _
    _ |>.Perm (s.graphs[i].guids ++ ((s.graphs.drop (i + 1)).flatMap Graph.guids ++ new)) := by
      rw [List.append_assoc]
      exact .append_left _ List.perm_append_comm

theorem Accounts.step [Build] (h : s.Accounts start) (r : Request) : (s.step r).Accounts start := by
  obtain ⟨count, hnext, hused⟩ := h.used
  cases r with
  | create =>
    constructor
    · intro g hg
      rcases List.mem_append.mp hg with hg | hg
      · exact h.reachable g hg
      · rw [List.mem_singleton.mp hg]
        exact .empty
    · -- A new graph has no guids.
      have hsame : (s.step .create).guids = s.guids := by
        simp [Session.step, guids, Graph.guids, Graph.empty]
      exact ⟨count, hnext, hsame ▸ hused⟩
  | call i call =>
    cases hi : s.graphs[i]? with
    | none =>
      rw [step_call_of_none hi]
      exact h
    | some g =>
      have hg : g.Reachable := h.reachable g (List.mem_of_getElem? hi)
      obtain ⟨new, hcount, hnew⟩ := g.takes_after s.nextGuid call
      rw [step_call_of_some hi hg.linked]
      constructor
      · intro g' hg'
        rcases List.mem_or_eq_of_mem_set hg' with hold | rfl
        · exact h.reachable g' hold
        · exact .call s.nextGuid call hg
      · refine ⟨count + new, ?_, ?_⟩
        · rw [hcount, hnext, Nat.add_assoc]
        · calc (⟨s.graphs.set i (g.after s.nextGuid call).1, (g.after s.nextGuid call).2⟩ :
              Session).guids
            _ |>.Perm (s.guids ++ List.range' s.nextGuid new) := guids_set hi hnew _
            _ |>.Perm (List.range' start count ++ List.range' s.nextGuid new) :=
              hused.append_right _
            _ = List.range' start (count + new) := by rw [hnext, List.range'_append_1]

theorem accounts_run [Build] (start : Nat) (requests : List Request) :
    (run start requests).Accounts start := by
  unfold run
  have hfold (s : Session) (hs : s.Accounts start) : (requests.foldl step s).Accounts start := by
    induction requests generalizing s with
    | nil => exact hs
    | cons r requests ih => exact ih _ (hs.step r)
  exact hfold _ ⟨nofun, 0, rfl, .nil⟩

/-- However calls on the graphs of a session are interleaved, no guid is used twice, and those in use
are the ones from the start to the counter. A call that fails takes none. An operator with outputs
that are made for it takes the guid after theirs, which stand in the order of the outputs. -/
theorem guids_exact [Build] (start : Nat) (requests : List Request) :
    let s := run start requests
    start ≤ s.nextGuid ∧ s.guids.Nodup ∧
      (∀ guid, guid ∈ s.guids ↔ start ≤ guid ∧ guid < s.nextGuid) ∧
      (∀ i g call e left, s.graphs[i]? = some g →
        call.perform.run (g, s.nextGuid) = .error e left → s.step (.call i call) = s) ∧
      ∀ i g op inputs id g' next, s.graphs[i]? = some g →
        (Update.addOp op inputs).run (g, s.nextGuid) = .ok id (g', next) →
        s.step (.call i (.op op inputs)) = ⟨s.graphs.set i g', next⟩ ∧
        ∃ n, g'.node? id = some n ∧
          (∀ k t, n.outputs[k]? = some t →
            ∃ x, g'.tensor? t = some x ∧ x.guid = s.nextGuid + k) ∧
          n.guid = s.nextGuid + n.outputs.length ∧ next = n.guid + 1 := by
  intro s
  have haccounts : s.Accounts start := accounts_run start requests
  have hlinked {i : Nat} {g : Graph} (hi : s.graphs[i]? = some g) : g.Linked :=
    (haccounts.reachable g (List.mem_of_getElem? hi)).linked
  obtain ⟨count, hnext, hused⟩ := haccounts.used
  refine ⟨?_, ?_, ?_, ?_, ?_⟩
  · omega
  · rw [hused.nodup_iff]
    exact List.nodup_range'
  · intro guid
    rw [hused.mem_iff, List.mem_range'_1, hnext]
  · intro i g call e left hi hfails
    rw [step_call_of_some hi (hlinked hi)]
    rcases (hlinked hi).perform_cases s.nextGuid call with hok | ⟨_, _, hsame⟩
    · rw [hfails] at hok
      cases hok
    · obtain ⟨hlt, hget⟩ := List.getElem?_eq_some_iff.mp hi
      rw [hsame, ← hget, List.set_getElem_self]
  · intro i g op inputs id g' next hi hruns
    rw [Update.addOp_run (hlinked hi)] at hruns
    cases hadd : g.addOp s.nextGuid op inputs with
    | error e =>
      rw [hadd] at hruns
      cases hruns
    | ok e =>
      rw [hadd] at hruns
      obtain ⟨rfl, rfl, rfl⟩ : e.id = id ∧ e.graph = g' ∧ e.nextGuid = next := by
        simpa [Graph.outcome] using hruns
      refine ⟨?_, Graph.guids_of_addOp hadd⟩
      rw [step_call_of_some hi (hlinked hi), Graph.after, hadd]
      rfl

/-- Two graphs by turns: the first has a call turned down, the second splits a tensor in between. -/
def alternating : List Request := [
  .create, .create,
  .call 0 (.tensor ⟨[4], .float32⟩),
  .call 1 (.tensor ⟨[2, 4], .float32⟩),
  .call 0 (.op (.unary ⟨.relu⟩) [⟨7⟩]),
  .call 1 (.op (.split ⟨-1, .equal 2, 0⟩) [⟨0⟩]),
  .call 0 (.op (.unary ⟨.relu⟩) [⟨0⟩])]

theorem guids_exact_alternating :
    (run 5 alternating).graphs.map Graph.guids = [[5, 10, 11], [6, 7, 8, 9]] ∧
      (run 5 alternating).guids.Nodup ∧
      (∀ guid, guid ∈ (run 5 alternating).guids ↔ 5 ≤ guid ∧ guid < 12) ∧
      (run 5 (alternating.take 4)).step (.call 0 (.op (.unary ⟨.relu⟩) [⟨7⟩])) =
        run 5 (alternating.take 4) := by
  have hnext : (run 5 alternating).nextGuid = 12 := rfl
  obtain ⟨_, hnodup, hmem, _⟩ := guids_exact 5 alternating
  rw [hnext] at hmem
  have hgraph : (run 5 (alternating.take 4)).graphs[0]? =
      some (Graph.empty.addTensor 5 ⟨[4], .float32⟩).graph := rfl
  have hfails : (Call.op (.unary ⟨.relu⟩) [⟨7⟩]).perform.run
      ((Graph.empty.addTensor 5 ⟨[4], .float32⟩).graph, 7) =
      .error (.error (.unknownTensor ⟨7⟩)) ((Graph.empty.addTensor 5 ⟨[4], .float32⟩).graph, 7) :=
    rfl
  obtain ⟨_, _, _, hrejected, _⟩ := guids_exact 5 (alternating.take 4)
  exact ⟨rfl, hnodup, hmem, hrejected _ _ _ _ _ hgraph hfails⟩

end Session

end DataflowCost
