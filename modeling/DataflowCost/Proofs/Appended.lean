import DataflowCost.Proofs.Evaluation
import DataflowCost.Proofs.Inferred
import DataflowCost.Proofs.Registration
import DataflowCost.Proofs.SharedKeys
import DataflowCost.Proofs.TopologicalOrder

/-! Operators that have just been added, and what the graph shows of them. Nobody reads the outputs
that are made for an operator yet, so a graph in which operators are fed by earlier ones stays such a
graph, is evaluated in the order of registration, and its estimates gain one row at the end. -/
namespace DataflowCost

open DataflowCost.Graph

namespace Graph

variable {g : Graph} {guid : Nat} {op : Operator} {inputs : List TensorId} {e : Extended OpId}

theorem Reachable.addOp [Build] (hg : g.Reachable) (h : g.addOp guid op inputs = .ok e) :
    e.graph.Reachable := by
  have hafter : (g.after guid (.op op inputs)).1 = e.graph := by
    change (g.settle guid (g.addOp guid op inputs)).1 = _
    rw [h]
    rfl
  rw [← hafter]
  exact .call guid (.op op inputs) hg

theorem nodes_of_addOp [Build] (h : g.addOp guid op inputs = .ok e) :
    ∃ n, e.graph.nodes = g.nodes ++ [n] ∧ e.id = ⟨g.nodes.length⟩ := by
  obtain ⟨inferred, _, rfl⟩ := addOp_eq_ok_iff.mp h
  have hmade : (g.addTensors guid inferred.outputs).graph.nodes = g.nodes := by rw [addTensors_eq]
  refine ⟨_, congrArg (· ++ _) hmade, ?_⟩
  exact congrArg (fun nodes : List Node => OpId.mk nodes.length) hmade

theorem Reachable.extends_addOp [Build] (hg : g.Reachable) (h : g.addOp guid op inputs = .ok e) :
    g.Extends e.graph := by
  obtain ⟨inferred, hinfer, rfl⟩ := addOp_eq_ok_iff.mp h
  exact hg.linked.extends_step (.made guid op inputs inferred hinfer)

/-- What has just been registered is shown with the types that its tensors have had before. -/
theorem exists_view_of_register {outputs : List TensorId} {ins outs : List TensorType}
    (hlinked : (g.register guid op inputs outputs).graph.Linked)
    (hextends : g.Extends (g.register guid op inputs outputs).graph)
    (hins : g.typesOf? inputs = some ins) (houts : g.typesOf? outputs = some outs) :
    ∃ v, (g.register guid op inputs outputs).graph.view
        (g.register guid op inputs outputs).id = .ok v ∧
      v.op = op ∧ v.node.outputs = outputs ∧ v.inputTypes = ins ∧
      v.outputs.map Tensor.type = outs := by
  have hnode : (g.register guid op inputs outputs).graph.node?
      (g.register guid op inputs outputs).id = some ⟨guid, op, inputs, outputs⟩ :=
    List.getElem?_concat_length
  obtain ⟨reads, writes, hreads, hwrites, hview⟩ := hlinked.exists_view hnode
  exact ⟨_, hview, rfl, rfl,
    Option.some.inj ((typesOf?_of_mapM hreads).symm.trans (hextends.typesOf? hins)),
    Option.some.inj ((typesOf?_of_mapM hwrites).symm.trans (hextends.typesOf? houts))⟩

/-- What the graph shows of the new operator is what has been inferred of it. -/
theorem Reachable.view_of_addOp [Build] (hg : g.Reachable) (h : g.addOp guid op inputs = .ok e) :
    ∃ inferred types v, g.infer op inputs = .ok inferred ∧ g.typesOf? inputs = some types ∧
      e.graph.view e.id = .ok v ∧ v.op = inferred.op ∧ v.inputTypes = types ∧
      v.outputs.map Tensor.type = inferred.outputs ∧
      e.graph.typesOf? v.node.outputs = some inferred.outputs := by
  have hlinked := (hg.addOp h).linked
  obtain ⟨inferred, hinfer, rfl⟩ := addOp_eq_ok_iff.mp h
  obtain ⟨types, htypes, _⟩ := registered_of_infer hinfer
  have hmade := typesOf?_addTensors g guid inferred.outputs
  have hextends : (g.addTensors guid inferred.outputs).graph.Extends
      ((g.addTensors guid inferred.outputs).graph.register
        (g.addTensors guid inferred.outputs).nextGuid inferred.op inputs
        (g.addTensors guid inferred.outputs).id).graph :=
    (hg.linked.addTensors guid inferred.outputs).extends_register
      (writable_addTensors g guid inferred.outputs)
  -- Inputs keep the types that inference saw, and outputs have those that they were made with.
  obtain ⟨v, hv, hop, hids, hins, houts⟩ := exists_view_of_register hlinked hextends
    ((extends_addTensors g guid inferred.outputs).typesOf? htypes) hmade
  refine ⟨inferred, types, v, hinfer, htypes, hv, hop, hins, houts, ?_⟩
  rw [hids]
  exact hextends.typesOf? hmade

/-- The operator joins the graph, with outputs that are made for it or with declared ones. -/
def Adds [Build] (g : Graph) (op : Operator) (inputs : List TensorId) (e : Extended OpId) : Prop :=
  ∃ guid, g.addOp guid op inputs = .ok e ∨ ∃ outputs, g.addOpInto guid op inputs outputs = .ok e

theorem Adds.reachable [Build] (h : g.Adds op inputs e) (hg : g.Reachable) : e.graph.Reachable := by
  obtain ⟨guid, hadd | ⟨outputs, hadd⟩⟩ := h
  · exact hg.addOp hadd
  · have hafter : (g.after guid (.opInto op inputs outputs)).1 = e.graph := by
      change (g.settle guid (g.addOpInto guid op inputs outputs)).1 = _
      rw [hadd]
      rfl
    rw [← hafter]
    exact .call guid (.opInto op inputs outputs) hg

/-- Either way it is shown with what has been inferred of it. -/
theorem Adds.exists_view [Build] (h : g.Adds op inputs e) (hg : g.Reachable) :
    ∃ inferred types v, g.infer op inputs = .ok inferred ∧ g.typesOf? inputs = some types ∧
      e.graph.view e.id = .ok v ∧ v.op = inferred.op ∧ v.io = ⟨types, inferred.outputs⟩ := by
  have hlinked := (h.reachable hg).linked
  obtain ⟨guid, hadd | ⟨outputs, hadd⟩⟩ := h
  · obtain ⟨inferred, types, v, hinfer, htypes, hv, hop, hins, houts, _⟩ := hg.view_of_addOp hadd
    refine ⟨inferred, types, v, hinfer, htypes, hv, hop, ?_⟩
    rw [OpView.io, hins, houts]
  · obtain ⟨inferred, hadmits, _, rfl⟩ := addOpInto_eq_ok_iff.mp hadd
    obtain ⟨types, htypes, _⟩ := registered_of_infer hadmits.infer
    obtain ⟨v, hv, hop, _, hins, houts⟩ := exists_view_of_register hlinked
      (hg.linked.extends_register hadmits.writable) htypes hadmits.typesOf?_outputs
    refine ⟨inferred, types, v, hadmits.infer, htypes, hv, hop, ?_⟩
    rw [OpView.io, hins, houts]

/-- Operators are fed by earlier ones only. -/
def Forward (g : Graph) : Prop := ∀ a b, g.Feeds a b → a.index < b.index

theorem forward_of_nodes_eq_nil (h : g.nodes = []) : g.Forward := by
  intro a b hfeeds
  have hlt : a.index < g.nodes.length := hfeeds.left_lt
  rw [h] at hlt
  exact absurd hlt (Nat.not_lt_zero _)

/-- The new operator feeds nobody, as its outputs have just been made. -/
theorem Forward.addOp [Build] (hforward : g.Forward) (hg : g.Reachable)
    (h : g.addOp guid op inputs = .ok e) : e.graph.Forward := by
  obtain ⟨inferred, hinfer, rfl⟩ := addOp_eq_ok_iff.mp h
  have hnodes : (g.addTensors guid inferred.outputs).graph.nodes = g.nodes := by rw [addTensors_eq]
  have hmade (o : OpId) (t : TensorId) :
      ((g.addTensors guid inferred.outputs).graph.Reads o t ↔ g.Reads o t) ∧
        ((g.addTensors guid inferred.outputs).graph.Writes o t ↔ g.Writes o t) := by
    rw [addTensors_eq]
    exact ⟨Iff.rfl, Iff.rfl⟩
  rintro a b ⟨t, hwrites, hreads⟩
  rcases writes_register.mp hwrites with hwrites | ⟨_, ht⟩
  · have hwrites : g.Writes a t := (hmade a t).2.mp hwrites
    rcases reads_register.mp hreads with hreads | ⟨rfl, _⟩
    · exact hforward a b ⟨t, hwrites, (hmade b t).1.mp hreads⟩
    · rw [hnodes]
      exact hwrites.op_lt
  · obtain ⟨i, _, rfl⟩ := mem_addTensors_id.mp ht
    have hlt : g.tensors.length + i < g.tensors.length := by
      rcases reads_register.mp hreads with hreads | ⟨_, hmem⟩
      · exact hg.linked.reads_lt ((hmade b _).1.mp hreads)
      · exact lt_of_infer hinfer _ hmem
    omega

theorem Forward.topologicalOrder_eq [Build] (hforward : g.Forward) (hg : g.Reachable) :
    g.topologicalOrder = .ok g.opIds := by
  rw [Graph.topologicalOrder_eq hg.linked.toArena (greedy_opIds hforward), if_pos length_opIds]

theorem Reachable.lt_of_mem_order [Build] (hg : g.Reachable) {order : List OpId}
    (horder : g.topologicalOrder = .ok order) {o : OpId} (ho : o ∈ order) :
    o.index < g.nodes.length := by
  obtain ⟨found, hgreedy, _⟩ := exists_greedy hg.linked.toArena
  have heq := Graph.topologicalOrder_eq hg.linked.toArena hgreedy
  rw [horder] at heq
  -- The loop only emits operators of the graph.
  rcases ite_eq_iff.mp heq.symm with ⟨_, hok⟩ | ⟨_, herror⟩
  · rw [← Except.ok.inj hok] at ho
    exact hgreedy.runs.lt ho
  · cases herror

theorem opIds_of_addOp [Build] (h : g.addOp guid op inputs = .ok e) :
    e.graph.opIds = g.opIds ++ [e.id] := by
  obtain ⟨n, hnodes, hid⟩ := nodes_of_addOp h
  rw [opIds, hnodes, List.length_append, List.length_singleton, List.range_succ, List.map_append,
    hid]
  rfl

end Graph

namespace Config

variable {α : Type} [Scalar α] {c : Config α} {g : Graph}

theorem opMetrics_eq_ok_iff {o : OpId} {m : Metrics α} :
    c.opMetrics g o = .ok m ↔ ∃ v, g.view o = .ok v ∧ v.metrics c.context = .ok m :=
  bind_eq_ok_iff

/-- The estimates of a new operator are those of what has been inferred of it. -/
theorem exists_opMetrics_of_adds [Build] (hg : g.Reachable) {op : Operator} {inputs : List TensorId}
    {e : Extended OpId} (h : g.Adds op inputs e) {inferred : Inferred}
    (hinfer : g.infer op inputs = .ok inferred) {types : List TensorType}
    (htypes : g.typesOf? inputs = some types) : ∃ m : Metrics α,
      c.opMetrics e.graph e.id = .ok m ∧
      inferred.op.metrics ⟨types, inferred.outputs⟩ c.context = some m := by
  obtain ⟨_, _, v, hinfer', htypes', hv, hop, hio⟩ := h.exists_view hg
  obtain rfl := Except.ok.inj (hinfer.symm.trans hinfer')
  obtain rfl := Option.some.inj (htypes.symm.trans htypes')
  obtain ⟨m, hm⟩ := (h.reachable hg).exists_metrics (α := α) hv c.context
  refine ⟨m, opMetrics_eq_ok_iff.mpr ⟨v, hv, OpView.orFault_eq_ok_iff.mpr hm⟩, ?_⟩
  rw [← hio, ← hop, hm]

/-- What is computed from an operator stays the same while the graph grows. -/
theorem opMetrics_kept {g' : Graph} (h : g.Extends g') (hg : g.Linked) (hg' : g'.Linked) {o : OpId}
    {m : Metrics α} (hm : c.opMetrics g o = .ok m) : c.opMetrics g' o = .ok m := by
  obtain ⟨v, hv, hm⟩ := opMetrics_eq_ok_iff.mp hm
  obtain ⟨n, hn⟩ := exists_node_of_view hv
  obtain ⟨w, w', hw, hw', _, _, hagrees⟩ := h.exists_agrees hg hg' hn
  have hvw : v = w := Except.ok.inj (hv.symm.trans hw)
  apply opMetrics_eq_ok_iff.mpr
  refine ⟨w', hw', ?_⟩
  rw [hagrees.metrics_eq, ← hvw, hm]

/-- The estimates of the operators of a graph, in the order of evaluation. -/
def rowsOf (c : Config α) (g : Graph) : Except Failure (List (Metrics α)) := do
  c.rowMetrics (← evaluationOrder g)

theorem graphMetrics_eq_of_rowsOf {rows : List (Metrics α)} (h : c.rowsOf g = .ok rows) :
    c.graphMetrics g = .ok (.total c.parallelism rows) := by
  obtain ⟨views, hviews, hrows⟩ := bind_eq_ok_iff.mp h
  apply bind_eq_ok_iff.mpr
  refine ⟨views, hviews, ?_⟩
  apply bind_eq_ok_iff.mpr
  exact ⟨rows, hrows, rfl⟩

theorem rowsOf_eq_ok_iff {order : List OpId} (horder : g.topologicalOrder = .ok order)
    {rows : List (Metrics α)} :
    c.rowsOf g = .ok rows ↔ List.Forall₂ (fun o m => c.opMetrics g o = .ok m) order rows := by
  have hviews : evaluationOrder g = order.mapM g.view := by
    unfold evaluationOrder
    rw [horder]
    rfl
  unfold rowsOf
  rw [hviews, bind_eq_ok_iff]
  simp only [rowMetrics, mapM_eq_ok_iff]
  clear hviews horder
  -- The views stand between the operators and their estimates.
  constructor
  · rintro ⟨views, hviews, hrows⟩
    induction hviews generalizing rows with
    | nil =>
      cases hrows
      exact .nil
    | cons hv _ ih =>
      cases hrows with
      | cons hm hrows => exact .cons (opMetrics_eq_ok_iff.mpr ⟨_, hv, hm⟩) (ih hrows)
  · intro h
    induction h with
    | nil => exact ⟨[], .nil, .nil⟩
    | cons hm _ ih =>
      obtain ⟨v, hv, hm⟩ := opMetrics_eq_ok_iff.mp hm
      obtain ⟨views, hviews, hrows⟩ := ih
      exact ⟨v :: views, .cons hv hviews, .cons hm hrows⟩

/-- An operator that is added with outputs of its own adds its row behind all others. -/
theorem rowsOf_addOp [Build] (hg : g.Reachable) (hforward : g.Forward) {guid : Nat} {op : Operator}
    {inputs : List TensorId} {e : Extended OpId} (h : g.addOp guid op inputs = .ok e)
    {rows : List (Metrics α)} (hrows : c.rowsOf g = .ok rows) {m : Metrics α}
    (hm : c.opMetrics e.graph e.id = .ok m) : c.rowsOf e.graph = .ok (rows ++ [m]) := by
  have hg' : e.graph.Reachable := hg.addOp h
  have hforward' : e.graph.Forward := hforward.addOp hg h
  have hold : List.Forall₂ (fun o m => c.opMetrics e.graph o = .ok m) g.opIds rows := by
    apply ((rowsOf_eq_ok_iff (hforward.topologicalOrder_eq hg)).mp hrows).imp
    intro o n hn
    exact opMetrics_kept (hg.extends_addOp h) hg.linked hg'.linked hn
  apply (rowsOf_eq_ok_iff (hforward'.topologicalOrder_eq hg')).mpr
  rw [opIds_of_addOp h]
  exact List.rel_append hold (.cons hm .nil)

theorem exists_rowsOf [Build] (hg : g.Reachable) : ∃ rows, c.rowsOf g = .ok rows := by
  obtain ⟨order, horder⟩ := hg.exists_order
  have hrow : ∀ o ∈ order, ∃ m, c.opMetrics g o = .ok m := by
    intro o ho
    obtain ⟨n, hn⟩ := exists_node?_of_lt (hg.lt_of_mem_order horder ho)
    obtain ⟨v, hv, _⟩ := hg.exists_registered_view hn
    obtain ⟨m, hm⟩ := hg.exists_metrics (α := α) hv c.context
    exact ⟨m, opMetrics_eq_ok_iff.mpr ⟨v, hv, OpView.orFault_eq_ok_iff.mpr hm⟩⟩
  obtain ⟨rows, hrows⟩ := exists_mapM_of_forall hrow
  exact ⟨rows, (rowsOf_eq_ok_iff horder).mpr (mapM_eq_ok_iff.mp hrows)⟩

end Config

end DataflowCost
