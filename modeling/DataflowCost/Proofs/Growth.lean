import DataflowCost.Proofs.InPlace

/-! What later calls leave alone. A graph only grows: tensors keep everything but the links that
later operators add, operators keep everything, and so does all that is computed from them. -/
namespace DataflowCost

open scoped ExactArithmetic

/-- A tensor with more links: a producer where it had none, and consumers behind those it had. -/
structure Tensor.Grows (x x' : Tensor) : Prop where
  id_eq : x'.id = x.id
  guid_eq : x'.guid = x.guid
  type_eq : x'.type = x.type
  payload_eq : x'.payload = x.payload
  producer_kept : ∀ o, x.producer = some o → x'.producer = some o
  consumers_prefix : x.consumers <+: x'.consumers

theorem Tensor.Grows.refl (x : Tensor) : x.Grows x :=
  ⟨rfl, rfl, rfl, rfl, fun _ h => h, List.prefix_refl _⟩

theorem Tensor.Grows.trans {x y z : Tensor} (h : x.Grows y) (h' : y.Grows z) : x.Grows z where
  id_eq := h'.id_eq.trans h.id_eq
  guid_eq := h'.guid_eq.trans h.guid_eq
  type_eq := h'.type_eq.trans h.type_eq
  payload_eq := h'.payload_eq.trans h.payload_eq
  producer_kept o ho := h'.producer_kept o (h.producer_kept o ho)
  consumers_prefix := h.consumers_prefix.trans h'.consumers_prefix

namespace Graph

variable {g g' g'' : Graph}

/-- A later state of a graph. -/
structure Extends (g g' : Graph) : Prop where
  tensor_kept : ∀ {t x}, g.tensor? t = some x → ∃ x', g'.tensor? t = some x' ∧ x.Grows x'
  node_kept : ∀ {o n}, g.node? o = some n → g'.node? o = some n

theorem Extends.refl (g : Graph) : g.Extends g :=
  ⟨fun hx => ⟨_, hx, .refl _⟩, id⟩

theorem Extends.trans (h : g.Extends g') (h' : g'.Extends g'') : g.Extends g'' where
  tensor_kept hx := by
    obtain ⟨y, hy, hxy⟩ := h.tensor_kept hx
    obtain ⟨z, hz, hyz⟩ := h'.tensor_kept hy
    exact ⟨z, hz, hxy.trans hyz⟩
  node_kept hn := h'.node_kept (h.node_kept hn)

theorem extends_withHost (g : Graph) (host : Host) : g.Extends (g.withHost host) :=
  ⟨fun hx => ⟨_, hx, .refl _⟩, id⟩

theorem extends_addTensor (g : Graph) (guid : Nat) (type : TensorType) (payload : Option Payload) :
    g.Extends (g.addTensor guid type payload).graph :=
  ⟨fun hx => ⟨_, tensor?_addTensor guid type payload hx, .refl _⟩, id⟩

theorem extends_addTensors (g : Graph) (guid : Nat) (types : List TensorType) :
    g.Extends (g.addTensors guid types).graph := by
  induction types generalizing g guid with
  | nil => exact .refl g
  | cons type types ih => exact (extends_addTensor g guid type none).trans (ih _ _)

/-- Registration only adds links, because nobody wrote the outputs before. -/
theorem Linked.extends_register (hg : g.Linked) {guid : Nat} {op : Operator}
    {inputs outputs : List TensorId} (hout : g.Writable outputs) :
    g.Extends (g.register guid op inputs outputs).graph where
  tensor_kept {t x} hx := by
    refine ⟨link ⟨g.nodes.length⟩ inputs outputs x, ?_, rfl, rfl, rfl, rfl, ?_, ?_⟩
    · rw [tensor?_register, hx, Option.map_some]
    · intro o ho
      -- A tensor with a producer is not among the outputs, which have none.
      have hnot : x.id ∉ outputs := by
        intro hm
        obtain ⟨y, hy, hnone⟩ := hout.unproduced x.id hm
        rw [hg.id_eq hx, hx] at hy
        rw [Option.some.inj hy, hnone] at ho
        cases ho
      rw [link, if_neg hnot]
      exact ho
    · by_cases hr : x.id ∈ inputs
      · simp only [link, if_pos hr]
        exact List.prefix_append _ _
      · simp only [link, if_neg hr]
        exact List.prefix_refl _
  node_kept hn := node?_register_of_some.mpr (.inl hn)

theorem Linked.extends_step [Build] (hg : g.Linked) (h : g.Step g') : g.Extends g' := by
  cases h with
  | refused => exact .refl g
  | hosted host => exact extends_withHost g host
  | grown guid type payload _ => exact extends_addTensor g guid type payload
  | made guid op inputs inferred _ =>
    exact (extends_addTensors g guid _).trans
      ((hg.addTensors guid _).extends_register (writable_addTensors g guid _))
  | declared guid op inputs outputs inferred hadmits _ =>
    exact hg.extends_register hadmits.writable

/-- The graph after further calls, each with the guid that is free when it is made. -/
def afterAll [Build] (g : Graph) (calls : List (Nat × Call)) : Graph :=
  calls.foldl (fun g c => (g.after c.1 c.2).1) g

theorem Reachable.extends_afterAll [Build] (hg : g.Reachable) (calls : List (Nat × Call)) :
    g.Extends (g.afterAll calls) := by
  induction calls generalizing g with
  | nil => exact .refl g
  | cons c calls ih =>
    exact (hg.linked.extends_step (step_after c.1 c.2)).trans (ih (.call c.1 c.2 hg))

/-- The tensors of an operator are there. -/
theorem Linked.exists_view (hg : g.Linked) {id : OpId} {n : Node} (hn : g.node? id = some n) :
    ∃ inputs outputs, n.inputs.mapM g.tensor? = some inputs ∧
      n.outputs.mapM g.tensor? = some outputs ∧ g.view id = .ok ⟨id, n, inputs, outputs⟩ := by
  have hreads : ∀ t ∈ n.inputs, ∃ x, g.tensor? t = some x :=
    fun t ht => exists_tensor?_of_lt (hg.reads_lt ⟨n, hn, ht⟩)
  have hwrites : ∀ t ∈ n.outputs, ∃ x, g.tensor? t = some x :=
    fun t ht => exists_tensor?_of_lt (hg.writes_lt ⟨n, hn, ht⟩)
  obtain ⟨inputs, hinputs⟩ := mapM_eq_some_of_forall hreads
  obtain ⟨outputs, houtputs⟩ := mapM_eq_some_of_forall hwrites
  refine ⟨inputs, outputs, hinputs, houtputs, ?_⟩
  have hnode : g.node id = .ok n := by simp only [Graph.node, hn]
  simp only [view, hnode, hinputs, houtputs, bind, Except.bind]
  rfl

theorem Extends.mapM_tensor? (h : g.Extends g') {ids : List TensorId} {xs : List Tensor}
    (hxs : ids.mapM g.tensor? = some xs) :
    ∃ xs', ids.mapM g'.tensor? = some xs' ∧ List.Forall₂ Tensor.Grows xs xs' := by
  induction ids generalizing xs with
  | nil =>
    obtain rfl : [] = xs := Option.some.inj hxs
    exact ⟨[], rfl, .nil⟩
  | cons t ids ih =>
    obtain ⟨x, rest, hx, hrest, rfl⟩ := mapM_eq_some_cons hxs
    obtain ⟨x', hx', hgrows⟩ := h.tensor_kept hx
    obtain ⟨rest', hrest', hall⟩ := ih hrest
    exact ⟨x' :: rest', by rw [List.mapM_cons, hx', hrest']; rfl, .cons hgrows hall⟩

end Graph

/-- What is observed of a tensor besides its links. -/
def Tensor.observed (x : Tensor) : TensorId × Nat × TensorType × Option Payload :=
  (x.id, x.guid, x.type, x.payload)

theorem map_eq_of_grows {β : Type} {f : Tensor → β} (hf : ∀ x x', x.Grows x' → f x' = f x)
    {xs xs' : List Tensor} (h : List.Forall₂ Tensor.Grows xs xs') : xs'.map f = xs.map f := by
  induction h with
  | nil => rfl
  | cons hx _ ih => rw [List.map_cons, List.map_cons, hf _ _ hx, ih]

/-- Two views of one operator that differ in links of its tensors at most. -/
structure OpView.Agrees (v v' : OpView) : Prop where
  id_eq : v'.id = v.id
  node_eq : v'.node = v.node
  inputs_eq : v'.inputs.map Tensor.observed = v.inputs.map Tensor.observed
  outputs_eq : v'.outputs.map Tensor.observed = v.outputs.map Tensor.observed

namespace OpView.Agrees

variable {v v' : OpView}

theorem map_eq {β : Type} {xs xs' : List Tensor}
    (f : TensorId × Nat × TensorType × Option Payload → β)
    (h : xs'.map Tensor.observed = xs.map Tensor.observed) :
    xs'.map (fun x => f x.observed) = xs.map fun x => f x.observed := by
  have := congrArg (List.map f) h
  rwa [List.map_map, List.map_map] at this

theorem op_eq (h : v.Agrees v') : v'.op = v.op := congrArg Node.op h.node_eq

theorem inputTypes_eq (h : v.Agrees v') : v'.inputTypes = v.inputTypes :=
  map_eq (fun x => x.2.2.1) h.inputs_eq

theorem io_eq (h : v.Agrees v') : v'.io = v.io := by
  have hout : v'.outputs.map Tensor.type = v.outputs.map Tensor.type :=
    map_eq (fun x => x.2.2.1) h.outputs_eq
  rw [io, io, h.inputTypes_eq, hout]

theorem metrics_eq (h : v.Agrees v') {α : Type} [Scalar α] (cx : CostContext) :
    v'.metrics (α := α) cx = v.metrics cx := by
  rw [metrics, metrics, h.op_eq, h.io_eq]

theorem workload_eq (h : v.Agrees v') : v'.workload = v.workload := by
  rw [workload, workload, h.op_eq, h.io_eq]

theorem attributes_eq (h : v.Agrees v') : v'.attributes = v.attributes :=
  congrArg Operator.attributes h.op_eq

theorem perfKey_eq (h : v.Agrees v') : v'.perfKey = v.perfKey := by
  rw [perfKey, perfKey, h.op_eq, h.io_eq]

theorem guids_eq {xs xs' : List Tensor} (name : String)
    (h : xs'.map Tensor.observed = xs.map Tensor.observed) : guids name xs' = guids name xs := by
  have hguids : (xs'.map fun t => toString t.guid) = xs.map fun t => toString t.guid :=
    map_eq (fun x => toString x.2.1) h
  rw [guids, guids, hguids]

theorem text_eq (h : v.Agrees v') : v'.text = v.text := by
  have hshapes : (v'.inputs.map fun t => t.type.shape.text ++ ",") =
      v.inputs.map fun t => t.type.shape.text ++ "," :=
    map_eq (fun x => x.2.2.1.shape.text ++ ",") h.inputs_eq
  simp only [text, kind, h.op_eq, h.node_eq, hshapes, guids_eq _ h.inputs_eq,
    guids_eq _ h.outputs_eq]

end OpView.Agrees

namespace Graph

variable {g : Graph}

theorem Extends.exists_agrees {g' : Graph} (h : g.Extends g') (hg : g.Linked) (hg' : g'.Linked)
    {id : OpId} {n : Node} (hn : g.node? id = some n) :
    ∃ v v', g.view id = .ok v ∧ g'.view id = .ok v' ∧ v.id = id ∧ v.node = n ∧ v.Agrees v' := by
  obtain ⟨inputs, outputs, hinputs, houtputs, hview⟩ := hg.exists_view hn
  obtain ⟨inputs', outputs', hinputs', houtputs', hview'⟩ := hg'.exists_view (h.node_kept hn)
  obtain ⟨xs, hxs, hgrowsIn⟩ := h.mapM_tensor? hinputs
  obtain ⟨ys, hys, hgrowsOut⟩ := h.mapM_tensor? houtputs
  obtain rfl := Option.some.inj (hinputs'.symm.trans hxs)
  obtain rfl := Option.some.inj (houtputs'.symm.trans hys)
  have hobserved (x x' : Tensor) (hx : x.Grows x') : x'.observed = x.observed := by
    rw [Tensor.observed, hx.id_eq, hx.guid_eq, hx.type_eq, hx.payload_eq, Tensor.observed]
  exact ⟨_, _, hview, hview', rfl, rfl, rfl, rfl, map_eq_of_grows hobserved hgrowsIn,
    map_eq_of_grows hobserved hgrowsOut⟩

theorem Reachable.afterAll [Build] (hg : g.Reachable) (calls : List (Nat × Call)) :
    (g.afterAll calls).Reachable := by
  induction calls generalizing g with
  | nil => exact hg
  | cons c calls ih => exact ih (.call c.1 c.2 hg)

/-- Nothing that is observed of a registered operator changes later. Tensors keep their producer,
and consumers are only appended. A call that fails leaves everything as it was. -/
theorem Reachable.observations_kept [Build] (hg : g.Reachable) :
    (∀ (calls : List (Nat × Call)) (id : OpId) (n : Node), g.node? id = some n →
      ∃ v v', g.view id = .ok v ∧ (g.afterAll calls).view id = .ok v' ∧
        v.id = id ∧ v'.id = id ∧ v.node = n ∧ v'.node = n ∧
        v'.inputs.map Tensor.observed = v.inputs.map Tensor.observed ∧
        v'.outputs.map Tensor.observed = v.outputs.map Tensor.observed ∧
        v'.workload = v.workload ∧ v'.attributes = v.attributes ∧ v'.perfKey = v.perfKey ∧
        v'.text = v.text ∧
        ∀ {α : Type} [Scalar α] (cx : CostContext), v'.metrics (α := α) cx = v.metrics cx) ∧
    (∀ (calls : List (Nat × Call)) (t : TensorId) (x : Tensor), g.tensor? t = some x →
      ∃ x', (g.afterAll calls).tensor? t = some x' ∧ x'.observed = x.observed ∧
        (∀ o, x.producer = some o → x'.producer = some o) ∧ x.consumers <+: x'.consumers) ∧
    ∀ (guid : Nat) (call : Call),
      call.perform.run (g, guid) = .ok () (g.after guid call) ∨
      ∃ e, call.perform.run (g, guid) = .error e (g, guid) ∧ g.after guid call = (g, guid) := by
  refine ⟨?_, ?_, hg.linked.perform_cases⟩
  · intro calls id n hn
    obtain ⟨v, v', hv, hv', hid, hnode, h⟩ :=
      (hg.extends_afterAll calls).exists_agrees hg.linked (hg.afterAll calls).linked hn
    exact ⟨v, v', hv, hv', hid, h.id_eq.trans hid, hnode, h.node_eq.trans hnode, h.inputs_eq,
      h.outputs_eq, h.workload_eq, h.attributes_eq, h.perfKey_eq, h.text_eq, h.metrics_eq⟩
  · intro calls t x hx
    obtain ⟨x', hx', h⟩ := (hg.extends_afterAll calls).tensor_kept hx
    refine ⟨x', hx', ?_, h.producer_kept, h.consumers_prefix⟩
    rw [Tensor.observed, h.id_eq, h.guid_eq, h.type_eq, h.payload_eq, Tensor.observed]

/-- A call that would close a cycle, a second reader of the tensor in the middle, and a new host. -/
def laterCalls : List (Nat × Call) :=
  [(6, .opInto (.unary ⟨.relu⟩) [⟨2⟩] [⟨0⟩]), (6, .op (.unary ⟨.exp⟩) [⟨1⟩]),
    (8, .host fun _ => .error "")]

/-- The second reader is appended to the consumers, and nothing else is seen of the later calls. -/
theorem observations_kept_lateProducer :
    lateProducer.Reachable ∧
      ∃ v v' x x',
        lateProducer.view ⟨0⟩ = .ok v ∧ lateProducer.tensor? ⟨1⟩ = some x ∧
        (lateProducer.afterAll laterCalls).view ⟨0⟩ = .ok v' ∧
        (lateProducer.afterAll laterCalls).tensor? ⟨1⟩ = some x' ∧
        x.consumers = [⟨0⟩] ∧ x'.consumers = [⟨0⟩, ⟨2⟩] ∧ x.observed = x'.observed ∧
        v'.text = v.text ∧ v'.perfKey = v.perfKey := by
  have hg : lateProducer.Reachable := reachable_ofCalls _
  obtain ⟨hviews, htensors, _⟩ := hg.observations_kept
  have hnode : lateProducer.node? ⟨0⟩ = some ⟨4, .unary ⟨.relu⟩, [⟨1⟩], [⟨2⟩]⟩ := by cbv
  have htensor : lateProducer.tensor? ⟨1⟩ =
      some ⟨⟨1⟩, 2, ⟨[4], .float32⟩, none, some ⟨1⟩, [⟨0⟩]⟩ := by cbv
  obtain ⟨v, v', hv, hv', _, _, _, _, _, _, _, _, hkey, htext, _⟩ := hviews _ ⟨0⟩ _ hnode
  obtain ⟨x', hx', hobserved, _⟩ := htensors _ ⟨1⟩ _ htensor
  refine ⟨hg, v, v', _, x', hv, htensor, hv', hx', rfl, ?_, hobserved.symm, htext, hkey⟩
  have hlater : (lateProducer.afterAll laterCalls).tensor? ⟨1⟩ =
      some ⟨⟨1⟩, 2, ⟨[4], .float32⟩, none, some ⟨1⟩, [⟨0⟩, ⟨2⟩]⟩ := by cbv
  obtain rfl := Option.some.inj (hlater.symm.trans hx')
  rfl

end Graph

end DataflowCost
