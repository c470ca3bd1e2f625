import DataflowCost.Proofs.Dependency

/-! Links between tensors and operators. An edge stands at the operator, as the producer of a tensor
and among the consumers of a tensor, and all that makes a graph grow keeps the three alike. -/
namespace DataflowCost.Graph

variable {g : Graph}

/-- Every link that a tensor holds is held by an operator, and the other way round. -/
structure Linked (g : Graph) : Prop extends Arena g where
  id_eq : ∀ {t x}, g.tensor? t = some x → x.id = t
  outputs_nodup : ∀ {o n}, g.node? o = some n → n.outputs.Nodup
  consumers_sorted : ∀ {t x}, g.tensor? t = some x →
    x.consumers.Pairwise fun a b => a.index < b.index
  mem_consumers : ∀ {t x o}, g.tensor? t = some x → (o ∈ x.consumers ↔ g.Reads o t)
  payload_fits : ∀ {t x p}, g.tensor? t = some x → x.payload = some p →
    p.length = x.type.size ∧ p.dtype = x.type.dtype

/-- Different tensors of the graph that are nobody's output. -/
structure Writable (g : Graph) (ids : List TensorId) : Prop where
  nodup : ids.Nodup
  unproduced : ∀ t ∈ ids, ∃ x, g.tensor? t = some x ∧ x.producer = none

instance (ids : List TensorId) : Decidable (g.Writable ids) :=
  decidable_of_iff
    (ids.Nodup ∧ ∀ t ∈ ids, ((g.tensor? t).any fun x => x.producer.isNone) = true) (by
      have hfree {t : TensorId} : ((g.tensor? t).any fun x => x.producer.isNone) = true ↔
          ∃ x, g.tensor? t = some x ∧ x.producer = none := by
        cases g.tensor? t <;> simp
      simp only [hfree]
      exact ⟨fun h => ⟨h.1, h.2⟩, fun h => ⟨h.nodup, h.unproduced⟩⟩)

@[simp] theorem link_id (id : OpId) (inputs outputs : List TensorId) (x : Tensor) :
    (link id inputs outputs x).id = x.id := rfl

@[simp] theorem link_type (id : OpId) (inputs outputs : List TensorId) (x : Tensor) :
    (link id inputs outputs x).type = x.type := rfl

@[simp] theorem link_payload (id : OpId) (inputs outputs : List TensorId) (x : Tensor) :
    (link id inputs outputs x).payload = x.payload := rfl

theorem linked_empty : empty.Linked := by
  have hnode {o : OpId} {n : Node} : empty.node? o ≠ some n := nofun
  have htensor {t : TensorId} {x : Tensor} : empty.tensor? t ≠ some x := nofun
  refine ⟨⟨?_, ?_⟩, ?_, ?_, ?_, ?_, ?_⟩
  · rintro o t ⟨n, hn, _⟩
    exact absurd hn hnode
  · intro o t
    refine ⟨nofun, ?_⟩
    rintro ⟨n, hn, _⟩
    exact absurd hn hnode
  · intro t x hx
    exact absurd hx htensor
  · intro o n hn
    exact absurd hn hnode
  · intro t x hx
    exact absurd hx htensor
  · intro t x o hx
    exact absurd hx htensor
  · intro t x p hx
    exact absurd hx htensor

theorem Linked.withHost (hg : g.Linked) (host : Host) : (g.withHost host).Linked where
  reads_lt := hg.reads_lt
  producer_iff := hg.producer_iff
  id_eq := hg.id_eq
  outputs_nodup := hg.outputs_nodup
  consumers_sorted := hg.consumers_sorted
  mem_consumers := hg.mem_consumers
  payload_fits := hg.payload_fits

theorem tensor?_addTensor_of_some {t : TensorId} {x : Tensor} {guid : Nat} {type : TensorType}
    {payload : Option Payload} (h : (g.addTensor guid type payload).graph.tensor? t = some x) :
    g.tensor? t = some x ∨
      t = ⟨g.tensors.length⟩ ∧ x = ⟨⟨g.tensors.length⟩, guid, type, payload, none, []⟩ := by
  have h' : (g.tensors ++ [⟨⟨g.tensors.length⟩, guid, type, payload, none, []⟩])[t.index]? =
      some x := h
  rw [List.getElem?_append] at h'
  by_cases ht : t.index < g.tensors.length
  · rw [if_pos ht] at h'
    exact .inl h'
  · rw [if_neg ht, List.getElem?_singleton] at h'
    by_cases hlast : t.index - g.tensors.length = 0
    · rw [if_pos hlast] at h'
      refine .inr ⟨congrArg TensorId.mk (by omega), (Option.some.inj h').symm⟩
    · rw [if_neg hlast] at h'
      cases h'

theorem tensor?_addTensor {t : TensorId} {x : Tensor} (guid : Nat) (type : TensorType)
    (payload : Option Payload) (h : g.tensor? t = some x) :
    (g.addTensor guid type payload).graph.tensor? t = some x := by
  have hlt : t.index < g.tensors.length := tensor?_lt h
  change (g.tensors ++ _)[t.index]? = some x
  rw [List.getElem?_append_left hlt]
  exact h

theorem Linked.addTensor (hg : g.Linked) (guid : Nat) (type : TensorType)
    (payload : Option Payload)
    (hfits : ∀ p ∈ payload, p.length = type.size ∧ p.dtype = type.dtype) :
    (g.addTensor guid type payload).graph.Linked := by
  -- Nobody refers to the position that the new tensor takes.
  have hfresh {o : OpId} : ¬ g.Reads o ⟨g.tensors.length⟩ := by
    intro hr
    have hlt := hg.reads_lt hr
    exact Nat.lt_irrefl _ hlt
  refine ⟨⟨?_, ?_⟩, ?_, hg.outputs_nodup, ?_, ?_, ?_⟩
  · intro o t hr
    have hlt := hg.reads_lt (o := o) hr
    simp only [Graph.addTensor, List.length_append, List.length_singleton]
    omega
  · intro o t
    rw [show (g.addTensor guid type payload).graph.Writes o t ↔ g.Writes o t from Iff.rfl,
      ← hg.producer_iff]
    constructor
    · intro h
      obtain ⟨x, hx, hp⟩ := Option.bind_eq_some_iff.mp h
      rcases tensor?_addTensor_of_some hx with hx | ⟨_, rfl⟩
      · exact Option.bind_eq_some_iff.mpr ⟨x, hx, hp⟩
      · cases hp
    · intro h
      obtain ⟨x, hx, hp⟩ := Option.bind_eq_some_iff.mp h
      exact Option.bind_eq_some_iff.mpr ⟨x, tensor?_addTensor guid type payload hx, hp⟩
  · intro t x hx
    rcases tensor?_addTensor_of_some hx with hx | ⟨rfl, rfl⟩
    · exact hg.id_eq hx
    · rfl
  · intro t x hx
    rcases tensor?_addTensor_of_some hx with hx | ⟨rfl, rfl⟩
    · exact hg.consumers_sorted hx
    · exact .nil
  · intro t x o hx
    rcases tensor?_addTensor_of_some hx with hx | ⟨rfl, rfl⟩
    · exact hg.mem_consumers hx
    · exact ⟨fun hm => absurd hm List.not_mem_nil, fun hr => absurd hr hfresh⟩
  · intro t x p hx hp
    rcases tensor?_addTensor_of_some hx with hx | ⟨rfl, rfl⟩
    · exact hg.payload_fits hx hp
    · exact hfits p hp

/-- Tensors that are made together stand one after the other, and so do their guids. -/
theorem addTensors_eq (g : Graph) (guid : Nat) (types : List TensorType) :
    g.addTensors guid types =
      ⟨{ g with
          tensors := g.tensors ++ types.mapIdx fun i type =>
            ⟨⟨g.tensors.length + i⟩, guid + i, type, none, none, []⟩ },
        guid + types.length,
        (List.range' g.tensors.length types.length).map TensorId.mk⟩ := by
  induction types generalizing g guid with
  | nil => simp [addTensors]
  | cons type types ih =>
    simp only [addTensors, ih, Graph.addTensor, List.length_append, List.length_cons,
      List.length_nil, List.mapIdx_cons, List.range'_succ, List.map_cons, List.append_assoc,
      List.singleton_append, Nat.add_zero, Nat.zero_add]
    simp only [Nat.add_assoc, Nat.add_comm 1]

theorem Linked.addTensors (hg : g.Linked) (guid : Nat) (types : List TensorType) :
    (g.addTensors guid types).graph.Linked := by
  induction types generalizing g guid with
  | nil => exact hg
  | cons type types ih => exact ih (hg.addTensor guid type none (by simp)) (guid + 1)

/-- The tensors that are made, one for each type, with consecutive positions and guids. -/
theorem tensor?_addTensors_made (guid : Nat) (types : List TensorType) {i : Nat}
    (hi : i < types.length) :
    (g.addTensors guid types).graph.tensor? ⟨g.tensors.length + i⟩ =
      some ⟨⟨g.tensors.length + i⟩, guid + i, types[i], none, none, []⟩ := by
  rw [addTensors_eq]
  simp [tensor?, hi]

theorem length_addTensors_id (guid : Nat) (types : List TensorType) :
    (g.addTensors guid types).id.length = types.length := by
  rw [addTensors_eq, List.length_map, List.length_range']

theorem mem_addTensors_id {guid : Nat} {types : List TensorType} {t : TensorId} :
    t ∈ (g.addTensors guid types).id ↔ ∃ i < types.length, t = ⟨g.tensors.length + i⟩ := by
  rw [addTensors_eq]
  constructor
  · intro ht
    obtain ⟨k, hk, rfl⟩ := List.mem_map.mp ht
    obtain ⟨i, hi, rfl⟩ := List.mem_range'.mp hk
    exact ⟨i, hi, by rw [Nat.one_mul]⟩
  · rintro ⟨i, hi, rfl⟩
    exact List.mem_map.mpr ⟨_, List.mem_range'.mpr ⟨i, hi, rfl⟩, by rw [Nat.one_mul]⟩

theorem writable_addTensors (g : Graph) (guid : Nat) (types : List TensorType) :
    (g.addTensors guid types).graph.Writable (g.addTensors guid types).id := by
  constructor
  · rw [addTensors_eq]
    exact List.Nodup.map (fun _ _ h => congrArg TensorId.index h) List.nodup_range'
  · intro t ht
    obtain ⟨i, hi, rfl⟩ := mem_addTensors_id.mp ht
    exact ⟨_, tensor?_addTensors_made guid types hi, rfl⟩

theorem tensor?_register (guid : Nat) (op : Operator) (inputs outputs : List TensorId)
    (t : TensorId) :
    (g.register guid op inputs outputs).graph.tensor? t =
      (g.tensor? t).map (link ⟨g.nodes.length⟩ inputs outputs) :=
  List.getElem?_map

theorem node?_register_of_some {guid : Nat} {op : Operator} {inputs outputs : List TensorId}
    {o : OpId} {n : Node} :
    (g.register guid op inputs outputs).graph.node? o = some n ↔
      g.node? o = some n ∨ o = ⟨g.nodes.length⟩ ∧ n = ⟨guid, op, inputs, outputs⟩ := by
  change (g.nodes ++ [⟨guid, op, inputs, outputs⟩])[o.index]? = some n ↔ _
  rw [List.getElem?_append]
  by_cases ho : o.index < g.nodes.length
  · have hne : o ≠ ⟨g.nodes.length⟩ := by
      rintro rfl
      exact Nat.lt_irrefl _ ho
    simp [ho, hne, node?]
  · have hnone : g.node? o = none := node?_eq_none_iff.mpr (by omega)
    rw [if_neg ho, List.getElem?_singleton, hnone]
    by_cases hlast : o.index - g.nodes.length = 0
    · have heq : o = ⟨g.nodes.length⟩ := congrArg OpId.mk (by omega)
      rw [if_pos hlast]
      simp [heq, eq_comm]
    · have hne : o ≠ ⟨g.nodes.length⟩ := by
        rintro rfl
        exact hlast (Nat.sub_self _)
      simp [hlast, hne]

section Register

variable {guid : Nat} {op : Operator} {inputs outputs : List TensorId} {o : OpId} {t : TensorId}

theorem reads_register :
    (g.register guid op inputs outputs).graph.Reads o t ↔
      g.Reads o t ∨ o = ⟨g.nodes.length⟩ ∧ t ∈ inputs := by
  constructor
  · rintro ⟨n, hn, ht⟩
    rcases node?_register_of_some.mp hn with hn | ⟨ho, rfl⟩
    · exact .inl ⟨n, hn, ht⟩
    · exact .inr ⟨ho, ht⟩
  · rintro (⟨n, hn, ht⟩ | ⟨ho, ht⟩)
    · exact ⟨n, node?_register_of_some.mpr (.inl hn), ht⟩
    · exact ⟨⟨guid, op, inputs, outputs⟩, node?_register_of_some.mpr (.inr ⟨ho, rfl⟩), ht⟩

theorem writes_register :
    (g.register guid op inputs outputs).graph.Writes o t ↔
      g.Writes o t ∨ o = ⟨g.nodes.length⟩ ∧ t ∈ outputs := by
  constructor
  · rintro ⟨n, hn, ht⟩
    rcases node?_register_of_some.mp hn with hn | ⟨ho, rfl⟩
    · exact .inl ⟨n, hn, ht⟩
    · exact .inr ⟨ho, ht⟩
  · rintro (⟨n, hn, ht⟩ | ⟨ho, ht⟩)
    · exact ⟨n, node?_register_of_some.mpr (.inl hn), ht⟩
    · exact ⟨⟨guid, op, inputs, outputs⟩, node?_register_of_some.mpr (.inr ⟨ho, rfl⟩), ht⟩

theorem Linked.producer?_register (hg : g.Linked) (hout : g.Writable outputs) :
    (g.register guid op inputs outputs).graph.producer? t =
      if t ∈ outputs then some ⟨g.nodes.length⟩ else g.producer? t := by
  unfold producer?
  rw [tensor?_register]
  cases hx : g.tensor? t with
  | none =>
    have hno : t ∉ outputs := by
      intro ht
      obtain ⟨x, hsome, _⟩ := hout.unproduced t ht
      rw [hx] at hsome
      cases hsome
    simp [hno]
  | some x =>
    have hid : x.id = t := hg.id_eq hx
    simp only [Option.map_some, Option.bind_some, link, hid]

/-- Registration links the new operator to its tensors, and leaves all other links as they were. -/
theorem Linked.register (hg : g.Linked) (hin : ∀ t ∈ inputs, t.index < g.tensors.length)
    (hout : g.Writable outputs) : (g.register guid op inputs outputs).graph.Linked := by
  have hlookup {t : TensorId} {x : Tensor}
      (h : (g.register guid op inputs outputs).graph.tensor? t = some x) :
      ∃ y, g.tensor? t = some y ∧ x = link ⟨g.nodes.length⟩ inputs outputs y := by
    rw [tensor?_register] at h
    obtain ⟨y, hy, hxy⟩ := Option.map_eq_some_iff.mp h
    exact ⟨y, hy, hxy.symm⟩
  refine ⟨⟨?_, ?_⟩, ?_, ?_, ?_, ?_, ?_⟩
  · intro o t hr
    have hlen : (g.register guid op inputs outputs).graph.tensors.length = g.tensors.length :=
      List.length_map ..
    rw [hlen]
    rcases reads_register.mp hr with hr | ⟨_, ht⟩
    · exact hg.reads_lt hr
    · exact hin t ht
  · intro o t
    rw [hg.producer?_register hout, writes_register]
    by_cases ht : t ∈ outputs
    · -- Nobody wrote a declared output before.
      have hnone : ¬ g.Writes o t := by
        obtain ⟨x, hx, hp⟩ := hout.unproduced t ht
        rw [← hg.producer_iff, producer?, hx, Option.bind_some, hp]
        exact nofun
      simp [ht, hnone, eq_comm]
    · simp [ht, hg.producer_iff]
  · intro t x hx
    obtain ⟨y, hy, rfl⟩ := hlookup hx
    rw [link_id]
    exact hg.id_eq hy
  · intro o n hn
    rcases node?_register_of_some.mp hn with hn | ⟨_, rfl⟩
    · exact hg.outputs_nodup hn
    · exact hout.nodup
  · intro t x hx
    obtain ⟨y, hy, rfl⟩ := hlookup hx
    have hold := hg.consumers_sorted hy
    by_cases ht : y.id ∈ inputs
    · -- The new operator is appended, and its position is beyond all others.
      simp only [link, if_pos ht, List.pairwise_append]
      refine ⟨hold, List.pairwise_singleton _ _, ?_⟩
      intro a ha b hb
      rw [List.mem_singleton.mp hb]
      exact ((hg.mem_consumers hy).mp ha).op_lt
    · simpa only [link, if_neg ht] using hold
  · intro t x o hx
    obtain ⟨y, hy, rfl⟩ := hlookup hx
    rw [reads_register, ← hg.mem_consumers hy]
    -- Each tensor is linked once, however often it is an input.
    by_cases ht : t ∈ inputs
    · simp [link, hg.id_eq hy, ht]
    · simp [link, hg.id_eq hy, ht]
  · intro t x p hx hp
    obtain ⟨y, hy, rfl⟩ := hlookup hx
    rw [link_payload] at hp
    rw [link_type]
    exact hg.payload_fits hy hp

end Register

end DataflowCost.Graph
